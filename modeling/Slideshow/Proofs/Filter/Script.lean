import Slideshow.Filter.Graph
import Mathlib.Data.List.Basic

/-! # Reading a graph back

The text of a graph is read as the renderer reads it: operations are parted by semicolons, and each
is a row of streams in brackets, an expression, and another row of streams. Where neither names nor
expressions have such characters of their own, and no expression is empty, what is read is what was
written. -/

namespace Slideshow

/-! ## The reader -/

/-- Reads streams in brackets up to where no other one begins. When a bracket is open, the beginning
of a name was read already. -/
def Label.readRow : Option (List Char) → List Char → Option (List Label × List Char)
  | none, [] => some ([], [])
  | none, c :: cs => if c = '[' then readRow (some []) cs else some ([], c :: cs)
  | some _, [] => none
  | some name, c :: cs =>
    if c = ']' then (readRow none cs).map fun read => (⟨String.ofList name⟩ :: read.1, read.2)
    else readRow (some (name ++ [c])) cs

/-- Reads one operation. -/
def Operation.read? (cs : List Char) : Option Operation := do
  let (inputs, rest) ← Label.readRow none cs
  let (outputs, end_) ← Label.readRow none (rest.dropWhile (· ≠ '['))
  if end_.isEmpty then some ⟨inputs, String.ofList (rest.takeWhile (· ≠ '[')), outputs⟩ else none

/-- Reads the operations of a graph. -/
def Graph.read? (text : String) : Option (List Operation) :=
  (text.toList.splitOn ';').mapM Operation.read?

/-- A text without the characters that tell operations and streams apart. -/
def Bare (t : String) : Prop := ∀ c ∈ t.toList, c ≠ ';' ∧ c ≠ '[' ∧ c ≠ ']'

instance (t : String) : Decidable (Bare t) := List.decidableBAll _ _

theorem bare_append {t t' : String} : Bare (t ++ t') ↔ Bare t ∧ Bare t' := by
  rw [Bare, String.toList_append, List.forall_mem_append]
  rfl

/-- A stream whose name can be read back. -/
def Label.Legible (l : Label) : Prop := Bare l.name

/-- An operation that can be read back. -/
structure Operation.Legible (op : Operation) : Prop where
  inputs : ∀ l ∈ op.inputs, l.Legible
  expression : Bare op.expression
  expression_ne : op.expression ≠ ""
  outputs : ∀ l ∈ op.outputs, l.Legible

namespace Label

/-- The brackets of a row of streams. -/
def row (ls : List Label) : List Char := ls.flatMap fun l => '[' :: (l.name.toList ++ [']'])

theorem toList_join_bracketed (ls : List Label) :
    (String.join (ls.map bracketed)).toList = row ls := by
  simp [row, bracketed, List.flatMap_map]

theorem readRow_name {name : List Char} (hname : ']' ∉ name) (before cs : List Char) :
    readRow (some before) (name ++ ']' :: cs) =
      (readRow none cs).map fun read => (⟨String.ofList (before ++ name)⟩ :: read.1, read.2) := by
  induction name generalizing before with
  | nil => simp [readRow]
  | cons c name ih =>
      rw [List.mem_cons, not_or] at hname
      rw [List.cons_append, readRow, if_neg (Ne.symm hname.1), ih hname.2]
      simp

/-- A row ends where no bracket is opened. -/
theorem readRow_row {ls : List Label} (hls : ∀ l ∈ ls, l.Legible) {rest : List Char}
    (hrest : rest.head? ≠ some '[') : readRow none (row ls ++ rest) = some (ls, rest) := by
  induction ls with
  | nil =>
      cases rest with
      | nil => rfl
      | cons c rest =>
          have hc : c ≠ '[' := by simpa using hrest
          simp [row, readRow, hc]
  | cons l ls ih =>
      obtain ⟨hl, hls⟩ := List.forall_mem_cons.mp hls
      have hrow : row (l :: ls) ++ rest = '[' :: (l.name.toList ++ ']' :: (row ls ++ rest)) := by
        simp [row]
      rw [hrow, readRow, if_pos rfl, readRow_name fun hc => (hl _ hc).2.2 rfl, ih hls]
      simp

end Label

namespace Operation

variable {op : Operation}

theorem toList_text (op : Operation) : op.text.toList =
    Label.row op.inputs ++ (op.expression.toList ++ Label.row op.outputs) := by
  rw [text, String.toList_append, String.toList_append, Label.toList_join_bracketed,
    Label.toList_join_bracketed, List.append_assoc]

theorem read?_text (h : op.Legible) : read? op.text.toList = some op := by
  have hbare : ∀ c ∈ op.expression.toList, decide (c ≠ '[') = true :=
    fun c hc => decide_eq_true (h.expression c hc).2.1
  have hhead : (op.expression.toList ++ Label.row op.outputs).head? ≠ some '[' := by
    cases hcs : op.expression.toList with
    | nil => exact (h.expression_ne (String.toList_eq_nil_iff.mp hcs)).elim
    | cons c cs => simpa using (h.expression c (hcs ▸ List.mem_cons_self)).2.1
  have hrow : Label.readRow none (Label.row op.outputs) = some (op.outputs, []) := by
    have hread : Label.readRow none (Label.row op.outputs ++ []) = some (op.outputs, []) :=
      Label.readRow_row h.outputs (by simp)
    rwa [List.append_nil] at hread
  have hsplit : (Label.row op.outputs).takeWhile (· ≠ '[') = [] ∧
      (Label.row op.outputs).dropWhile (· ≠ '[') = Label.row op.outputs := by
    cases op.outputs with
    | nil => exact ⟨rfl, rfl⟩
    | cons l ls => exact ⟨rfl, rfl⟩
  rw [read?, toList_text, Label.readRow_row h.inputs hhead]
  simp only [Option.bind_eq_bind, Option.bind_some]
  rw [List.dropWhile_append_of_pos hbare, List.takeWhile_append_of_pos hbare, hsplit.1, hsplit.2,
    hrow]
  simp

theorem semicolon_notMem_text (h : op.Legible) : ';' ∉ op.text.toList := by
  have hrow {ls : List Label} (hls : ∀ l ∈ ls, l.Legible) : ';' ∉ Label.row ls := by
    simp only [Label.row, List.mem_flatMap, not_exists, not_and]
    intro l hl
    simpa using fun hc => (hls l hl _ hc).1 rfl
  have hexpression : ';' ∉ op.expression.toList := fun hc => (h.expression _ hc).1 rfl
  rw [toList_text]
  simp [hrow h.inputs, hrow h.outputs, hexpression]

end Operation

namespace Graph

/-- What a graph with at least one operation is read as. -/
theorem read?_render {g : Graph} (hne : g.ops ≠ []) (h : ∀ op ∈ g.ops, op.Legible) :
    read? g.render = some g.ops := by
  have hread : ∀ {ops : List Operation}, (∀ op ∈ ops, op.Legible) →
      (ops.map fun op => op.text.toList).mapM Operation.read? = some ops := by
    intro ops hops
    induction ops with
    | nil => rfl
    | cons op rest ih =>
        obtain ⟨hop, hrest⟩ := List.forall_mem_cons.mp hops
        simp [Operation.read?_text hop, ih hrest]
  have hparts : ∀ cs ∈ g.ops.map fun op => op.text.toList, ';' ∉ cs :=
    List.forall_mem_map.mpr fun op hop => Operation.semicolon_notMem_text (h op hop)
  have htext : g.render.toList = [';'].intercalate (g.ops.map fun op => op.text.toList) := by
    simp [render, Function.comp_def]
  rw [read?, htext, List.splitOn_intercalate _ hparts (by simpa using hne), hread h]

/-- A slide that is cut, and another one after it. -/
example : read? "[0:v]trim=duration=5[seg0];[seg0][1:v]concat=n=2:v=1:a=0[cat1]" =
    some [⟨[⟨"0:v"⟩], "trim=duration=5", [⟨"seg0"⟩]⟩,
      ⟨[⟨"seg0"⟩, ⟨"1:v"⟩], "concat=n=2:v=1:a=0", [⟨"cat1"⟩]⟩] := by decide

end Graph

end Slideshow
