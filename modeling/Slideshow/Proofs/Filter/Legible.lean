import Slideshow.Proofs.Filter.Script
import Slideshow.Proofs.Filter.Append
import Slideshow.Proofs.Filter.Compile
import Slideshow.Proofs.Decimal.Printed

/-! # Filters write what can be read

No expression has a semicolon or a bracket, whatever numbers stand in it, and none is empty unless
it is a sequence of nothing. Filters whose labels have none of these characters therefore add
operations that can be read back. -/

namespace Slideshow

/-! ## Texts -/

theorem bare_of_numeric {t : String} (h : Decimal.Numeric t.toList) : Bare t := by
  intro c hc
  rcases h c hc with halphanum | rfl | rfl
  · refine ⟨?_, ?_, ?_⟩ <;> rintro rfl <;> cases halphanum
  · decide
  · decide

theorem bare_natText (n : ℕ) : Bare (Decimal.natText n) :=
  bare_of_numeric (Decimal.numeric_natText n)

theorem bare_intercalate {ts : List String} (h : ∀ t ∈ ts, Bare t) : Bare (",".intercalate ts) := by
  induction ts with
  | nil => decide
  | cons t ts ih =>
      obtain ⟨ht, hts⟩ := List.forall_mem_cons.mp h
      cases ts with
      | nil => simpa using ht
      | cons t' ts =>
          rw [String.intercalate_cons_cons, bare_append, bare_append]
          exact ⟨⟨ht, by decide⟩, ih hts⟩

/-- Numbers that are written without semicolons and brackets. -/
class BareNumbers (α : Type) [Scalar α] : Prop where
  bare_filterText (x : α) : Bare (Scalar.filterText x)

export BareNumbers (bare_filterText)

instance : BareNumbers Float := ⟨fun x => bare_of_numeric (Decimal.numeric_floatFilterText x)⟩

instance : BareNumbers ℚ := ⟨fun x => bare_of_numeric (Decimal.numeric_filterText x)⟩

namespace Label

theorem legible_video (i : ℕ) : (video i).Legible := bare_append.mpr ⟨bare_natText i, by decide⟩

theorem legible_audio (i : ℕ) : (audio i).Legible := bare_append.mpr ⟨bare_natText i, by decide⟩

end Label

theorem Labeler.legible_label {labels : Labeler} (h : Bare labels.stem) (i : ℕ) :
    (labels.label i).Legible := by
  unfold label
  split
  · exact h
  · exact bare_append.mpr ⟨bare_append.mpr ⟨h, by decide⟩, bare_natText i⟩

variable {α : Type} [Scalar α]

/-! ## Expressions -/

theorem PanZoom.bare_zoomText [BareNumbers α] (z : PanZoom α) (direction : ZoomDirection) :
    Bare (z.zoomText direction) := by
  unfold zoomText
  cases direction <;> simp only [bare_append, bare_filterText, and_true] <;> decide

theorem PanZoom.bare_text [BareNumbers α] (z : PanZoom α) (direction : ZoomDirection) :
    Bare (z.text direction) := by
  unfold text
  simp only [bare_append, bare_natText, z.bare_zoomText, and_true]
  decide

theorem Filter.bare_position [BareNumbers α] (duration : α) (direction : WipeDirection) :
    Bare (position duration direction) := by
  unfold position
  cases direction <;> simp only [bare_append, bare_filterText, and_true] <;> decide

namespace Expression

theorem bare_scaleText (width height : ℕ) : Bare (scaleText width height) := by
  unfold scaleText
  simp only [bare_append, bare_natText, and_true]
  decide

mutual

/-- What filters do to a stream is written without semicolons and brackets. -/
theorem bare_text [BareNumbers α] {i : ℕ} {t : String} (e : Expression α)
    (h : e.text i = .ok t) : Bare t := by
  match e with
  | .trim duration =>
      cases h
      exact bare_append.mpr ⟨by decide, bare_filterText duration⟩
  | .segment start stop =>
      cases h
      simp only [bare_append, bare_filterText, and_true]
      decide
  | .scale width height =>
      cases h
      exact bare_scaleText width height
  | .normalize =>
      cases h
      decide
  | .panZoom zoom =>
      obtain ⟨direction, -, rfl⟩ := text_panZoom_eq_ok_iff.mp h
      exact zoom.bare_text direction
  | .fade duration total =>
      cases h
      simp only [bare_append, bare_filterText, and_true]
      decide
  | .audioTrim length =>
      cases h
      simp only [bare_append, bare_filterText, and_true]
      decide
  | .audioFade start length =>
      cases h
      simp only [bare_append, bare_filterText, and_true]
      decide
  | .sequence parts =>
      obtain ⟨ts, hts, rfl⟩ := text_sequence_eq_ok_iff.mp h
      exact bare_intercalate (bare_texts parts hts)

theorem bare_texts [BareNumbers α] {i : ℕ} {ts : List String} (parts : List (Expression α))
    (h : Spells i parts ts) : ∀ t ∈ ts, Bare t := by
  match parts with
  | [] =>
      cases h
      exact List.forall_mem_nil _
  | part :: rest =>
      obtain ⟨t, ts, ht, hts, rfl⟩ := List.forall₂_cons_left_iff.mp h
      exact List.forall_mem_cons.mpr ⟨bare_text part ht, bare_texts rest hts⟩

end

mutual

/-- Something is done to a stream: the expression is no sequence of nothing. -/
def Acts : Expression α → Prop
  | .sequence parts => FirstActs parts
  | _ => True

/-- The first of the expressions does something. -/
def FirstActs : List (Expression α) → Prop
  | [] => False
  | part :: _ => part.Acts

end

mutual

/-- What does something is written with at least one character. -/
theorem text_ne_empty {i : ℕ} {t : String} (e : Expression α) (hacts : e.Acts)
    (h : e.text i = .ok t) : t ≠ "" := by
  match e with
  | .trim duration =>
      cases h
      simp
  | .segment start stop =>
      cases h
      simp
  | .scale width height =>
      cases h
      simp [scaleText]
  | .normalize =>
      cases h
      decide
  | .panZoom zoom =>
      obtain ⟨direction, -, rfl⟩ := text_panZoom_eq_ok_iff.mp h
      unfold PanZoom.text
      simp
  | .fade duration total =>
      cases h
      simp
  | .audioTrim length =>
      cases h
      simp
  | .audioFade start length =>
      cases h
      simp
  | .sequence parts =>
      obtain ⟨ts, hts, rfl⟩ := text_sequence_eq_ok_iff.mp h
      exact intercalate_ne_empty parts hacts hts

theorem intercalate_ne_empty {i : ℕ} {ts : List String} (parts : List (Expression α))
    (hacts : FirstActs parts) (h : Spells i parts ts) : ",".intercalate ts ≠ "" := by
  match parts with
  | [] => exact hacts.elim
  | part :: rest =>
      obtain ⟨t, ts, ht, -, rfl⟩ := List.forall₂_cons_left_iff.mp h
      have hne := text_ne_empty part hacts ht
      cases ts with
      | nil => simpa using hne
      | cons t' ts => simp [String.intercalate_cons_cons, hne]

end

end Expression

/-! ## Streams of a filter -/

namespace Stage.Assembled

variable {labelers : List Labeler} {inputs : List Label} {stage : Stage}

/-- The streams of a stage have names that can be read if its inputs and labelers have. -/
theorem legible (h : Assembled labelers inputs stage)
    (hlabelers : ∀ labels ∈ labelers, Bare labels.stem) (hinputs : ∀ l ∈ inputs, l.Legible) :
    (∀ op ∈ stage.ops, (∀ l ∈ op.inputs, l.Legible) ∧ ∀ l ∈ op.outputs, l.Legible) ∧
      ∀ l ∈ stage.outputs, l.Legible := by
  induction h with
  | @primitive stage labels inputs hprimitive =>
      have houtputs : ∀ l ∈ stage.outputs, l.Legible := by
        obtain ⟨n, hn⟩ := hprimitive.labelled
        rw [hn]
        intro l hl
        obtain ⟨i, -, rfl⟩ := List.mem_map.mp hl
        exact Labeler.legible_label (hlabelers labels (List.mem_singleton_self labels)) i
      refine ⟨fun op hop => ⟨fun l hl => hinputs l ?_, fun l hl => houtputs l ?_⟩, houtputs⟩
      · rw [← hprimitive.taken]
        exact List.mem_flatMap.mpr ⟨op, hop, hl⟩
      · rw [← hprimitive.given]
        exact List.mem_flatMap.mpr ⟨op, hop, hl⟩
  | idle => exact ⟨List.forall_mem_nil _, hinputs⟩
  | append _ _ hfirst hlast =>
      obtain ⟨hearlier, hlater⟩ := List.forall_mem_append.mp hlabelers
      obtain ⟨hops, houtputs⟩ := hfirst hearlier hinputs
      obtain ⟨hops', houtputs'⟩ := hlast hlater houtputs
      exact ⟨List.forall_mem_append.mpr ⟨hops, hops'⟩, houtputs'⟩

end Stage.Assembled

/-! ## Expressions of a filter -/

namespace Filter

mutual

/-- Wherever something is combined, something is done to the streams. -/
def Acts : Filter α → Prop
  | .combine _ parts _ => Expression.FirstActs parts
  | .chain stages => AllAct stages
  | _ => True

def AllAct : List (Filter α) → Prop
  | [] => True
  | stage :: rest => stage.Acts ∧ AllAct rest

end

variable {labels : Labeler} {inputs : List Label} {stage : Stage}

theorem expressions_of_compileSplit {kind : StreamKind} {copies : ℕ}
    (h : compileSplit labels kind copies inputs = .ok stage) :
    ∀ op ∈ stage.ops, Bare op.expression ∧ op.expression ≠ "" := by
  unfold compileSplit at h
  split at h
  · cases h
  · split at h
    · cases h
    · cases h
      refine List.forall_mem_map.mpr fun x _ => ⟨?_, ?_⟩
      · simp only [bare_append, bare_natText, and_true]
        cases kind <;> decide
      · simp

theorem expressions_of_compileConcat {kind : StreamKind} {count : ℕ}
    (h : compileConcat labels kind count inputs = .ok stage) :
    ∀ op ∈ stage.ops, Bare op.expression ∧ op.expression ≠ "" := by
  unfold compileConcat at h
  split at h
  · cases h
  · split at h
    · cases h
    · cases h
      rintro _ (_ | ⟨_, ⟨⟩⟩)
      refine ⟨?_, by simp⟩
      simp only [bare_append, bare_natText, and_true]
      cases kind <;> decide

theorem expressions_of_overlayPairs [BareNumbers α] {duration : α}
    {directions : Variants WipeDirection} {i : ℕ} {ops : List Operation}
    (h : overlayPairs labels duration directions i inputs = .ok ops) :
    ∀ op ∈ ops, Bare op.expression ∧ op.expression ≠ "" := by
  fun_induction overlayPairs labels duration directions i inputs generalizing ops with
  | case1 i below above rest ih =>
      obtain ⟨direction, -, h⟩ := ok_of_bind h
      obtain ⟨ops', hops', h⟩ := ok_of_bind h
      cases h
      refine List.forall_mem_cons.mpr ⟨⟨?_, by simp⟩, ih hops'⟩
      simp only [bare_append, bare_position, and_true]
      decide
  | case2 =>
      cases h
      exact List.forall_mem_nil _

theorem expressions_of_compileOverlay [BareNumbers α] {duration : α}
    {directions : Variants WipeDirection}
    (h : compileOverlay labels duration directions inputs = .ok stage) :
    ∀ op ∈ stage.ops, Bare op.expression ∧ op.expression ≠ "" := by
  unfold compileOverlay at h
  split at h
  · cases h
  · split at h
    · cases h
    · obtain ⟨ops, hops, h⟩ := ok_of_bind h
      cases h
      exact expressions_of_overlayPairs hops

theorem expressions_of_compileCombine [BareNumbers α] {parts : List (Expression α)} {first : ℕ}
    (hacts : Expression.FirstActs parts)
    (h : compileCombine labels parts first inputs = .ok stage) :
    ∀ op ∈ stage.ops, Bare op.expression ∧ op.expression ≠ "" := by
  unfold compileCombine at h
  split at h
  · cases h
  · split at h
    · cases h
    · obtain ⟨ops, hops, h⟩ := ok_of_bind h
      cases h
      intro op hop
      obtain ⟨x, -, hx⟩ := exists_of_mem_mapM hops hop
      obtain ⟨t, ht, hx⟩ := ok_of_bind hx
      cases hx
      have hacts' : (Expression.sequence parts).Acts := hacts
      exact ⟨Expression.bare_text _ ht, Expression.text_ne_empty _ hacts' ht⟩

mutual

/-- Every expression that a filter compiles to is written without semicolons and brackets, and none
is empty. -/
theorem expressions_of_compile [BareNumbers α] {inputs : List Label} {stage : Stage}
    (filter : Filter α) (hacts : filter.Acts) (h : filter.compile inputs = .ok stage) :
    ∀ op ∈ stage.ops, Bare op.expression ∧ op.expression ≠ "" := by
  match filter with
  | .split labels kind copies =>
      rw [compile] at h
      exact expressions_of_compileSplit h
  | .audioLoop labels repetitions =>
      rw [compile] at h
      split at h
      · cases h
      · exact expressions_of_compileSplit h
  | .concat labels kind count =>
      rw [compile] at h
      exact expressions_of_compileConcat h
  | .overlayWipe labels duration directions =>
      rw [compile] at h
      exact expressions_of_compileOverlay h
  | .combine labels parts first =>
      rw [compile] at h
      exact expressions_of_compileCombine hacts h
  | .chain stages =>
      rw [compile] at h
      exact expressions_of_compileChain stages hacts h

theorem expressions_of_compileChain [BareNumbers α] {inputs : List Label} {stage : Stage}
    (stages : List (Filter α)) (hacts : AllAct stages)
    (h : compileChain inputs stages = .ok stage) :
    ∀ op ∈ stage.ops, Bare op.expression ∧ op.expression ≠ "" := by
  match stages with
  | [] =>
      rw [compileChain] at h
      cases h
      exact List.forall_mem_nil _
  | filter :: rest =>
      rw [compileChain] at h
      obtain ⟨first, hfirst, h⟩ := ok_of_bind h
      obtain ⟨last, hlast, h⟩ := ok_of_bind h
      cases h
      exact List.forall_mem_append.mpr ⟨expressions_of_compile filter hacts.1 hfirst,
        expressions_of_compileChain rest hacts.2 hlast⟩

end

/-- The labelers and the expressions of the filter can be read. -/
structure Legible (filter : Filter α) : Prop where
  labelers : ∀ labels ∈ filter.labelers, Bare labels.stem
  acts : filter.Acts

theorem legible_of_labelers_eq {α : Type} {filter : Filter α}
    (hlabelers : filter.labelers = [labels]) (hlabels : Bare labels.stem) (hacts : filter.Acts) :
    filter.Legible where
  labelers := by
    rw [hlabelers]
    exact List.forall_mem_singleton.mpr hlabels
  acts := hacts

/-- What a filter compiles to can be read back. -/
theorem Legible.of_compile [BareNumbers α] {filter : Filter α} (hfilter : filter.Legible)
    (hinputs : ∀ l ∈ inputs, l.Legible) (h : filter.compile inputs = .ok stage) :
    (∀ op ∈ stage.ops, op.Legible) ∧ ∀ l ∈ stage.outputs, l.Legible := by
  obtain ⟨hlabels, houtputs⟩ := (assembled_of_compile filter h).legible hfilter.labelers hinputs
  refine ⟨fun op hop => ?_, houtputs⟩
  obtain ⟨htaken, hgiven⟩ := hlabels op hop
  obtain ⟨hbare, hne⟩ := expressions_of_compile filter hfilter.acts h op hop
  exact ⟨htaken, hbare, hne, hgiven⟩

end Filter

/-! ## Graphs -/

namespace Graph

/-- The operations of the graph can be read back, and so can the names of the streams that it counts
as given. -/
structure Legible (g : Graph) : Prop where
  ops : ∀ op ∈ g.ops, op.Legible
  produced : ∀ l ∈ g.produced, l.Legible

variable {g : Graph} {filter : Filter α} {inputs : List Label}

theorem legible_nil : Legible {} := ⟨List.forall_mem_nil _, List.forall_mem_nil _⟩

theorem Legible.record (h : g.Legible) {ops : List Operation} (hops : ∀ op ∈ ops, op.Legible) :
    (g.record ops).Legible := by
  refine ⟨List.forall_mem_append.mpr ⟨h.ops, hops⟩, List.forall_mem_append.mpr ⟨?_, h.produced⟩⟩
  intro l hl
  obtain ⟨op, hop, hl⟩ := List.mem_flatMap.mp (List.mem_reverse.mp hl)
  exact (hops op hop).outputs l hl

theorem Legible.labeler (h : g.Legible) {stem : String} (hstem : Bare stem) :
    Build.Ends (labeler stem) g True fun labels g' => Bare labels.stem ∧ g'.Legible := by
  have hrun : (liftM (Graph.labeler stem) : Build Labeler).run g =
      (.ok ⟨stem ++ Decimal.natText g.stages⟩, { g with stages := g.stages + 1 }) := rfl
  exact Build.ends_of_run hrun ⟨bare_append.mpr ⟨hstem, bare_natText _⟩, h.ops, h.produced⟩

/-- Streams that are taken were given before, unless they are inputs. -/
theorem Legible.of_taken (h : g.Legible) {op : Operation} {rest : List Operation} {g' : Graph}
    (hrun : (pushAll (op :: rest)).run g = (.ok (), g'))
    (hinputs : ∀ l ∈ op.inputs, l.isInput = true → l.Legible) : ∀ l ∈ op.inputs, l.Legible := by
  intro l hl
  by_cases hinput : l.isInput = true
  · exact hinputs l hl hinput
  · rw [run_pushAll_cons] at hrun
    rcases hop : (push op).run g with ⟨e | _, g₁⟩ <;> rw [hop] at hrun
    · cases hrun
    · obtain ⟨-, -, ⟨-, htakes⟩, -, -⟩ := push_eq_ok_iff.mp hop
      exact h.produced l (htakes l (mem_inner.mpr ⟨hl, by simpa using hinput⟩)).1

/-- A filter that is added compiles, and the graph takes its operations. -/
theorem ends_appendTo (filter : Filter α) (inputs : List Label) (g : Graph) :
    (filter.appendTo inputs).Ends g True fun outs g' => ∃ stage,
      filter.compile inputs = .ok stage ∧ (pushAll stage.ops).run g = (.ok (), g') ∧
        outs = stage.outputs := by
  unfold Filter.appendTo
  cases hcompile : filter.compile inputs with
  | error e => trivial
  | ok stage =>
      refine Build.ends_bind_of_run rfl ?_
      unfold Build.Ends
      rw [run_append]
      rcases hrun : (pushAll stage.ops).run g with ⟨e | _, g'⟩
      · trivial
      · exact ⟨stage, rfl, hrun, rfl⟩

/-- A filter adds what can be read, at the end of what there is. -/
theorem Legible.appendTo [BareNumbers α] (h : g.Legible) (hfilter : filter.Legible)
    (hinputs : ∀ l ∈ inputs, l.Legible) :
    (filter.appendTo inputs).Ends g True fun outs g' => ∃ stage,
      filter.compile inputs = .ok stage ∧ g'.ops = g.ops ++ stage.ops ∧
        (∀ l ∈ outs, l.Legible) ∧ g'.Legible := by
  refine (ends_appendTo filter inputs g).mono ?_
  rintro _ g' ⟨stage, hcompile, hrun, rfl⟩
  obtain ⟨hops, houtputs⟩ := hfilter.of_compile hinputs hcompile
  obtain rfl := eq_record_of_pushAll hrun
  exact ⟨stage, hcompile, rfl, houtputs, h.record hops⟩

/-- A filter with a labeler of its own adds what can be read. -/
theorem Legible.appendNamed [BareNumbers α] (h : g.Legible) {stem : String} (hstem : Bare stem)
    {filter : Labeler → Filter α} (hlabelers : ∀ labels, (filter labels).labelers = [labels])
    (hacts : ∀ labels, (filter labels).Acts) (hinputs : ∀ l ∈ inputs, l.Legible) :
    Build.Ends (do
      let labels ← Graph.labeler stem
      (filter labels).appendTo inputs) g True fun outs g' =>
        (∀ l ∈ outs, l.Legible) ∧ g'.Legible := by
  refine (h.labeler hstem).bind fun labels g₁ ⟨hlabels, h₁⟩ => ?_
  have hfilter := Filter.legible_of_labelers_eq (hlabelers labels) hlabels (hacts labels)
  exact (h₁.appendTo hfilter hinputs).mono fun _ _ ⟨_, _, _, h'⟩ => h'

end Graph

end Slideshow
