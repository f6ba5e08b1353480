import Slideshow.Proofs.Filter.Refusal

/-! # Labelers of one graph

A graph numbers the labelers that it hands out, whatever else is asked of it in between and whether
that is refused or not. The number can be read off every label of a labeler, so a label tells which
labeler gave it, and at which position. -/

namespace Slideshow.Graph

/-! ## The number of labelers -/

/-- Operations do not change how many labelers were handed out. -/
theorem stages_leaves (call : Call) (g : Graph) : (call.leaves g).stages = g.stages := by
  rw [call.leaves_eq]
  refine keeps_pushAll (motive := fun g' => g'.stages = g.stages) (fun hrun h => ?_)
    (fun r hr h => ?_) rfl
  · obtain ⟨-, -, -, -, rfl⟩ := push_eq_ok_iff.mp hrun
    exact h
  · obtain ⟨given, taken, hafter⟩ := Refusal.exists_after_eq (refused_of_mem_refusalOf hr)
    rw [hafter]
    exact h

/-! ## What is asked of a graph -/

/-- What can be asked of a graph. -/
inductive Request where
  /-- A labeler with a stem. -/
  | labeler (stem : String)
  /-- Operations, which may be refused. -/
  | add (call : Call)

/-- The labelers that a graph hands out in the course of some requests, in order. -/
def handed : List Request → Graph → List Labeler
  | [], _ => []
  | .labeler stem :: rest, g => (labeler stem g).1 :: handed rest (labeler stem g).2
  | .add call :: rest, g => handed rest (call.leaves g)

/-- The stems that are asked for have no digits and no colon. -/
def Lettered (requests : List Request) : Prop :=
  ∀ stem, .labeler stem ∈ requests → ∀ c ∈ stem.toList, c.isDigit = false ∧ c ≠ ':'

theorem lettered_of_isAlpha {requests : List Request}
    (h : ∀ stem, .labeler stem ∈ requests → ∀ c ∈ stem.toList, c.isAlpha = true) :
    Lettered requests :=
  fun stem hstem c hc => Labeler.undigited_of_isAlpha (h stem hstem c hc)

section Handed

variable {requests : List Request} {g : Graph} {labels labels' : Labeler}

theorem named_of_handed (hstems : Lettered requests) {a : ℕ}
    (h : (handed requests g)[a]? = some labels) : labels.Named (g.stages + a) := by
  induction requests generalizing g a with
  | nil => cases h
  | cons request rest ih =>
      have hrest : Lettered rest := fun stem hstem => hstems stem (List.mem_cons_of_mem _ hstem)
      cases request with
      | labeler stem =>
          cases a with
          | zero =>
              cases h
              exact ⟨stem, rfl, hstems stem List.mem_cons_self⟩
          | succ a =>
              have hlater : labels.Named ((labeler stem g).2.stages + a) := ih hrest h
              rw [Nat.add_comm a, ← Nat.add_assoc]
              exact hlater
      | add call =>
          rw [← stages_leaves call g]
          exact ih hrest h

/-- Labels of two labelers that a graph has handed out are equal only if they are the same label of
the same labeler, and no such label belongs to an input. -/
theorem label_handed_eq_iff (hstems : Lettered requests) (g : Graph) {a b : ℕ}
    (ha : (handed requests g)[a]? = some labels) (hb : (handed requests g)[b]? = some labels')
    (i j : ℕ) : (labels.label i = labels'.label j ↔ a = b ∧ i = j) ∧
      (labels.label i).isInput = false := by
  have hnamed := named_of_handed hstems ha
  refine ⟨⟨fun heq => ?_, ?_⟩, hnamed.isInput_label i⟩
  · have hab : a = b := by
      by_contra hne
      exact hnamed.label_ne (named_of_handed hstems hb) (by omega) heq
    subst hab
    obtain rfl : labels = labels' := Option.some.inj (ha.symm.trans hb)
    exact ⟨rfl, Labeler.label_inj heq⟩
  · rintro ⟨rfl, rfl⟩
    obtain rfl : labels = labels' := Option.some.inj (ha.symm.trans hb)
    rfl

end Handed

/-- The same stem is asked for twice, with an operation that is refused in between, and then no stem
at all. -/
def repeatedStem : List Request :=
  [.labeler "seg", .add (.push ⟨[⟨"seg0"⟩], "null", [⟨"seg0"⟩]⟩), .labeler "seg", .labeler ""]

/-- Two labelers of one stem share no label, and the second shares none with the labeler that has no
stem. -/
theorem label_handed_eq_iff_repeatedStem : Lettered repeatedStem ∧
    handed repeatedStem {} = [⟨"seg0"⟩, ⟨"seg1"⟩, ⟨"2"⟩] ∧
    ∀ i j, (⟨"seg0"⟩ : Labeler).label i ≠ (⟨"seg1"⟩ : Labeler).label j ∧
      (⟨"seg1"⟩ : Labeler).label i ≠ (⟨"2"⟩ : Labeler).label j := by
  have hlettered : Lettered repeatedStem := lettered_of_isAlpha (by simp [repeatedStem])
  refine ⟨hlettered, rfl, fun i j => ⟨fun heq => ?_, fun heq => ?_⟩⟩
  · have hsame := (label_handed_eq_iff hlettered {} (a := 0) (b := 1) rfl rfl i j).1.mp heq
    exact absurd hsame.1 (by decide)
  · have hsame := (label_handed_eq_iff hlettered {} (a := 1) (b := 2) rfl rfl i j).1.mp heq
    exact absurd hsame.1 (by decide)

/-- The digits of a stem would run into the number of the labeler. -/
example : (⟨"x1" ++ Decimal.natText 0⟩ : Labeler).label 3 =
    (⟨"x" ++ Decimal.natText 10⟩ : Labeler).label 3 := by decide

end Slideshow.Graph
