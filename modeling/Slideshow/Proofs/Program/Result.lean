import Mathlib.Data.List.Basic

/-! # Results of computations that may fail

A computation of several steps succeeds exactly if each of its steps does. -/

namespace Slideshow

variable {α β ε : Type}

theorem ok_of_bind {x : Except ε α} {f : α → Except ε β} {b : β} (h : x >>= f = .ok b) :
    ∃ a, x = .ok a ∧ f a = .ok b := by
  cases x with
  | error e => cases h
  | ok a => exact ⟨a, rfl, h⟩

variable {f : α → Except ε β} {xs : List α}

theorem mapM_eq_ok {y : α → β} (h : ∀ x ∈ xs, f x = .ok (y x)) : xs.mapM f = .ok (xs.map y) := by
  induction xs with
  | nil => rfl
  | cons x xs ih =>
      rw [List.mapM_cons, h x List.mem_cons_self,
        ih fun x' hx' => h x' (List.mem_cons_of_mem _ hx')]
      rfl

theorem exists_mapM_eq_error {x : α} {e : ε} (hx : x ∈ xs) (h : f x = .error e) :
    ∃ e', xs.mapM f = .error e' := by
  induction xs with
  | nil => cases hx
  | cons x' xs ih =>
      rw [List.mapM_cons]
      cases hx' : f x' with
      | error e' => exact ⟨e', rfl⟩
      | ok y =>
          rcases List.mem_cons.mp hx with rfl | hx
          · cases h.symm.trans hx'
          · obtain ⟨e', he'⟩ := ih hx
            exact ⟨e', by rw [he']; rfl⟩

/-- Every result is that of some entry. -/
theorem exists_of_mem_mapM {ys : List β} (h : xs.mapM f = .ok ys) {y : β} (hy : y ∈ ys) :
    ∃ x ∈ xs, f x = .ok y := by
  induction xs generalizing ys with
  | nil =>
      cases h
      cases hy
  | cons x xs ih =>
      rw [List.mapM_cons] at h
      obtain ⟨y', hy', h⟩ := ok_of_bind h
      obtain ⟨ys', hys', h⟩ := ok_of_bind h
      cases h
      rcases List.mem_cons.mp hy with rfl | hy
      · exact ⟨x, List.mem_cons_self, hy'⟩
      · obtain ⟨x', hx', hf⟩ := ih hys' hy
        exact ⟨x', List.mem_cons_of_mem _ hx', hf⟩

/-- Results that are all there are given in order; otherwise the first error is. -/
theorem mapM_id_cases (rs : List (Except ε α)) :
    (∃ as : List α, rs.mapM id = .ok as ∧ rs = as.map .ok) ∨
      ∃ (as : List α) (e : ε) (rest : List (Except ε α)), rs.mapM id = .error e ∧
        rs = as.map .ok ++ .error e :: rest := by
  induction rs with
  | nil => exact .inl ⟨[], rfl, rfl⟩
  | cons r rs ih =>
      rw [List.mapM_cons]
      cases r with
      | error e => exact .inr ⟨[], e, rs, rfl, rfl⟩
      | ok a =>
          rcases ih with ⟨as, hmap, hrs⟩ | ⟨as, e, rest, hmap, hrs⟩
          · exact .inl ⟨a :: as, by rw [hmap]; rfl, congrArg _ hrs⟩
          · exact .inr ⟨a :: as, e, rest, by rw [hmap]; rfl, congrArg _ hrs⟩

end Slideshow
