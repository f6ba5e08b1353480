import Slideshow.Filter.Graph
import Mathlib.Data.Nat.Notation

/-! # Labels

A labeler names its streams by letters and a number of its own, and no two streams alike. The number
can be read off a label again, so labelers with different numbers never give the same label. -/

namespace Slideshow

/-! ## Numbers -/

namespace Decimal

@[simp]
theorem toList_natText (n : ℕ) : (natText n).toList = Nat.toDigits 10 n := by
  simp [natText]

theorem toDigits_inj {m n : ℕ} (h : Nat.toDigits 10 m = Nat.toDigits 10 n) : m = n := by
  rw [← Nat.ofDigitChars_ten_toDigits (n := m), h, Nat.ofDigitChars_ten_toDigits]

theorem toDigits_inj_iff {m n : ℕ} : Nat.toDigits 10 m = Nat.toDigits 10 n ↔ m = n :=
  ⟨toDigits_inj, fun h => h ▸ rfl⟩

theorem isDigit_of_mem_toDigits {n : ℕ} {c : Char} (h : c ∈ Nat.toDigits 10 n) :
    c.isDigit = true :=
  Nat.isDigit_of_mem_toDigits (by decide) (by decide) h

theorem not_mem_toDigits {n : ℕ} {c : Char} (h : c.isDigit = false) :
    c ∉ Nat.toDigits 10 n := by
  intro hc
  rw [isDigit_of_mem_toDigits hc] at h
  cases h

end Decimal

/-! ## Inputs -/

namespace Label

theorem isInput_video (i : ℕ) : (video i).isInput = true := by
  simp [isInput, video]

theorem isInput_audio (i : ℕ) : (audio i).isInput = true := by
  simp [isInput, audio]

theorem video_inj {i j : ℕ} (h : video i = video j) : i = j := by
  have hname := congrArg (fun l : Label => l.name.toList) h
  simp only [video, String.toList_append, Decimal.toList_natText, List.append_cancel_right_eq]
    at hname
  exact Decimal.toDigits_inj hname

theorem audio_inj {i j : ℕ} (h : audio i = audio j) : i = j := by
  have hname := congrArg (fun l : Label => l.name.toList) h
  simp only [audio, String.toList_append, Decimal.toList_natText, List.append_cancel_right_eq]
    at hname
  exact Decimal.toDigits_inj hname

theorem video_ne_audio (i j : ℕ) : video i ≠ audio j := by
  intro h
  have hlast := congrArg (fun l : Label => l.name.toList.getLast?) h
  simp [video, audio] at hlast

/-- The first digits of a label. -/
def number (l : Label) : List Char :=
  (l.name.toList.dropWhile fun c => !c.isDigit).takeWhile Char.isDigit

end Label

/-! ## Labels of one labeler -/

namespace Labeler

/-- A stem of letters and a number. -/
def Named (l : Labeler) (k : ℕ) : Prop :=
  ∃ letters : String, l.stem = letters ++ Decimal.natText k ∧
    ∀ c ∈ letters.toList, c.isDigit = false ∧ c ≠ ':'

/-- A letter is neither a digit nor a colon. -/
theorem undigited_of_isAlpha {c : Char} (h : c.isAlpha = true) : c.isDigit = false ∧ c ≠ ':' := by
  constructor
  · refine Bool.eq_false_iff.mpr fun hdigit => ?_
    have hcode : 48 ≤ c.toNat ∧ c.toNat ≤ 57 := Char.isDigit_iff_toNat.mp hdigit
    rcases Bool.or_eq_true_iff.mp h with hupper | hlower
    · have hcode' : 65 ≤ c.toNat ∧ c.toNat ≤ 90 := of_decide_eq_true hupper
      omega
    · obtain ⟨hlow, hhigh⟩ := Bool.and_eq_true_iff.mp hlower
      have hcode' : 97 ≤ c.toNat ∧ c.toNat ≤ 122 :=
        ⟨of_decide_eq_true hlow, of_decide_eq_true hhigh⟩
      omega
  · rintro rfl
    cases h

theorem named_of_isAlpha {stem : String} (h : ∀ c ∈ stem.toList, c.isAlpha = true) (k : ℕ) :
    (⟨stem ++ Decimal.natText k⟩ : Labeler).Named k :=
  ⟨stem, rfl, fun c hc => undigited_of_isAlpha (h c hc)⟩

variable {l : Labeler} {k i j : ℕ}

theorem label_inj (h : l.label i = l.label j) : i = j := by
  have hname := congrArg (fun l : Label => l.name.toList) h
  by_cases hi : i = 0 <;> by_cases hj : j = 0 <;>
    simp only [label, hi, hj, if_true, if_false, String.toList_append, Decimal.toList_natText,
      List.append_assoc, List.append_cancel_left_eq] at hname
  · omega
  · simp at hname
  · simp at hname
  · exact Decimal.toDigits_inj hname

/-- What follows the stem is no digit. -/
theorem exists_name (l : Labeler) (i : ℕ) : ∃ rest : List Char,
    (l.label i).name.toList = l.stem.toList ++ rest ∧ ':' ∉ rest ∧
      rest.head?.all (fun c => !c.isDigit) = true := by
  by_cases hi : i = 0
  · exact ⟨[], by simp [label, hi], by simp, rfl⟩
  · refine ⟨'_' :: Nat.toDigits 10 i, by simp [label, hi], ?_, rfl⟩
    simp [Decimal.not_mem_toDigits (c := ':') rfl]

theorem Named.isInput_label (h : l.Named k) (i : ℕ) : (l.label i).isInput = false := by
  obtain ⟨letters, hstem, hletters⟩ := h
  obtain ⟨rest, hname, hrest, -⟩ := l.exists_name i
  have hcolon : ':' ∉ letters.toList := fun hc => (hletters _ hc).2 rfl
  simp [Label.isInput, hname, hstem, hcolon, hrest, Decimal.not_mem_toDigits (c := ':') rfl]

theorem Named.number_label (h : l.Named k) (i : ℕ) :
    (l.label i).number = Nat.toDigits 10 k := by
  obtain ⟨letters, hstem, hletters⟩ := h
  obtain ⟨rest, hname, -, hrest⟩ := l.exists_name i
  have hdigits : ∀ c ∈ Nat.toDigits 10 k, c.isDigit = true :=
    fun c hc => Decimal.isDigit_of_mem_toDigits hc
  have hdrop : (l.label i).name.toList.dropWhile (fun c => !c.isDigit) =
      Nat.toDigits 10 k ++ rest := by
    rw [hname, hstem, String.toList_append, Decimal.toList_natText, List.append_assoc,
      List.dropWhile_append_of_pos (fun c hc => by simp [(hletters c hc).1])]
    cases hk : Nat.toDigits 10 k with
    | nil => exact (Nat.toDigits_ne_nil hk).elim
    | cons c cs =>
        have hc : c.isDigit = true := hdigits c (hk ▸ List.mem_cons_self)
        simp [hc]
  have htake : rest.takeWhile Char.isDigit = [] := by
    cases rest with
    | nil => rfl
    | cons c cs =>
        have hc : c.isDigit = false := by simpa using hrest
        simp [hc]
  rw [Label.number, hdrop, List.takeWhile_append_of_pos hdigits, htake, List.append_nil]

/-- Labelers with different numbers give different labels. -/
theorem Named.label_ne {l' : Labeler} {k' : ℕ} (h : l.Named k) (h' : l'.Named k') (hk : k ≠ k') :
    l.label i ≠ l'.label j := by
  intro heq
  have hnumber := congrArg Label.number heq
  rw [h.number_label, h'.number_label] at hnumber
  exact hk (Decimal.toDigits_inj hnumber)

end Labeler

end Slideshow
