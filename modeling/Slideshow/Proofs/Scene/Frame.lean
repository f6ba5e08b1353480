import Slideshow.Proofs.Scene.Timeline
import Mathlib.Data.Rat.Floor

/-! # The frame of a scene

Sides are rounded to even pixel counts, and rounding them again changes nothing: a size that was
resolved with a source frame is resolved to itself without one. All that a scene joins has the frame
of the scene. -/

namespace Slideshow

/-! ## Even pixel counts -/

namespace SceneOptions

section Sides

variable {α : Type} [Scalar α]

/-- A side of a frame: an even number of pixels, and at least two, that fits into a word. -/
structure Side.Valid (n : ℕ) : Prop where
  even : Even n
  two_le : 2 ≤ n
  lt : n < UInt32.size

theorem valid_evenCount (length : α) : Side.Valid (evenCount length) := by
  unfold evenCount
  generalize hcount : Scalar.nearestNat maxWord32 (length / Scalar.ofNat 2) * 2 % UInt32.size = k
  have heven : k % 2 = 0 := by
    rw [← hcount, Nat.mod_mod_of_dvd _ (by decide), Nat.mul_mod_left]
  have hlt : k < UInt32.size := hcount ▸ Nat.mod_lt _ (by decide)
  exact ⟨Nat.even_iff.mpr (by omega), le_max_left 2 k, max_lt (by decide) hlt⟩

/-- Both sides of a frame are even and at least two. -/
theorem valid_resolveSize (o : SceneOptions α) (source : Option (ℕ × ℕ)) :
    Side.Valid (o.resolveSize source).1 ∧ Side.Valid (o.resolveSize source).2 := by
  unfold resolveSize
  split
  · exact ⟨valid_evenCount _, valid_evenCount _⟩
  · exact ⟨valid_evenCount _, valid_evenCount _⟩
  · exact ⟨valid_evenCount _, valid_evenCount _⟩
  · exact ⟨⟨by decide, by decide, by decide⟩, ⟨by decide, by decide, by decide⟩⟩

end Sides

theorem nearestInt_natCast (n : ℕ) : nearestInt (n : ℚ) = n := by
  have hnonneg : ¬ (n : ℚ) < 0 := not_lt.mpr n.cast_nonneg
  rw [nearestInt, if_neg hnonneg]
  change ⌊(n : ℚ) + 1 / 2⌋ = n
  rw [Int.floor_natCast_add]
  norm_num

/-- An even count is left as it is. -/
theorem evenCount_of_valid {n : ℕ} (h : Side.Valid n) : evenCount (Scalar.ofNat n : ℚ) = n := by
  obtain ⟨k, rfl⟩ := even_iff_exists_two_mul.mp h.even
  have hhalf : (Scalar.ofNat (2 * k) : ℚ) / Scalar.ofNat 2 = (k : ℚ) := by
    change ((2 * k : ℕ) : ℚ) / ((2 : ℕ) : ℚ) = k
    push_cast
    exact mul_div_cancel_left₀ _ two_ne_zero
  have hk : Scalar.nearestNat maxWord32 (k : ℚ) = k := by
    change min maxWord32 (nearestInt (k : ℚ)).toNat = k
    rw [nearestInt_natCast, Int.toNat_natCast]
    have := h.lt
    exact min_eq_right (by unfold maxWord32; omega)
  rw [evenCount, hhalf, hk, Nat.mul_comm k 2, Nat.mod_eq_of_lt h.lt, max_eq_right h.two_le]

/-- Options that ask for a size that was resolved before get this size, whatever the source. -/
theorem resolveSize_of_eq_some {o : SceneOptions ℚ} {w h : ℕ} (hwidth : o.width = some w)
    (hheight : o.height = some h) (hw : Side.Valid w) (hh : Side.Valid h)
    (source : Option (ℕ × ℕ)) : o.resolveSize source = (w, h) := by
  rw [resolveSize, hwidth, hheight]
  exact Prod.ext (evenCount_of_valid hw) (evenCount_of_valid hh)

/-- Where both sides or none are asked for, the source does not matter. -/
theorem resolveSize_of_not_needsSourceSize {α : Type} [Scalar α] {o : SceneOptions α}
    (h : o.needsSourceSize = false) (source source' : Option (ℕ × ℕ)) :
    o.resolveSize source = o.resolveSize source' := by
  unfold resolveSize
  cases hwidth : o.width <;> cases hheight : o.height <;>
    simp [needsSourceSize, hwidth, hheight] at h ⊢

end SceneOptions

/-! ## What has a frame -/

/-- The text of a filter that gives pictures of a frame where it takes such pictures: one that cuts
or times them, fades them, or zooms in the frame. -/
inductive KeepsFrame {α : Type} [Scalar α] (size : ℕ × ℕ) : String → Prop where
  | trim (length : α) : KeepsFrame size (SceneSpec.trimText length)
  | window (w : Window α) : KeepsFrame size w.text
  | normalize : KeepsFrame size SceneSpec.normalizeText
  | fade (s : SceneSpec α) {text : String} (h : text ∈ s.fadeTexts) : KeepsFrame size text
  | panZoom (z : PanZoom α) (d : ZoomDirection) (hwidth : z.width = size.1)
    (hheight : z.height = size.2) : KeepsFrame size (z.text d)

/-- What is shown has this frame: it was fitted into the frame, or made of such pictures by filters
that keep it. What moves over a picture leaves it its frame. -/
inductive Picture.Framed (α : Type) [Scalar α] (size : ℕ × ℕ) : Picture → Prop where
  | scaled (p : Picture) {parts : List String} (h : ∀ t ∈ parts, KeepsFrame (α := α) size t) :
    Framed α size
      (.made (",".intercalate (Expression.scaleText size.1 size.2 :: parts)) [p])
  | kept {p : Picture} {parts : List String} (hp : Framed α size p)
    (h : ∀ t ∈ parts, KeepsFrame (α := α) size t) : Framed α size (.made (",".intercalate parts) [p])
  | overlaid {below above : Picture} (position : String) (hbelow : Framed α size below)
    (habove : Framed α size above) :
    Framed α size (.made ("overlay=" ++ position ++ ":shortest=1") [below, above])

namespace SceneSpec

variable {α : Type} [Scalar α] (s : SceneSpec α)

theorem framed_plainSlide (zoom : ZoomDirection) (i : ℕ) :
    (s.plainSlide zoom i).Framed α (s.width, s.height) := by
  rw [plainSlide, List.append_assoc, List.append_assoc, List.append_assoc, List.singleton_append]
  refine .scaled _ fun t ht => ?_
  simp only [List.mem_append, List.mem_singleton] at ht
  obtain hzoom | rfl | hfade | rfl := ht
  · split at hzoom
    · obtain rfl := List.mem_singleton.mp hzoom
      exact .panZoom s.panZoom zoom rfl rfl
    · cases hzoom
  · exact .trim s.sceneDuration
  · exact .fade s hfade
  · exact .normalize

theorem framed_slide (i : ℕ) : (s.slide i).Framed α (s.width, s.height) := by
  refine .scaled _ fun t ht => ?_
  obtain rfl | rfl : t = _ ∨ t = _ := by simpa using ht
  · exact .trim s.sceneDuration
  · exact .normalize

theorem framed_stretch (w : Window α) (i : ℕ) :
    (s.stretch w i).Framed α (s.width, s.height) := by
  refine .kept (s.framed_slide i) fun t ht => ?_
  obtain rfl | rfl : t = _ ∨ t = _ := by simpa using ht
  · exact .window w
  · exact .normalize

theorem framed_zoomedStretch (w : Window α) (zoom : ZoomDirection) (i : ℕ) :
    (s.zoomedStretch w zoom i).Framed α (s.width, s.height) := by
  refine .kept (s.framed_slide i) fun t ht => ?_
  obtain rfl | rfl | rfl | rfl | rfl : t = _ ∨ t = _ ∨ t = _ ∨ t = _ ∨ t = _ := by simpa using ht
  · exact .window w
  · exact .normalize
  · exact .panZoom s.panZoom zoom rfl rfl
  · exact .trim w.length
  · exact .normalize

theorem framed_body (n : ℕ) (zoom : ZoomDirection) (i : ℕ) :
    (s.body n zoom i).Framed α (s.width, s.height) := by
  unfold body
  split
  · exact s.framed_zoomedStretch _ zoom i
  · exact s.framed_stretch _ i

/-- All that a scene joins has the frame of the scene. -/
theorem framed_of_mem_timeline {n : ℕ} {zoom : ℕ → ZoomDirection} {wipe : ℕ → WipeDirection}
    {p : Picture} (hp : p ∈ s.timeline n zoom wipe) : p.Framed α (s.width, s.height) := by
  unfold timeline at hp
  split at hp
  · obtain hfirst | hnext := List.mem_append.mp hp
    · split at hfirst
      · cases hfirst
      · obtain rfl := List.mem_singleton.mp hfirst
        exact s.framed_body n _ 0
    · obtain ⟨i, -, hp⟩ := List.mem_flatMap.mp hnext
      obtain rfl | rfl : p = _ ∨ p = _ := by simpa using hp
      · exact .overlaid _ (s.framed_stretch _ i) (s.framed_stretch _ (i + 1))
      · exact s.framed_body n _ (i + 1)
  · obtain ⟨i, -, rfl⟩ := List.mem_map.mp hp
    exact s.framed_plainSlide _ i

theorem timeline_ne_nil {n : ℕ} (hn : 0 < n) (zoom : ℕ → ZoomDirection)
    (wipe : ℕ → WipeDirection) : s.timeline n zoom wipe ≠ [] := by
  unfold timeline
  split
  · by_cases hskips : s.Skips n 0
    · -- A body is left out only where another slide follows.
      simpa [hskips, List.flatMap_eq_nil_iff] using ⟨0, hskips.2.2⟩
    · simp [hskips]
  · simpa using Nat.ne_of_gt hn

end SceneSpec

end Slideshow
