import Slideshow.Proofs.Scene.Timeline
import Slideshow.Proofs.Filter.Mention
import Slideshow.Proofs.Filter.Reading

/-! # Scenes that can be printed

A scene is made of times that are measured more finely than they are printed. `SceneSpec.Printable`
says which of them have to be told apart in print, so that what the scene is made with can be used;
for exact numbers, `SceneSpec.Resolved` says how far apart they have to be. -/

namespace Slideshow

open Decimal Reading

/-! ## Pictures -/

/-- All that a picture is made with can be used. -/
def Picture.Survives (p : Picture) : Prop := ∀ t, p.Mentions t → Reading.Survives t

namespace Picture

theorem survives_input (l : Label) : (input l).Survives :=
  fun _ h => (not_mentions_input h).elim

theorem survives_made {expression : String} {ps : List Picture} :
    (made expression ps).Survives ↔ Reading.Survives expression ∧ ∀ p ∈ ps, p.Survives := by
  simp only [Survives, mentions_made]
  constructor
  · intro h
    exact ⟨h _ (.inl rfl), fun p hp t ht => h t (.inr ⟨p, hp, ht⟩)⟩
  · rintro ⟨hexpression, hps⟩ t (rfl | ⟨p, hp, ht⟩)
    · exact hexpression
    · exact hps p hp t ht

theorem survives_joined {ps : List Picture} : (joined ps).Survives ↔ ∀ p ∈ ps, p.Survives :=
  survives_made.trans (and_iff_right (survives_concat ps.length))

end Picture

/-! ## Times in print -/

section Print

variable {α : Type} [Scalar α]

/-- A time that is printed as more than zero. -/
def Scalar.Lasts (x : α) : Prop := Positive (Scalar.filterText x).toList

instance (x : α) : Decidable (Scalar.Lasts x) := inferInstanceAs (Decidable (Positive _))

/-- A number that is printed as a finite decimal. -/
def Scalar.Prints (x : α) : Prop := Clean (Scalar.filterText x).toList

/-- The ends of a stretch are told apart in print. -/
def Window.Opens (w : Window α) : Prop :=
  Before (Scalar.filterText w.start).toList (Scalar.filterText w.stop).toList

/-- The numbers of a zoom are printed as finite decimals. -/
def PanZoom.Prints (z : PanZoom α) : Prop := Scalar.Prints z.step ∧ Scalar.Prints z.maxZoom

open Scalar

/-- The times of a scene of `n` slides can be used as they are printed. -/
structure SceneSpec.Printable (s : SceneSpec α) (n : ℕ) : Prop where
  /-- The time for which a picture is given to the renderer. -/
  still : Positive (inputText s.sceneDuration).toList
  slide : Lasts s.sceneDuration
  zoom : s.kind.overlaps = false → s.kind.zooms = true → s.panZoom.Prints
  fade : ∀ zooms, s.kind = .fade zooms →
    Lasts s.transitionDuration ∧ Prints (s.sceneDuration - s.transitionDuration)
  wipe : s.kind.overlaps = true → 1 < n →
    Lasts s.transitionDuration ∧ (Scene.tailWindow s).Opens ∧ (Scene.leadWindow s).Opens
  body : s.kind.overlaps = true → ∀ i < n, ∀ w ∈ (SlideWindows.ofSlide s n i).body,
    w.Opens ∧ (s.kind = .slideWipePanZoom → s.panZoom.Prints ∧ Lasts w.length)

variable {s : SceneSpec α} {n i : ℕ} {d : ZoomDirection} {w : Window α}

/-- Of slides that are cut, the time of one is all that is printed. -/
theorem SceneSpec.printable_of_plain (hkind : s.kind = .plain)
    (hstill : Positive (inputText s.sceneDuration).toList) (hslide : Lasts s.sceneDuration) :
    s.Printable n where
  still := hstill
  slide := hslide
  zoom := fun _ hzooms => by
    rw [hkind] at hzooms
    cases hzooms
  fade := fun zooms hfade => by
    rw [hkind] at hfade
    cases hfade
  wipe := fun hoverlaps => by
    rw [hkind] at hoverlaps
    cases hoverlaps
  body := fun hoverlaps => by
    rw [hkind] at hoverlaps
    cases hoverlaps

namespace Scene

section Texts

variable (hplain : ∀ x : α, Plain (filterText x).toList)
include hplain

theorem usable_trimText (x : α) :
    Readable (SceneSpec.trimText x) ∧ (Reading.Survives (SceneSpec.trimText x) ↔ Lasts x) :=
  survives_trim (hplain x)

theorem usable_zoom (z : PanZoom α) (d : ZoomDirection) :
    Readable (z.text d) ∧ (Reading.Survives (z.text d) ↔ z.Prints) :=
  survives_panZoom z (hplain z.step) (hplain z.maxZoom) d

theorem usable_window (w : Window α) :
    Readable w.text ∧ (Reading.Survives w.text ↔ w.Opens) :=
  survives_window (hplain w.start) (hplain w.stop)

theorem usable_fadeTexts (s : SceneSpec α) : Usable s.fadeTexts (∀ zooms, s.kind = .fade zooms →
    Lasts s.transitionDuration ∧ Prints (s.sceneDuration - s.transitionDuration)) := by
  unfold SceneSpec.fadeTexts
  cases hkind : s.kind with
  | fade zooms =>
      have hfade := Usable.singleton (survives_fade (hplain s.transitionDuration)
        (hplain (s.sceneDuration - s.transitionDuration)))
      exact ⟨hfade.1, hfade.2.trans ⟨fun h _ _ => h, fun h => h zooms rfl⟩⟩
  | _ => exact ⟨Usable.nil.1, Usable.nil.2.trans (iff_of_true trivial nofun)⟩

theorem survives_plainSlide (s : SceneSpec α) (d : ZoomDirection) (i : ℕ) :
    (s.plainSlide d i).Survives ↔ (s.kind.zooms = true → s.panZoom.Prints) ∧
      Lasts s.sceneDuration ∧ ∀ zooms, s.kind = .fade zooms →
        Lasts s.transitionDuration ∧ Prints (s.sceneDuration - s.transitionDuration) := by
  have hzoom : Usable (if s.kind.zooms then [s.panZoom.text d] else [])
      (s.kind.zooms = true → s.panZoom.Prints) := by
    split
    · next hzooms =>
      have hpan := Usable.singleton (usable_zoom hplain s.panZoom d)
      exact ⟨hpan.1, hpan.2.trans ⟨fun h _ => h, fun h => h hzooms⟩⟩
    · next hzooms =>
      exact ⟨Usable.nil.1, Usable.nil.2.trans (iff_of_true trivial fun h => (hzooms h).elim)⟩
  have hparts := ((((Usable.singleton (survives_scaleText s.width s.height)).append hzoom).append
    (.singleton (usable_trimText hplain s.sceneDuration))).append
      (usable_fadeTexts hplain s)).append (.singleton survives_normalize)
  rw [SceneSpec.plainSlide, Picture.survives_made, List.forall_mem_singleton,
    and_iff_left (Picture.survives_input _)]
  refine (hparts.survives_intercalate (by simp)).trans ?_
  simp only [true_and, and_true, and_assoc]

theorem survives_slide (s : SceneSpec α) (i : ℕ) :
    (s.slide i).Survives ↔ Lasts s.sceneDuration := by
  have hparts := Usable.cons (survives_scaleText s.width s.height)
    (.cons (usable_trimText hplain s.sceneDuration) (.singleton survives_normalize))
  rw [SceneSpec.slide, Picture.survives_made, List.forall_mem_singleton,
    and_iff_left (Picture.survives_input _)]
  refine (hparts.survives_intercalate (by simp)).trans ?_
  simp only [true_and, and_true]

theorem survives_stretch (s : SceneSpec α) (w : Window α) (i : ℕ) :
    (s.stretch w i).Survives ↔ w.Opens ∧ Lasts s.sceneDuration := by
  have hparts := Usable.cons (usable_window hplain w) (.singleton survives_normalize)
  rw [SceneSpec.stretch, Picture.survives_made, List.forall_mem_singleton,
    survives_slide hplain]
  refine and_congr_left fun _ => (hparts.survives_intercalate (by simp)).trans ?_
  simp only [and_true]

theorem survives_zoomedStretch (s : SceneSpec α) (w : Window α) (d : ZoomDirection) (i : ℕ) :
    (s.zoomedStretch w d i).Survives ↔
      (w.Opens ∧ s.panZoom.Prints ∧ Lasts w.length) ∧ Lasts s.sceneDuration := by
  have hparts := Usable.cons (usable_window hplain w) (.cons survives_normalize
    (.cons (usable_zoom hplain s.panZoom d) (.cons (usable_trimText hplain w.length)
      (.singleton survives_normalize))))
  rw [SceneSpec.zoomedStretch, Picture.survives_made, List.forall_mem_singleton,
    survives_slide hplain]
  refine and_congr_left fun _ => (hparts.survives_intercalate (by simp)).trans ?_
  simp only [true_and, and_true]

/-- The picture of a body. -/
theorem survives_bodyPicture (h : s.zoom.pick i = .ok d) (w : Window α) :
    (cutPicture (bodyZoom s) i (slidePicture (wipeSceneParts s) i) w).Survives ↔
      (w.Opens ∧ (s.kind = .slideWipePanZoom → s.panZoom.Prints ∧ Lasts w.length)) ∧
        Lasts s.sceneDuration := by
  rw [slidePicture_wipe]
  by_cases hkind : s.kind = .slideWipePanZoom
  · rw [bodyZoom, if_pos hkind, cutPicture_some w h, survives_zoomedStretch hplain]
    simp only [hkind, forall_const]
  · rw [bodyZoom, if_neg hkind, cutPicture_none, survives_stretch hplain]
    simp only [hkind, false_imp_iff, and_true]

/-- The picture of a transition. -/
theorem survives_wipePicture (s : SceneSpec α) (i : ℕ) :
    (wipePicture s i (cutPicture none i (slidePicture (wipeSceneParts s) i) (tailWindow s))
      (cutPicture none (i + 1) (slidePicture (wipeSceneParts s) (i + 1)) (leadWindow s))).Survives ↔
      (Lasts s.transitionDuration ∧ (tailWindow s).Opens ∧ (leadWindow s).Opens) ∧
        Lasts s.sceneDuration := by
  rw [slidePicture_wipe, slidePicture_wipe, cutPicture_none, cutPicture_none, wipePicture,
    Picture.survives_made, List.forall_mem_cons, List.forall_mem_singleton,
    survives_stretch hplain, survives_stretch hplain]
  rw [(survives_overlay (hplain s.transitionDuration) _).2]
  exact ⟨fun ⟨hlasts, ⟨htail, hslide⟩, hlead, _⟩ => ⟨⟨hlasts, htail, hlead⟩, hslide⟩,
    fun ⟨⟨hlasts, htail, hlead⟩, hslide⟩ => ⟨hlasts, ⟨htail, hslide⟩, hlead, hslide⟩⟩

/-- What is shown where slides overlap: the bodies, and transitions between them. -/
theorem survives_wipeTimeline (hzoom : ∀ i, ∃ d, s.zoom.pick i = .ok d) (k : ℕ) :
    (∀ p ∈ wipeTimeline s (k + 1), p.Survives) ↔
      (∀ i < k + 1, ∀ w ∈ (SlideWindows.ofSlide s (k + 1) i).body,
        (w.Opens ∧ (s.kind = .slideWipePanZoom → s.panZoom.Prints ∧ Lasts w.length)) ∧
          Lasts s.sceneDuration) ∧
      ∀ i < k, (Lasts s.transitionDuration ∧ (tailWindow s).Opens ∧ (leadWindow s).Opens) ∧
        Lasts s.sceneDuration := by
  have hbody : ∀ i, (∀ p ∈ ((SlideWindows.ofSlide s (k + 1) i).body.map
      (cutPicture (bodyZoom s) i (slidePicture (wipeSceneParts s) i))).toList, p.Survives) ↔
      ∀ w ∈ (SlideWindows.ofSlide s (k + 1) i).body,
        (w.Opens ∧ (s.kind = .slideWipePanZoom → s.panZoom.Prints ∧ Lasts w.length)) ∧
          Lasts s.sceneDuration := by
    intro i
    obtain ⟨d, hd⟩ := hzoom i
    cases (SlideWindows.ofSlide s (k + 1) i).body with
    | none => exact iff_of_true nofun nofun
    | some w => simp [survives_bodyPicture hplain hd]
  rw [wipeTimeline_succ, List.forall_mem_append, hbody]
  simp only [List.forall_mem_flatMap, List.mem_range, List.forall_mem_cons,
    survives_wipePicture hplain, hbody]
  constructor
  · rintro ⟨hfirst, hrest⟩
    refine ⟨fun i hi => ?_, fun i hi => (hrest i hi).1⟩
    cases i with
    | zero => exact hfirst
    | succ i => exact (hrest i (by omega)).2
  · rintro ⟨hbodies, hwipes⟩
    exact ⟨hbodies 0 (by omega), fun i hi => ⟨hwipes i hi, hbodies (i + 1) (by omega)⟩⟩

/-- What is shown where slides do not overlap: one slide after another. -/
theorem survives_cutTimeline (hzoom : ∀ i, ∃ d, s.zoom.pick i = .ok d) (hn : 0 < n) :
    (∀ i < n, (slidePicture (cutSceneParts s) i).Survives) ↔
      (s.kind.zooms = true → s.panZoom.Prints) ∧ Lasts s.sceneDuration ∧
        ∀ zooms, s.kind = .fade zooms →
          Lasts s.transitionDuration ∧ Prints (s.sceneDuration - s.transitionDuration) := by
  have hslide : ∀ i, (slidePicture (cutSceneParts s) i).Survives ↔ _ := fun i => by
    obtain ⟨d, hd⟩ := hzoom i
    rw [slidePicture_cut fun _ => hd]
    exact survives_plainSlide hplain s d i
  simp only [hslide]
  exact ⟨fun h => h 0 hn, fun h _ _ => h⟩

theorem printable_iff_of_cut (hn : 0 < n) (hcut : s.kind.overlaps = false)
    (hzoom : ∀ i, ∃ d, s.zoom.pick i = .ok d) :
    s.Printable n ↔
      Positive (inputText s.sceneDuration).toList ∧ ∀ p ∈ timeline s n, p.Survives := by
  have hoverlaps : ¬ s.kind.overlaps = true := by simp [hcut]
  simp only [timeline, if_neg hoverlaps, List.forall_mem_map, List.mem_range,
    survives_cutTimeline hplain hzoom hn]
  constructor
  · exact fun h => ⟨h.still, h.zoom hcut, h.slide, h.fade⟩
  · rintro ⟨hstill, hzooms, hslide, hfade⟩
    exact ⟨hstill, hslide, fun _ => hzooms, hfade, fun h => (hoverlaps h).elim,
      fun h => (hoverlaps h).elim⟩

theorem printable_iff_of_overlaps (hn : 0 < n) (hoverlaps : s.kind.overlaps = true)
    (hlong : Scalar.less (Scalar.ofNat 0) s.sceneDuration = true)
    (hzoom : ∀ i, ∃ d, s.zoom.pick i = .ok d) :
    s.Printable n ↔
      Positive (inputText s.sceneDuration).toList ∧ ∀ p ∈ timeline s n, p.Survives := by
  obtain ⟨k, rfl⟩ := Nat.exists_eq_succ_of_ne_zero (Nat.ne_of_gt hn)
  have hnofade : ∀ zooms, s.kind ≠ .fade zooms := by
    intro zooms hkind
    rw [hkind] at hoverlaps
    cases hoverlaps
  rw [timeline, if_pos hoverlaps, survives_wipeTimeline hplain hzoom]
  constructor
  · intro h
    refine ⟨h.still, fun i hi w hw => ⟨h.body hoverlaps i hi w hw, h.slide⟩, fun i hi => ?_⟩
    exact ⟨h.wipe hoverlaps (by omega), h.slide⟩
  · rintro ⟨hstill, hbodies, hwipes⟩
    -- one slide is all body, and of several there is a transition
    have hslide : Lasts s.sceneDuration := by
      cases k with
      | zero =>
          have hbody : (SlideWindows.ofSlide s 1 0).body =
              some ⟨Scalar.ofNat 0, s.sceneDuration⟩ := by
            simp [SlideWindows.ofSlide, hlong]
          exact (hbodies 0 (by omega) _ hbody).2
      | succ k => exact (hwipes 0 (by omega)).2
    exact {
      still := hstill
      slide := hslide
      zoom := fun hcut => by simp [hoverlaps] at hcut
      fade := fun zooms hkind => (hnofade zooms hkind).elim
      wipe := fun _ hmany => (hwipes 0 (by omega)).1
      body := fun _ i hi w hw => (hbodies i hi w hw).1 }

/-- A scene can be printed if what it shows can be used. -/
theorem printable_iff (hn : 0 < n)
    (hlong : s.kind.overlaps = true → Scalar.less (Scalar.ofNat 0) s.sceneDuration = true)
    (hzoom : ∀ i, ∃ d, s.zoom.pick i = .ok d) :
    s.Printable n ↔
      Positive (inputText s.sceneDuration).toList ∧ ∀ p ∈ timeline s n, p.Survives := by
  cases hoverlaps : s.kind.overlaps with
  | true => exact printable_iff_of_overlaps hplain hn hoverlaps (hlong hoverlaps) hzoom
  | false => exact printable_iff_of_cut hplain hn hoverlaps hzoom

end Texts

end Scene

end Print

/-! ## Exact times -/

section Exact

open Scalar

/-- The times of a scene of `n` slides are long enough, and far enough apart, to be told apart in
print: milliseconds where a picture is given to the renderer, and millionths in filters. -/
structure SceneSpec.Resolved (s : SceneSpec ℚ) (n : ℕ) : Prop where
  scene : 1 / 2000 < s.sceneDuration
  fade : ∀ zooms, s.kind = .fade zooms → 1 / 2000000 ≤ s.transitionDuration
  wipe : s.kind.overlaps = true → 1 < n → 1 / 2000000 ≤ s.transitionDuration ∧
    millionths (s.sceneDuration - s.transitionDuration) < millionths s.sceneDuration
  body : s.kind.overlaps = true → 2 < n →
    millionths s.transitionDuration < millionths (s.sceneDuration - s.transitionDuration)
  zoomed : s.kind = .slideWipePanZoom → 2 < n →
    1 / 2000000 ≤ s.sceneDuration - 2 * s.transitionDuration

variable {x y : ℚ} {w : Window ℚ} {s : SceneSpec ℚ} {n i : ℕ}

theorem millionths_zero : millionths 0 = 0 := by
  rw [millionths, Nat.floor_eq_zero]
  norm_num

theorem millionths_pos : 0 < millionths x ↔ 1 / 2000000 ≤ x := by
  rw [millionths, Nat.floor_pos]
  constructor <;> intro h <;> linarith

/-- Times that are a millionth apart are told apart. -/
theorem millionths_lt (hx : 0 ≤ x) (h : x + 1 / 1000000 ≤ y) : millionths x < millionths y := by
  have hfloor : millionths x + 1 ≤ millionths y := by
    rw [millionths, millionths, ← Nat.floor_add_one (by linarith)]
    exact Nat.floor_le_floor (by linarith)
  exact hfloor

theorem Scalar.lasts_iff (hx : 0 ≤ x) : Lasts x ↔ 1 / 2000000 ≤ x := positive_filterText hx

theorem Scalar.prints_of_nonneg (hx : 0 ≤ x) : Prints x :=
  clean_of_rational? (rational?_filterText hx)

theorem Window.opens_iff (hstart : 0 ≤ w.start) (hstop : 0 ≤ w.stop) :
    w.Opens ↔ millionths w.start < millionths w.stop := before_filterText hstart hstop

theorem PanZoom.prints_of_one_le {z : PanZoom ℚ} (h : 1 ≤ z.maxZoom) : z.Prints := by
  have hstep : (0 : ℚ) ≤ (z.maxZoom - 1) / z.spread :=
    div_nonneg (by linarith) (Nat.cast_nonneg z.spread)
  exact ⟨prints_of_nonneg hstep, prints_of_nonneg (by linarith)⟩

namespace SceneSpec

theorem mem_body_iff (hT : 0 ≤ s.transitionDuration)
    (hroom : 2 * s.transitionDuration < s.sceneDuration) (hi : i < n) :
    w ∈ (SlideWindows.ofSlide s n i).body ↔ ¬ s.Skips n i ∧ w = s.bodyWindow n i := by
  rw [ofSlide_body hT hroom hi]
  by_cases hskips : s.Skips n i
  · simp [hskips]
  · simp [hskips, eq_comm]

/-- The body of an inner slide begins and ends with a transition. -/
theorem bodyWindow_inner (hfirst : i ≠ 0) (hlast : i + 1 ≠ n) :
    s.bodyWindow n i = ⟨s.transitionDuration, s.sceneDuration - s.transitionDuration⟩ := by
  simp [bodyWindow, hfirst, hlast]

/-- The bodies of the first and the last slide are longer than half a scene. -/
theorem le_length_bodyWindow (hT : 0 ≤ s.transitionDuration) (h : i = 0 ∨ i + 1 = n) :
    s.sceneDuration - s.transitionDuration ≤
      (s.bodyWindow n i).stop - (s.bodyWindow n i).start := by
  have hzero : (Scalar.ofNat 0 : ℚ) = 0 := rfl
  simp only [bodyWindow, hzero]
  rcases h with h | h
  · rw [if_pos h]
    split <;> linarith
  · rw [if_pos h]
    split <;> linarith

theorem nonneg_start_bodyWindow (hT : 0 ≤ s.transitionDuration) :
    0 ≤ (s.bodyWindow n i).start := by
  simp only [bodyWindow]
  split
  · exact le_rfl
  · exact hT

section Bodies

variable (hT : 0 ≤ s.transitionDuration) (hroom : 2 * s.transitionDuration < s.sceneDuration)
include hT hroom

theorem opens_bodyWindow (hscene : 1 / 2000 < s.sceneDuration)
    (hbody : 2 < n → millionths s.transitionDuration <
      millionths (s.sceneDuration - s.transitionDuration)) (hi : i < n) :
    (s.bodyWindow n i).Opens := by
  have hstart := nonneg_start_bodyWindow hT (n := n) (i := i)
  have hstop := start_lt_stop_bodyWindow hT hroom n i
  rw [Window.opens_iff hstart (by linarith)]
  by_cases hinner : i ≠ 0 ∧ i + 1 ≠ n
  · rw [bodyWindow_inner hinner.1 hinner.2]
    exact hbody (by omega)
  · have hlong := le_length_bodyWindow hT (s := s) (show i = 0 ∨ i + 1 = n by omega)
    exact millionths_lt hstart (by linarith)

theorem lasts_bodyWindow (hscene : 1 / 2000 < s.sceneDuration)
    (hzoomed : 2 < n → 1 / 2000000 ≤ s.sceneDuration - 2 * s.transitionDuration) (hi : i < n) :
    Lasts (s.bodyWindow n i).length := by
  have hstop := start_lt_stop_bodyWindow hT hroom n i
  change Lasts ((s.bodyWindow n i).stop - (s.bodyWindow n i).start)
  rw [lasts_iff (by linarith)]
  by_cases hinner : i ≠ 0 ∧ i + 1 ≠ n
  · rw [bodyWindow_inner hinner.1 hinner.2]
    have := hzoomed (by omega)
    dsimp only
    linarith
  · have hlong := le_length_bodyWindow hT (s := s) (show i = 0 ∨ i + 1 = n by omega)
    linarith

end Bodies

theorem opens_tailWindow_iff (hS : 0 ≤ s.sceneDuration)
    (hrest : 0 ≤ s.sceneDuration - s.transitionDuration) : (Scene.tailWindow s).Opens ↔
      millionths (s.sceneDuration - s.transitionDuration) < millionths s.sceneDuration :=
  Window.opens_iff hrest hS

theorem opens_leadWindow_iff (hT : 0 ≤ s.transitionDuration) :
    (Scene.leadWindow s).Opens ↔ 1 / 2000000 ≤ s.transitionDuration := by
  have hzero : (Scalar.ofNat 0 : ℚ) = 0 := rfl
  rw [Window.opens_iff le_rfl hT, ← millionths_pos]
  change millionths 0 < _ ↔ _
  rw [millionths_zero]
  rfl

section Resolved

variable (hT : 0 ≤ s.transitionDuration) (hshorter : s.transitionDuration < s.sceneDuration)
  (hroom : s.kind.overlaps = true → 2 * s.transitionDuration < s.sceneDuration)
include hT hshorter hroom

theorem Printable.resolved (h : s.Printable n) : s.Resolved n := by
  have hS : 0 ≤ s.sceneDuration := by linarith
  have hrest : 0 ≤ s.sceneDuration - s.transitionDuration := by linarith
  have hinner : s.kind.overlaps = true → 2 < n →
      (⟨s.transitionDuration, s.sceneDuration - s.transitionDuration⟩ : Window ℚ) ∈
        (SlideWindows.ofSlide s n 1).body := by
    intro hoverlaps hmany
    rw [mem_body_iff hT (hroom hoverlaps) (by omega)]
    exact ⟨fun hskips => absurd hskips.2.1 one_ne_zero,
      (bodyWindow_inner one_ne_zero (by omega)).symm⟩
  constructor
  · exact (positive_inputText hS).mp h.still
  · exact fun zooms hkind => (lasts_iff hT).mp (h.fade zooms hkind).1
  · intro hoverlaps hmany
    obtain ⟨hlasts, hends, -⟩ := h.wipe hoverlaps hmany
    exact ⟨(lasts_iff hT).mp hlasts, (opens_tailWindow_iff hS hrest).mp hends⟩
  · intro hoverlaps hmany
    have hopens := (h.body hoverlaps 1 (by omega) _ (hinner hoverlaps hmany)).1
    exact (Window.opens_iff hT hrest).mp hopens
  · intro hkind hmany
    have hoverlaps : s.kind.overlaps = true := by rw [hkind]; rfl
    have hlasts := ((h.body hoverlaps 1 (by omega) _ (hinner hoverlaps hmany)).2 hkind).2
    have hlength : Lasts (s.sceneDuration - s.transitionDuration - s.transitionDuration) := hlasts
    rw [lasts_iff (by linarith [hroom hoverlaps])] at hlength
    linarith

theorem Resolved.printable (h : s.Resolved n) (hzoom : 1 ≤ s.maxZoom) : s.Printable n := by
  have hS : 0 ≤ s.sceneDuration := by linarith
  have hrest : 0 ≤ s.sceneDuration - s.transitionDuration := by linarith
  have hprints : s.panZoom.Prints := PanZoom.prints_of_one_le hzoom
  constructor
  · exact (positive_inputText hS).mpr h.scene
  · exact (lasts_iff hS).mpr (by linarith [h.scene])
  · exact fun _ _ => hprints
  · exact fun zooms hkind => ⟨(lasts_iff hT).mpr (h.fade zooms hkind), prints_of_nonneg hrest⟩
  · intro hoverlaps hmany
    obtain ⟨hlasts, hends⟩ := h.wipe hoverlaps hmany
    exact ⟨(lasts_iff hT).mpr hlasts, (opens_tailWindow_iff hS hrest).mpr hends,
      (opens_leadWindow_iff hT).mpr hlasts⟩
  · intro hoverlaps i hi w hw
    obtain ⟨-, rfl⟩ := (mem_body_iff hT (hroom hoverlaps) hi).mp hw
    exact ⟨opens_bodyWindow hT (hroom hoverlaps) h.scene (h.body hoverlaps) hi,
      fun hkind => ⟨hprints,
        lasts_bodyWindow hT (hroom hoverlaps) h.scene (h.zoomed hkind) hi⟩⟩

/-- Exact times can be used as they are printed if they are long enough and far enough apart. -/
theorem printable_iff_resolved (hzoom : 1 ≤ s.maxZoom) : s.Printable n ↔ s.Resolved n :=
  ⟨fun h => h.resolved hT hshorter hroom, fun h => h.printable hT hshorter hroom hzoom⟩

end Resolved

end SceneSpec

end Exact

end Slideshow
