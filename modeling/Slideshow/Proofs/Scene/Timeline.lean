import Slideshow.Proofs.Scene.Assemble
import Mathlib.Tactic.Linarith

/-! # The timeline of a scene

What the picture of a scene joins, in order, and which stretches of the slides it is made of. -/

namespace Slideshow

open Slideshow.Graph

/-! ## The specified timeline -/

section Spec

variable {α : Type} [Scalar α]

namespace Window

/-- The expression that cuts a stretch. -/
def text (w : Window α) : String :=
  "trim=start=" ++ Scalar.filterText w.start ++ ":end=" ++ Scalar.filterText w.stop

end Window

namespace SceneSpec

variable (s : SceneSpec α) (n : ℕ)

/-- Square pixels, and time that begins at zero. -/
def normalizeText : String := "setsar=1:1,setpts=PTS-STARTPTS"

def trimText (length : α) : String := "trim=duration=" ++ Scalar.filterText length

def fadeTexts : List String :=
  match s.kind with
  | .fade _ => ["fade=t=in:st=0:d=" ++ Scalar.filterText s.transitionDuration ++
      ",fade=t=out:st=" ++ Scalar.filterText (s.sceneDuration - s.transitionDuration) ++
      ":d=" ++ Scalar.filterText s.transitionDuration]
  | _ => []

/-- A slide where slides do not overlap: scaled to the frame, zoomed if asked for, and kept for the
time of a scene. -/
def plainSlide (zoom : ZoomDirection) (i : ℕ) : Picture :=
  .made (",".intercalate ([Expression.scaleText s.width s.height] ++
    (if s.kind.zooms then [s.panZoom.text zoom] else []) ++ [trimText s.sceneDuration] ++
    s.fadeTexts ++ [normalizeText])) [.input (.video i)]

/-- A slide where slides overlap. -/
def slide (i : ℕ) : Picture :=
  .made (",".intercalate [Expression.scaleText s.width s.height, trimText s.sceneDuration,
    normalizeText]) [.input (.video i)]

/-- A stretch of a slide. -/
def stretch (w : Window α) (i : ℕ) : Picture :=
  .made (",".intercalate [w.text, normalizeText]) [s.slide i]

/-- A stretch of a slide that is zoomed. -/
def zoomedStretch (w : Window α) (zoom : ZoomDirection) (i : ℕ) : Picture :=
  .made (",".intercalate [w.text, normalizeText, s.panZoom.text zoom, trimText w.length,
    normalizeText]) [s.slide i]

/-- The stretch of a slide over which no other one moves. -/
def bodyWindow (i : ℕ) : Window α where
  start := if i = 0 then Scalar.ofNat 0 else s.transitionDuration
  stop := if i + 1 = n then s.sceneDuration else s.sceneDuration - s.transitionDuration

/-- Whether the body of a slide was shown before and is left out. -/
def Skips (i : ℕ) : Prop := s.continuation = true ∧ i = 0 ∧ 1 < n

instance (i : ℕ) : Decidable (s.Skips n i) := inferInstanceAs (Decidable (_ ∧ _ ∧ _))

/-- The body of a slide. -/
def body (zoom : ZoomDirection) (i : ℕ) : Picture :=
  if s.kind = .slideWipePanZoom then s.zoomedStretch (s.bodyWindow n i) zoom i
  else s.stretch (s.bodyWindow n i) i

/-- The lead of the next slide moves over the tail of a slide. -/
def wiped (wipe : WipeDirection) (i : ℕ) : Picture :=
  .made ("overlay=" ++ Filter.position s.transitionDuration wipe ++ ":shortest=1")
    [s.stretch ⟨s.sceneDuration - s.transitionDuration, s.sceneDuration⟩ i,
      s.stretch ⟨Scalar.ofNat 0, s.transitionDuration⟩ (i + 1)]

/-- What is shown one after another: the slides, or bodies and transitions in turn. -/
def timeline (zoom : ℕ → ZoomDirection) (wipe : ℕ → WipeDirection) : List Picture :=
  if s.kind.overlaps then
    (if s.Skips n 0 then [] else [s.body n (zoom 0) 0]) ++
      (List.range (n - 1)).flatMap fun i => [s.wiped (wipe i) i, s.body n (zoom (i + 1)) (i + 1)]
  else (List.range n).map fun i => s.plainSlide (zoom i) i

/-- The stretches that are taken from a slide, in order. -/
def stretches (i : ℕ) : List (Window α) :=
  (if 0 < i then [⟨Scalar.ofNat 0, s.transitionDuration⟩] else []) ++
    (if s.Skips n i then [] else [s.bodyWindow n i]) ++
    (if i + 1 < n then [⟨s.sceneDuration - s.transitionDuration, s.sceneDuration⟩] else [])

end SceneSpec

/-- Windows that follow one another from one time up to another. -/
def Tiles (start stop : Rat) : List (Window Rat) → Prop
  | [] => start = stop
  | w :: ws => w.start = start ∧ w.start ≤ w.stop ∧ Tiles w.stop stop ws

end Spec

/-! ## Texts -/

section Texts

variable {α : Type} [Scalar α] {s : SceneSpec α} {n i : ℕ} {d : ZoomDirection}

namespace Scene

theorem pick_of_panZoom {parts : List (Expression α)} (h : Expression.Writable parts i)
    (hpart : .panZoom s.panZoom ∈ parts) :
    s.zoom.pick i = .ok (s.zoom.drawn .inward i) := by
  obtain ⟨t, ht⟩ := Expression.exists_text_of_writable h hpart
  obtain ⟨d, hd, -⟩ := Expression.text_panZoom_eq_ok_iff.mp ht
  exact Variants.pick_eq_drawn .inward hd

theorem text_panZoom (h : s.zoom.pick i = .ok d) :
    (Expression.panZoom s.panZoom).text i = .ok (s.panZoom.text d) :=
  Expression.text_panZoom_eq_ok_iff.mpr ⟨d, h, rfl⟩

theorem slidePicture_cut (h : s.kind.zooms = true → s.zoom.pick i = .ok d) :
    slidePicture (cutSceneParts s) i = s.plainSlide d i := by
  have hscale : Expression.Spells i [(.scale s.width s.height : Expression α)]
      [Expression.scaleText s.width s.height] := .cons rfl .nil
  have htrim : Expression.Spells i [.trim s.sceneDuration]
      [SceneSpec.trimText s.sceneDuration] := .cons rfl .nil
  have hnormalize : Expression.Spells i [(.normalize : Expression α)]
      [SceneSpec.normalizeText] := .cons rfl .nil
  have hzoom : Expression.Spells i
      (if s.kind.zooms then [.panZoom s.panZoom] else [])
      (if s.kind.zooms then [s.panZoom.text d] else []) := by
    split
    · exact .cons (text_panZoom (h ‹_›)) .nil
    · exact .nil
  have hfade : Expression.Spells i
      (match s.kind with
        | .fade _ => [.fade s.transitionDuration s.sceneDuration]
        | _ => []) s.fadeTexts := by
    unfold SceneSpec.fadeTexts
    cases s.kind with
    | fade zooms => exact .cons rfl .nil
    | _ => exact .nil
  rw [slidePicture, SceneSpec.plainSlide, cutSceneParts, Expression.written_eq]
  exact List.rel_append (List.rel_append (List.rel_append (List.rel_append hscale hzoom) htrim)
    hfade) hnormalize

theorem slidePicture_wipe (s : SceneSpec α) (i : ℕ) :
    slidePicture (wipeSceneParts s) i = s.slide i := by
  rw [slidePicture, SceneSpec.slide, wipeSceneParts, Expression.written_eq]
  exact .cons rfl (.cons rfl (.cons rfl .nil))

theorem cutPicture_none (s : SceneSpec α) (w : Window α) (i : ℕ) :
    cutPicture none i (s.slide i) w = s.stretch w i := by
  rw [cutPicture, SceneSpec.stretch, cutParts, Expression.written_eq]
  exact .cons rfl (.cons rfl .nil)

theorem cutPicture_some (w : Window α) (h : s.zoom.pick i = .ok d) :
    cutPicture (some s.panZoom) i (s.slide i) w = s.zoomedStretch w d i := by
  rw [cutPicture, SceneSpec.zoomedStretch, cutParts, Expression.written_eq]
  exact .cons rfl (.cons rfl (.cons (text_panZoom h) (.cons rfl (.cons rfl .nil))))

end Scene

end Texts

/-! ## Room for the transitions -/

namespace SceneSpec

variable {s : SceneSpec Rat} {n i : ℕ}

theorem room_of_roomy (h : Scene.Roomy s) (hoverlaps : s.kind.overlaps = true) :
    2 * s.transitionDuration < s.sceneDuration := by
  have hroom : decide (s.sceneDuration ≤ 2 * s.transitionDuration) = false := h hoverlaps
  simpa using hroom

/-- Where there is room, every body is a stretch. -/
theorem start_lt_stop_bodyWindow (hT : 0 ≤ s.transitionDuration)
    (hroom : 2 * s.transitionDuration < s.sceneDuration) (n i : ℕ) :
    (s.bodyWindow n i).start < (s.bodyWindow n i).stop := by
  have hzero : (Scalar.ofNat 0 : Rat) = 0 := rfl
  simp only [bodyWindow, hzero]
  split <;> split <;> linarith

theorem ofSlide_body (hT : 0 ≤ s.transitionDuration)
    (hroom : 2 * s.transitionDuration < s.sceneDuration) (hi : i < n) :
    (SlideWindows.ofSlide s n i).body = if s.Skips n i then none else some (s.bodyWindow n i) := by
  have hstart : (if 0 < i then s.transitionDuration else Scalar.ofNat 0) =
      (s.bodyWindow n i).start := by
    by_cases h : i = 0
    · simp [bodyWindow, h]
    · simp [bodyWindow, h, Nat.pos_of_ne_zero h]
  have hstop : (if i + 1 < n then s.sceneDuration - s.transitionDuration else s.sceneDuration) =
      (s.bodyWindow n i).stop := by
    by_cases h : i + 1 = n
    · simp [bodyWindow, h]
    · have hlt : i + 1 < n := by omega
      simp [bodyWindow, h, hlt]
  have hless : Scalar.less (s.bodyWindow n i).start (s.bodyWindow n i).stop = true :=
    decide_eq_true (start_lt_stop_bodyWindow hT hroom n i)
  unfold SlideWindows.ofSlide
  dsimp only
  rw [hstart, hstop, hless]
  by_cases hskips : s.Skips n i
  · have hshown : (s.continuation && decide (i = 0) && decide (1 < n)) = true := by
      simpa [Skips, and_assoc] using hskips
    simp [hskips, hshown]
  · have hshown : (s.continuation && decide (i = 0) && decide (1 < n)) = false := by
      simpa [Skips] using hskips
    simp [hskips, hshown]

theorem stretches_eq (hT : 0 ≤ s.transitionDuration)
    (hroom : 2 * s.transitionDuration < s.sceneDuration) (hi : i < n) :
    s.stretches n i = (SlideWindows.ofSlide s n i).lead.toList ++
      (SlideWindows.ofSlide s n i).body.toList ++ (SlideWindows.ofSlide s n i).tail.toList := by
  rw [ofSlide_body hT hroom hi, Scene.ofSlide_lead, Scene.ofSlide_tail, stretches]
  congr 2
  · split <;> rfl
  · split <;> rfl
  · split <;> rfl

/-- The stretches of a slide leave no gap and do not overlap; they begin at zero unless the body was
shown before. -/
theorem tiles_stretches (hT : 0 ≤ s.transitionDuration)
    (hroom : 2 * s.transitionDuration < s.sceneDuration) (hi : i < n) :
    Tiles (if s.Skips n i then s.sceneDuration - s.transitionDuration else 0) s.sceneDuration
      (s.stretches n i) := by
  have hzero : (Scalar.ofNat 0 : Rat) = 0 := rfl
  have hbody := (start_lt_stop_bodyWindow hT hroom n i).le
  have hfirst : i = 0 ↔ ¬ 0 < i := by omega
  have hlast : i + 1 = n ↔ ¬ i + 1 < n := by omega
  by_cases hskips : s.Skips n i
  · have hlead : ¬ 0 < i := hfirst.mp hskips.2.1
    have htail : i + 1 < n := by
      have := hskips.2
      omega
    simp [stretches, hskips, hlead, htail, Tiles, hT]
  · simp only [bodyWindow, hfirst, hlast] at hbody
    by_cases hlead : 0 < i <;> by_cases htail : i + 1 < n <;>
      simp [stretches, hskips, hlead, htail, Tiles, bodyWindow, hfirst, hlast, hzero, hT] at hbody ⊢ <;>
      exact hbody

end SceneSpec

/-! ## The timeline of an assembled scene -/

section Timeline

variable {s : SceneSpec Rat} {n i : ℕ}

open SceneSpec

theorem wipePicture_eq (s : SceneSpec Rat) (i : ℕ) :
    Scene.wipePicture s i
      (Scene.cutPicture none i (Scene.slidePicture (Scene.wipeSceneParts s) i)
        (Scene.tailWindow s))
      (Scene.cutPicture none (i + 1) (Scene.slidePicture (Scene.wipeSceneParts s) (i + 1))
        (Scene.leadWindow s)) =
      s.wiped (s.wipe.drawn .leftToRight i) i := by
  rw [Scene.slidePicture_wipe, Scene.slidePicture_wipe, Scene.cutPicture_none,
    Scene.cutPicture_none]
  rfl

theorem bodyPicture_eq (hT : 0 ≤ s.transitionDuration)
    (hroom : 2 * s.transitionDuration < s.sceneDuration) (hi : i < n)
    (hzoom : s.kind = .slideWipePanZoom → ¬ s.Skips n i →
      s.zoom.pick i = .ok (s.zoom.drawn .inward i)) :
    ((SlideWindows.ofSlide s n i).body.map (Scene.cutPicture (Scene.bodyZoom s) i
      (Scene.slidePicture (Scene.wipeSceneParts s) i))).toList =
      if s.Skips n i then [] else [s.body n (s.zoom.drawn .inward i) i] := by
  rw [ofSlide_body hT hroom hi, Scene.slidePicture_wipe]
  by_cases hskips : s.Skips n i
  · simp [hskips]
  · by_cases hkind : s.kind = .slideWipePanZoom
    · simp [hskips, Scene.bodyZoom, SceneSpec.body, hkind,
        Scene.cutPicture_some _ (hzoom hkind hskips)]
    · simp [hskips, Scene.bodyZoom, SceneSpec.body, hkind, Scene.cutPicture_none]

/-- What is shown is what the specification says, where the directions can be chosen. -/
theorem timeline_eq (hT : 0 ≤ s.transitionDuration)
    (hroom : s.kind.overlaps = true → 2 * s.transitionDuration < s.sceneDuration) (hn : 0 < n)
    (hzoom : ∀ i < n, s.kind.zooms = true → ¬ (s.kind.overlaps = true ∧ s.Skips n i) →
      s.zoom.pick i = .ok (s.zoom.drawn .inward i)) :
    Scene.timeline s n =
      s.timeline n (s.zoom.drawn .inward) (s.wipe.drawn .leftToRight) := by
  unfold Scene.timeline SceneSpec.timeline
  split
  · rename_i hoverlaps
    obtain ⟨k, rfl⟩ := Nat.exists_eq_succ_of_ne_zero (Nat.ne_of_gt hn)
    have hbody : ∀ i < k + 1, _ := fun i hi => bodyPicture_eq hT (hroom hoverlaps) hi
      fun hkind hskips => hzoom i hi (by rw [hkind]; rfl) fun h => hskips h.2
    rw [Scene.wipeTimeline_succ, hbody 0 (by omega)]
    congr 1
    refine List.flatMap_congr fun i hi => ?_
    have hlt : i < k := List.mem_range.mp hi
    have hshown : ¬ s.Skips (k + 1) (i + 1) := fun h => absurd h.2.1 (by omega)
    rw [wipePicture_eq, hbody (i + 1) (by omega), if_neg hshown]
  · rename_i hoverlaps
    refine List.map_congr_left fun i hi => Scene.slidePicture_cut fun hzooms => ?_
    exact hzoom i (List.mem_range.mp hi) hzooms fun h => hoverlaps h.1

theorem pick_zoom_of_drawn (hT : 0 ≤ s.transitionDuration)
    (hroom : s.kind.overlaps = true → 2 * s.transitionDuration < s.sceneDuration)
    (hdrawn : Scene.Drawn s n) (hi : i < n) (hzooms : s.kind.zooms = true)
    (hshown : ¬ (s.kind.overlaps = true ∧ s.Skips n i)) :
    s.zoom.pick i = .ok (s.zoom.drawn .inward i) := by
  unfold Scene.Drawn at hdrawn
  split at hdrawn
  · rename_i hoverlaps
    have hskips : ¬ s.Skips n i := fun h => hshown ⟨hoverlaps, h⟩
    have hbody : (SlideWindows.ofSlide s n i).body = some (s.bodyWindow n i) := by
      rw [ofSlide_body hT (hroom hoverlaps) hi, if_neg hskips]
    have hkind : s.kind = .slideWipePanZoom := by
      cases hkind : s.kind <;> simp [hkind, SceneKind.zooms, SceneKind.overlaps] at hzooms hoverlaps ⊢
    have hwritable := hdrawn.1 i hi _ hbody
    rw [Scene.bodyZoom, if_pos hkind] at hwritable
    exact Scene.pick_of_panZoom hwritable (by simp [Scene.cutParts])
  · exact Scene.pick_of_panZoom (hdrawn i hi) (by simp [Scene.cutSceneParts, hzooms])

/-- The last operation of a scene joins the specified timeline; the directions in it are those that
are chosen for the slides. Where slides overlap, the stretches of every slide are nonempty bodies with
leads and tails that leave no gap. -/
theorem Scene.exists_timeline (hT : 0 ≤ s.transitionDuration) {scene : Scene Rat}
    (h : Scene.assemble s n = .ok scene) :
    ∃ (zoom : ℕ → ZoomDirection) (wipe : ℕ → WipeDirection),
      scene.graph.EndsJoined scene.video (s.timeline n zoom wipe) ∧
      (∀ i < n, s.kind.zooms = true → ¬ (s.kind.overlaps = true ∧ s.Skips n i) →
        s.zoom.pick i = .ok (zoom i)) ∧
      (s.kind.overlaps = true →
        (∀ i, i + 1 < n → s.wipe.pick i = .ok (wipe i)) ∧
        ∀ i < n, (s.bodyWindow n i).start < (s.bodyWindow n i).stop ∧
          Tiles (if s.Skips n i then s.sceneDuration - s.transitionDuration else 0)
            s.sceneDuration (s.stretches n i)) := by
  obtain ⟨hn, hroomy, -⟩ := Scene.run_of_assemble h
  have hroom : s.kind.overlaps = true → 2 * s.transitionDuration < s.sceneDuration :=
    room_of_roomy hroomy
  have hlong : s.kind.overlaps = true → Scalar.less (Scalar.ofNat 0) s.sceneDuration = true := by
    intro hoverlaps
    have := hroom hoverlaps
    exact decide_eq_true (show (0 : Rat) < s.sceneDuration by linarith)
  obtain ⟨hlast, hdrawn⟩ := Scene.endsJoined_of_assemble h hlong
  have hzoom := fun i (hi : i < n) => pick_zoom_of_drawn hT hroom hdrawn hi
  rw [timeline_eq hT hroom hn hzoom] at hlast
  refine ⟨_, _, hlast, hzoom, fun hoverlaps => ⟨fun i hi => ?_, fun i hi => ⟨?_, ?_⟩⟩⟩
  · rw [Scene.Drawn, if_pos hoverlaps] at hdrawn
    exact hdrawn.2 i (by omega)
  · exact start_lt_stop_bodyWindow hT (hroom hoverlaps) n i
  · exact tiles_stretches hT (hroom hoverlaps) hi

/-- Of a repeated slide and two others, only the tail of the first is shown. -/
theorem Scene.exists_timeline_overlapping :
    0 ≤ (SceneSpec.ofOptions overlapping (1280, 720) [7]).transitionDuration ∧
    ∃ scene zoom wipe, Scene.assemble (.ofOptions overlapping (1280, 720) [7]) 3 = .ok scene ∧
      scene.graph.EndsJoined scene.video
        ((SceneSpec.ofOptions overlapping (1280, 720) [7]).timeline 3 zoom wipe) := by
  have hT : 0 ≤ (SceneSpec.ofOptions overlapping (1280, 720) [7]).transitionDuration := by
    decide +kernel
  obtain ⟨scene, hscene, -⟩ := Scene.exists_assemble_ofOptions
    (SceneOptions.timed_of_validate overlapping_valid) (fun x => Rat.mul_comm 2 x) (1280, 720) [7]
    (show 0 < 3 by decide)
  obtain ⟨zoom, wipe, hlast, -⟩ := Scene.exists_timeline hT hscene
  exact ⟨hT, scene, zoom, wipe, hscene, hlast⟩

end Timeline

end Slideshow
