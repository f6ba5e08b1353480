import Slideshow.Scene.Assembly
import Slideshow.Proofs.Filter.Compile

/-! # Putting slides together

The assembly exchanges the inputs for slides, the slides for their stretches, the stretches at the
boundaries for transitions, and what is left for the picture of the scene. At every step `Holds` says
which streams there are and what they show. -/

namespace Slideshow

open Slideshow.Graph

/-! ## Weaving two lists into one -/

section Weave

variable {β γ : Type}

/-- Entries of the first list, where there are any, and of the second in turn. -/
def weave : List (Option β) → List β → List β
  | [], _ => []
  | b :: bs, [] => b.toList ++ weave bs []
  | b :: bs, t :: ts => b.toList ++ t :: weave bs ts

theorem interleave_eq_weave (bodies : List (Option Label)) (transitions : List Label) :
    Scene.interleave bodies transitions = weave bodies transitions := by
  induction bodies generalizing transitions with
  | nil => simp [Scene.interleave, weave]
  | cons b bs ih => cases transitions <;> simp [Scene.interleave, weave, ih]

theorem weave_map (f : β → γ) (bs : List (Option β)) (ts : List β) :
    weave (bs.map (Option.map f)) (ts.map f) = (weave bs ts).map f := by
  induction bs generalizing ts with
  | nil => rfl
  | cons b bs ih => cases ts <;> cases b <;> simp [weave, ← ih]

theorem weave_perm (bs : List (Option β)) (ts : List β) (h : ts.length ≤ bs.length) :
    (weave bs ts).Perm (ts ++ bs.flatMap Option.toList) := by
  induction bs generalizing ts with
  | nil =>
      cases ts with
      | nil => rfl
      | cons t ts => simp at h
  | cons b bs ih =>
      cases ts with
      | nil => simpa [weave] using (ih [] (by simp)).append_left b.toList
      | cons t ts =>
          have hrest := ih ts (by simpa using h)
          have hmiddle : (b.toList ++ t :: weave bs ts).Perm
              (t :: (b.toList ++ (ts ++ bs.flatMap Option.toList))) :=
            List.perm_middle.trans ((hrest.append_left _).cons _)
          have hswap : (b.toList ++ ts).Perm (ts ++ b.toList) := List.perm_append_comm
          refine hmiddle.trans ?_
          simpa only [List.flatMap_cons, List.cons_append, List.append_assoc] using
            (hswap.append_right (bs.flatMap Option.toList)).cons t

/-- One body more than transitions. -/
theorem weave_cons_of_length_eq (b : Option β) {bs : List (Option β)} {ts : List β}
    (h : ts.length = bs.length) :
    weave (b :: bs) ts = b.toList ++ (ts.zip bs).flatMap fun x => x.1 :: x.2.toList := by
  induction ts generalizing b bs with
  | nil =>
      cases List.length_eq_zero_iff.mp h.symm
      rfl
  | cons t ts ih =>
      cases bs with
      | nil => simp at h
      | cons b' bs =>
          have hlength : ts.length = bs.length := by simpa using h
          simp [weave, ih b' hlength]

end Weave

namespace Scene

/-! ## The inputs -/

theorem nodup_inputs (n : ℕ) : (inputs n).Nodup :=
  List.nodup_range.map fun _ _ => Label.video_inj

theorem isInput_of_mem_inputs {n : ℕ} {l : Label} (h : l ∈ inputs n) : l.isInput = true := by
  obtain ⟨i, -, rfl⟩ := List.mem_map.mp h
  exact Label.isInput_video i

theorem mem_inputs_iff {n : ℕ} {l : Label} : l ∈ inputs n ↔ ∃ i < n, l = .video i := by
  simp [inputs, eq_comm]

theorem holds_inputs (n : ℕ) :
    Holds (inputs n) ((inputs n).map fun l => (l, .input l)) {} :=
  holds_nil (nodup_inputs n) fun _ => isInput_of_mem_inputs

variable {α : Type} [Scalar α] {sources : List Label} {ins rest : List (Label × Picture)}
  {g : Graph} {lacks : Prop}

/-! ## Slides -/

/-- Every slide is scaled, cut and so on by itself. -/
theorem ends_slides {n : ℕ} (hn : 0 < n) (parts : List (Expression α))
    (hparts : Expression.Begins parts)
    (hlacks : ∀ i < n, ¬ Expression.Writable parts i → lacks) :
    Build.Ends (do
      let labels ← labeler "scn"
      (Filter.combine labels parts 0).appendTo (inputs n)) {} lacks fun outs g' =>
      ∃ held, outs = held.map Prod.fst ∧ Holds (inputs n) held g' ∧
        held.map Prod.snd = ((List.range n).map fun i =>
          .made (Expression.written parts i) [.input (.video i)]) ∧
        ∀ i < n, Expression.Writable parts i := by
  refine ((holds_inputs n).labeler (by simp)).bind fun labels g ⟨hfresh, h⟩ => ?_
  have hins : ((inputs n).map fun l => (l, Picture.input l)).map Prod.fst = inputs n := by
    simp [Function.comp_def]
  rw [← List.append_nil (List.map _ _)] at h
  have hlacks' : ∀ i < ((inputs n).map fun l => (l, Picture.input l)).length,
      ¬ Expression.Writable parts (0 + i) → lacks := by
    simpa [inputs] using hlacks
  have hends := h.combine hfresh (by simp [inputs, Nat.ne_of_gt hn]) hparts hlacks'
  rw [hins] at hends
  refine hends.mono fun outs g' ⟨held, houts, h', hheld, hwritable⟩ =>
    ⟨held, houts, by simpa using h', ?_, by simpa [inputs] using hwritable⟩
  rw [hheld]
  refine List.ext_getElem (by simp [inputs]) fun i hi hi' => ?_
  simp [inputs]

/-! ## Stretches of slides -/

/-- What is done to a slide to cut a stretch out of it. -/
def cutParts (w : Window α) (zoom : Option (PanZoom α)) : List (Expression α) :=
  [.segment w.start w.stop, .normalize] ++
    match zoom with
    | some z => [.panZoom z, .trim w.length, .normalize]
    | none => []

/-- A stretch of what a slide shows. -/
def cutPicture (zoom : Option (PanZoom α)) (slide : ℕ) (shown : Picture) (w : Window α) : Picture :=
  .made (Expression.written (cutParts w zoom) slide) [shown]

theorem ends_cut {s : Label × Picture} (h : Holds sources (s :: rest) g) {w : Window α}
    {zoom : Option (PanZoom α)} {slide : ℕ}
    (hlacks : ¬ Expression.Writable (cutParts w zoom) slide → lacks) :
    (cut s.1 w zoom slide).Ends g lacks fun l g' =>
      Holds sources ((l, cutPicture zoom slide s.2 w) :: rest) g' ∧
        Expression.Writable (cutParts w zoom) slide := by
  refine (h.labeler (by simp)).bind fun labels g₁ ⟨hfresh, h₁⟩ => ?_
  have h₁ : Holds sources ([s] ++ rest) g₁ := h₁
  have hlacks' : ∀ i < [s].length, ¬ Expression.Writable (cutParts w zoom) (slide + i) → lacks := by
    simpa using hlacks
  have hbegins : Expression.Begins (cutParts w zoom) := trivial
  refine (h₁.combine hfresh (by simp) hbegins hlacks').bind
    fun outs g' ⟨held, houts, h', hheld, hwritable⟩ => ?_
  obtain ⟨⟨l, p⟩, rfl⟩ : ∃ s, held = [s] := by
    rw [← List.length_eq_one_iff, ← List.length_map Prod.snd, hheld]
    rfl
  have hp : p = cutPicture zoom slide s.2 w := by simpa [cutPicture] using hheld
  subst houts hp
  exact Build.ends_pure ⟨h', by simpa using hwritable 0⟩

/-- A stretch, if there is one, takes a copy of its slide. -/
theorem ends_cutNext {copies : List (Label × Picture)} {shown : Picture}
    (hcopies : ∀ s ∈ copies, s.2 = shown) {w : Option (Window α)}
    (henough : w.toList.length ≤ copies.length) {zoom : Option (PanZoom α)} {slide : ℕ}
    (h : Holds sources (copies ++ rest) g)
    (hlacks : ∀ v ∈ w, ¬ Expression.Writable (cutParts v zoom) slide → lacks) :
    (cutNext (copies.map Prod.fst) w zoom slide).Ends g lacks fun r g' =>
      ∃ held : Option (Label × Picture),
        r = (held.map Prod.fst, (copies.drop w.toList.length).map Prod.fst) ∧
        held.map Prod.snd = w.map (cutPicture zoom slide shown) ∧
        Holds sources (copies.drop w.toList.length ++ (held.toList ++ rest)) g' ∧
        ∀ v ∈ w, Expression.Writable (cutParts v zoom) slide := by
  cases w with
  | none => exact Build.ends_pure ⟨none, rfl, rfl, h, by simp⟩
  | some v =>
      cases copies with
      | nil => simp at henough
      | cons s copies =>
          refine (ends_cut h (hlacks v rfl)).bind fun l g' ⟨h', hwritable⟩ => ?_
          refine Build.ends_pure ⟨some (l, cutPicture zoom slide s.2 v), rfl, ?_, ?_, ?_⟩
          · rw [hcopies s List.mem_cons_self]
            rfl
          · exact h'.perm List.perm_middle
          · rintro _ ⟨⟩
            exact hwritable

/-- The streams cut out of one slide, with what they show. -/
structure HeldCuts where
  lead : Option (Label × Picture)
  body : Option (Label × Picture)
  tail : Option (Label × Picture)

namespace HeldCuts

def labels (c : HeldCuts) : SlideCuts :=
  ⟨c.lead.map Prod.fst, c.body.map Prod.fst, c.tail.map Prod.fst⟩

def all (c : HeldCuts) : List (Label × Picture) :=
  c.lead.toList ++ (c.body.toList ++ c.tail.toList)

end HeldCuts

/-- How the body of a slide is zoomed. -/
def bodyZoom (s : SceneSpec α) : Option (PanZoom α) :=
  if s.kind = .slideWipePanZoom then some s.panZoom else none

/-- The cuts are the stretches of a slide, where each can be written. -/
structure HeldCuts.Shows (c : HeldCuts) (s : SceneSpec α) (slides i : ℕ) (shown : Picture) :
    Prop where
  lead : c.lead.map Prod.snd =
    (SlideWindows.ofSlide s slides i).lead.map (cutPicture none i shown)
  body : c.body.map Prod.snd =
    (SlideWindows.ofSlide s slides i).body.map (cutPicture (bodyZoom s) i shown)
  tail : c.tail.map Prod.snd =
    (SlideWindows.ofSlide s slides i).tail.map (cutPicture none i shown)
  writable : ∀ w ∈ (SlideWindows.ofSlide s slides i).body,
    Expression.Writable (cutParts w (bodyZoom s)) i

theorem writable_cutParts_none (w : Window α) (i : ℕ) :
    Expression.Writable (cutParts w none) i :=
  Expression.writable_iff.mpr ⟨_, rfl⟩

/-- A slide is copied if it gives more than one stretch. -/
theorem ends_copies {scene : Label × Picture} (h : Holds sources (scene :: rest) g) {k : ℕ}
    (hk : 0 < k) :
    Build.Ends (if 1 < k then do
      let labels ← labeler "spl"
      (Filter.split labels .video k : Filter α).appendTo [scene.1]
      else pure [scene.1]) g lacks fun outs g' =>
      ∃ held, outs = held.map Prod.fst ∧ held.length = k ∧ (∀ s ∈ held, s.2 = scene.2) ∧
        Holds sources (held ++ rest) g' := by
  split
  · refine (h.labeler (by simp)).bind fun labels g₁ ⟨hfresh, h₁⟩ => ?_
    refine (h₁.split (α := α) hfresh hk).mono fun outs g' ⟨held, houts, h', hheld⟩ =>
      ⟨held, houts, ?_, fun s hs => ?_, h'⟩
    · simpa using congrArg List.length hheld
    · have hmem : s.2 ∈ held.map Prod.snd := List.mem_map_of_mem hs
      rw [hheld] at hmem
      exact List.eq_of_mem_replicate hmem
  · exact Build.ends_pure ⟨[scene], rfl, by simp; omega, by simp, h⟩

/-- The copies are made before any stretch is cut. -/
theorem cutSlide_eq (s : SceneSpec α) (slides i : ℕ) (scene : Label) :
    cutSlide s slides i scene = (do
      let copies ← (if 1 < (SlideWindows.ofSlide s slides i).count then do
        let labels ← labeler "spl"
        (Filter.split labels .video (SlideWindows.ofSlide s slides i).count : Filter α).appendTo
          [scene]
        else pure [scene] : Build (List Label))
      let (lead, copies) ← cutNext copies (SlideWindows.ofSlide s slides i).lead none i
      let (body, copies) ← cutNext copies (SlideWindows.ofSlide s slides i).body (bodyZoom s) i
      let (tail, _) ← cutNext copies (SlideWindows.ofSlide s slides i).tail none i
      return ⟨lead, body, tail⟩) := by
  unfold cutSlide bodyZoom
  dsimp only
  split <;> simp only [bind_assoc]

/-- A slide is exchanged for its stretches. -/
theorem ends_cutSlide {s : SceneSpec α} {slides i : ℕ} {scene : Label × Picture}
    (h : Holds sources (scene :: rest) g)
    (hcount : 0 < (SlideWindows.ofSlide s slides i).count)
    (hlacks : ∀ w ∈ (SlideWindows.ofSlide s slides i).body,
      ¬ Expression.Writable (cutParts w (bodyZoom s)) i → lacks) :
    (cutSlide s slides i scene.1).Ends g lacks fun cuts g' =>
      ∃ c : HeldCuts, cuts = c.labels ∧ c.Shows s slides i scene.2 ∧
        Holds sources (c.all ++ rest) g' := by
  have hnone : ∀ w : Window α, ¬ Expression.Writable (cutParts w none) i → lacks :=
    fun w hw => (hw (writable_cutParts_none w i)).elim
  rw [cutSlide_eq]
  refine (ends_copies (α := α) h hcount).bind fun _ g₁ ⟨copies, hcopies, hlength, hshown, h₁⟩ => ?_
  subst hcopies
  simp only [SlideWindows.count] at hlength
  refine (ends_cutNext hshown (w := (SlideWindows.ofSlide s slides i).lead) (by omega) h₁
    fun w _ => hnone w).bind ?_
  rintro _ g₂ ⟨lead, rfl, hlead, h₂, -⟩
  refine (ends_cutNext (fun s hs => hshown s (List.mem_of_mem_drop hs))
    (w := (SlideWindows.ofSlide s slides i).body) (by simp; omega) h₂ hlacks).bind ?_
  rintro _ g₃ ⟨body, rfl, hbody, h₃, hwritable⟩
  refine (ends_cutNext (fun s hs => hshown s (List.mem_of_mem_drop (List.mem_of_mem_drop hs)))
    (w := (SlideWindows.ofSlide s slides i).tail) (by simp; omega) h₃ fun w _ => hnone w).bind ?_
  rintro _ g₄ ⟨tail, rfl, htail, h₄, -⟩
  refine Build.ends_pure ⟨⟨lead, body, tail⟩, rfl, ⟨hlead, hbody, htail, hwritable⟩, ?_⟩
  have hnil : ((copies.drop (SlideWindows.ofSlide s slides i).lead.toList.length).drop
      (SlideWindows.ofSlide s slides i).body.toList.length).drop
      (SlideWindows.ofSlide s slides i).tail.toList.length = [] := by
    rw [List.drop_drop, List.drop_drop, List.drop_eq_nil_iff]
    omega
  rw [hnil, List.nil_append] at h₄
  classical
  refine h₄.perm (List.perm_iff_count.mpr fun s => ?_)
  simp only [HeldCuts.all, List.count_append]
  omega

/-- All slides are exchanged for their stretches. -/
theorem ends_cutSlides {s : SceneSpec α} {slides i : ℕ} {scenes : List (Label × Picture)}
    (shown : ℕ → Picture)
    (hscenes : scenes.map Prod.snd = (List.range' i scenes.length).map shown)
    (h : Holds sources (scenes ++ rest) g)
    (hcount : ∀ j ∈ List.range' i scenes.length, 0 < (SlideWindows.ofSlide s slides j).count)
    (hlacks : ∀ j ∈ List.range' i scenes.length, ∀ w ∈ (SlideWindows.ofSlide s slides j).body,
      ¬ Expression.Writable (cutParts w (bodyZoom s)) j → lacks) :
    (cutSlides s slides i (scenes.map Prod.fst)).Ends g lacks fun cuts g' =>
      ∃ cs : List HeldCuts, cuts = cs.map HeldCuts.labels ∧
        Holds sources (cs.flatMap HeldCuts.all ++ rest) g' ∧
        List.Forall₂ (fun j (c : HeldCuts) => c.Shows s slides j (shown j))
          (List.range' i scenes.length) cs := by
  induction scenes generalizing i rest g with
  | nil => exact Build.ends_pure ⟨[], rfl, h, .nil⟩
  | cons scene scenes ih =>
      simp only [List.length_cons, List.range'_succ, List.map_cons, List.cons.injEq] at hscenes
      simp only [List.length_cons, List.range'_succ, List.forall_mem_cons] at hcount hlacks ⊢
      have h : Holds sources (scene :: (scenes ++ rest)) g := h
      refine (ends_cutSlide h hcount.1 hlacks.1).bind fun _ g₁ ⟨c, hc, hshows, h₁⟩ => ?_
      have haside : Holds sources (scenes ++ (c.all ++ rest)) g₁ := by
        refine h₁.perm ?_
        simpa only [List.append_assoc] using List.perm_append_comm.append_right rest
      refine (ih hscenes.2 haside hcount.2 hlacks.2).bind fun _ g₂ ⟨cs, hcs, h₂, hall⟩ => ?_
      refine Build.ends_pure ⟨c :: cs, by rw [hc, hcs]; rfl, ?_, .cons (hscenes.1 ▸ hshows) hall⟩
      refine h₂.perm ?_
      simpa only [List.flatMap_cons, List.append_assoc] using
        List.perm_append_comm.append_right rest

/-! ## Boundaries -/

/-- Every slide but the last has a tail, and every slide but the first a lead. -/
def Linked : List HeldCuts → Prop
  | [] => True
  | [c] => c.tail = none
  | a :: b :: rest => a.tail.isSome = true ∧ b.lead.isSome = true ∧ Linked (b :: rest)

/-- The tail of every slide but the last, with the lead of the next one. -/
def boundaries : List HeldCuts → List ((Label × Picture) × (Label × Picture))
  | a :: b :: rest => (a.tail.toList.zip b.lead.toList) ++ boundaries (b :: rest)
  | _ => []

theorem boundaryPairs_eq {cs : List HeldCuts} (h : Linked cs) :
    boundaryPairs (cs.map HeldCuts.labels) =
      pure (((boundaries cs).flatMap fun x => [x.1, x.2]).map Prod.fst) := by
  induction cs with
  | nil => rfl
  | cons a cs ih =>
      cases cs with
      | nil => rfl
      | cons b cs =>
          obtain ⟨htail, hlead, h⟩ := h
          obtain ⟨t, ht⟩ := Option.isSome_iff_exists.mp htail
          obtain ⟨l, hl⟩ := Option.isSome_iff_exists.mp hlead
          have hrest := ih h
          have ht' : a.labels.tail = some t.1 := by simp [HeldCuts.labels, ht]
          have hl' : b.labels.lead = some l.1 := by simp [HeldCuts.labels, hl]
          simp only [List.map_cons] at hrest
          simp only [List.map_cons, boundaryPairs, ht', hl', present, pure_bind, hrest]
          simp [boundaries, ht, hl]

/-- Nothing but the bodies is left when the boundaries are taken out. -/
theorem perm_boundaries {c : HeldCuts} {cs : List HeldCuts} (h : Linked (c :: cs)) :
    ((c :: cs).flatMap HeldCuts.all).Perm (c.lead.toList ++
      (((boundaries (c :: cs)).flatMap fun x => [x.1, x.2]) ++
        (c :: cs).flatMap fun c => c.body.toList)) := by
  classical
  induction cs generalizing c with
  | nil =>
      have hnone : c.tail = none := h
      simp [boundaries, HeldCuts.all, hnone]
  | cons b cs ih =>
      obtain ⟨htail, hlead, h⟩ := h
      obtain ⟨t, ht⟩ := Option.isSome_iff_exists.mp htail
      obtain ⟨l, hl⟩ := Option.isSome_iff_exists.mp hlead
      have hrest := List.perm_iff_count.mp (ih h)
      refine List.perm_iff_count.mpr fun s => ?_
      have hcount := hrest s
      rw [List.flatMap_cons] at hcount ⊢
      simp only [boundaries, HeldCuts.all, ht, hl, List.count_append, List.flatMap_cons,
        Option.toList_some, List.zip_cons_cons, List.zip_nil_right, List.cons_append,
        List.nil_append, List.count_cons, List.count_nil] at hcount ⊢
      omega

section Boundaries

variable {s : SceneSpec α} {slides i : ℕ} {shown : ℕ → Picture}

/-- The stretch of a slide that moves over the one before. -/
def leadWindow (s : SceneSpec α) : Window α := ⟨Scalar.ofNat 0, s.transitionDuration⟩

/-- The stretch of a slide that the next one moves over. -/
def tailWindow (s : SceneSpec α) : Window α :=
  ⟨s.sceneDuration - s.transitionDuration, s.sceneDuration⟩

theorem ofSlide_lead (s : SceneSpec α) (slides i : ℕ) :
    (SlideWindows.ofSlide s slides i).lead = if 0 < i then some (leadWindow s) else none := rfl

theorem ofSlide_tail (s : SceneSpec α) (slides i : ℕ) :
    (SlideWindows.ofSlide s slides i).tail =
      if i + 1 < slides then some (tailWindow s) else none := rfl

theorem lead_of_shows {c : HeldCuts} {p : Picture} (h : c.Shows s slides i p) (hi : 0 < i) :
    ∃ l, c.lead = some l ∧ l.2 = cutPicture none i p (leadWindow s) := by
  have hlead := h.lead
  rw [ofSlide_lead, if_pos hi] at hlead
  cases hc : c.lead with
  | none =>
      rw [hc] at hlead
      cases hlead
  | some l =>
      rw [hc] at hlead
      exact ⟨l, rfl, Option.some.inj hlead⟩

theorem tail_of_shows {c : HeldCuts} {p : Picture} (h : c.Shows s slides i p)
    (hi : i + 1 < slides) :
    ∃ t, c.tail = some t ∧ t.2 = cutPicture none i p (tailWindow s) := by
  have htail := h.tail
  rw [ofSlide_tail, if_pos hi] at htail
  cases hc : c.tail with
  | none =>
      rw [hc] at htail
      cases htail
  | some t =>
      rw [hc] at htail
      exact ⟨t, rfl, Option.some.inj htail⟩

/-- The cuts of all slides are linked, and the boundaries show what the windows say. -/
theorem linked_of_shows {cs : List HeldCuts} {k : ℕ}
    (h : List.Forall₂ (fun j (c : HeldCuts) => c.Shows s slides j (shown j)) (List.range' i k) cs)
    (hk : i + k = slides) :
    Linked cs ∧ (boundaries cs).map (fun x => (x.1.2, x.2.2)) =
      (List.range' i (k - 1)).map fun j => (cutPicture none j (shown j) (tailWindow s),
        cutPicture none (j + 1) (shown (j + 1)) (leadWindow s)) := by
  induction k generalizing i cs with
  | zero =>
      cases h
      exact ⟨trivial, rfl⟩
  | succ k ih =>
      rw [List.range'_succ] at h
      obtain ⟨a, cs, ha, h', rfl⟩ := List.forall₂_cons_left_iff.mp h
      obtain ⟨hlinked, hpictures⟩ := ih h' (by omega)
      cases k with
      | zero =>
          cases h'
          refine ⟨?_, rfl⟩
          have htail := ha.tail
          rw [ofSlide_tail, if_neg (by omega)] at htail
          simpa [Linked] using htail
      | succ k =>
          rw [List.range'_succ] at h'
          obtain ⟨b, cs, hb, -, rfl⟩ := List.forall₂_cons_left_iff.mp h'
          obtain ⟨t, ht, htp⟩ := tail_of_shows ha (by omega)
          obtain ⟨l, hl, hlp⟩ := lead_of_shows hb (by omega)
          refine ⟨⟨by rw [ht]; rfl, by rw [hl]; rfl, hlinked⟩, ?_⟩
          simp only [boundaries, ht, hl, Option.toList_some, List.zip_cons_cons, List.zip_nil_right,
            List.cons_append, List.nil_append, List.map_cons, htp, hlp, Nat.add_sub_cancel,
            List.range'_succ]
          simpa using hpictures

end Boundaries

/-! ## Joining -/

/-- All streams are exchanged for one. -/
theorem ends_join (h : Holds sources (ins ++ rest) g) (hins : ins ≠ []) :
    (join (α := α) (ins.map Prod.fst)).Ends g lacks fun l g' =>
      g'.EndsJoined l (ins.map Prod.snd) ∧
        Holds sources ((l, .joined (ins.map Prod.snd)) :: rest) g' := by
  refine (h.labeler (by simp)).bind fun labels g₁ ⟨hfresh, h₁⟩ => ?_
  have hends : Build.Ends _ g₁ lacks _ := h₁.concat (α := α) hfresh hins
  rw [← List.length_map Prod.fst] at hends
  exact hends.bind fun outs g' ⟨l, houts, h'⟩ => houts ▸ Build.ends_pure h'

/-- What the transition from one slide to the next shows. -/
def wipePicture (s : SceneSpec α) (i : ℕ) (below above : Picture) : Picture :=
  .made ("overlay=" ++ Filter.position s.transitionDuration (s.wipe.drawn .leftToRight i) ++
    ":shortest=1") [below, above]

/-- The boundaries are exchanged for transitions. -/
theorem ends_transitions {s : SceneSpec α} {pairs : List ((Label × Picture) × (Label × Picture))}
    (h : Holds sources ((pairs.flatMap fun x => [x.1, x.2]) ++ rest) g)
    (hlacks : ∀ i < pairs.length, ∀ e, s.wipe.pick i = .error e → lacks) :
    Build.Ends (if ((pairs.flatMap fun x => [x.1, x.2]).map Prod.fst).isEmpty then pure [] else do
      let labels ← labeler "wip"
      (Filter.overlayWipe labels s.transitionDuration s.wipe).appendTo
        ((pairs.flatMap fun x => [x.1, x.2]).map Prod.fst)) g lacks fun outs g' =>
      ∃ held, outs = held.map Prod.fst ∧ Holds sources (held ++ rest) g' ∧
        held.map Prod.snd = (pairs.zipIdx.map fun x => wipePicture s x.2 x.1.1.2 x.1.2.2) ∧
        ∀ i < pairs.length, s.wipe.pick i = .ok (s.wipe.drawn .leftToRight i) := by
  cases pairs with
  | nil => exact Build.ends_pure ⟨[], rfl, h, rfl, by simp⟩
  | cons pair pairs =>
      refine (h.labeler (by simp)).bind fun labels g₁ ⟨hfresh, h₁⟩ => ?_
      exact h₁.overlayWipe hfresh (by simp) hlacks

/-! ## Whole scenes -/

/-- What is done to every slide where slides do not overlap. -/
def cutSceneParts (s : SceneSpec α) : List (Expression α) :=
  [.scale s.width s.height] ++ (if s.kind.zooms then [.panZoom s.panZoom] else []) ++
    [.trim s.sceneDuration] ++ (match s.kind with
      | .fade _ => [.fade s.transitionDuration s.sceneDuration]
      | _ => []) ++ [.normalize]

/-- What is done to every slide where slides overlap. -/
def wipeSceneParts (s : SceneSpec α) : List (Expression α) :=
  [.scale s.width s.height, .trim s.sceneDuration, .normalize]

/-- A slide of the scene. -/
def slidePicture (parts : List (Expression α)) (i : ℕ) : Picture :=
  .made (Expression.written parts i) [.input (.video i)]

/-- The pictures that are joined where slides overlap: bodies and transitions in turn. -/
def wipeTimeline (s : SceneSpec α) (n : ℕ) : List Picture :=
  weave
    ((List.range n).map fun i => (SlideWindows.ofSlide s n i).body.map
      (cutPicture (bodyZoom s) i (slidePicture (wipeSceneParts s) i)))
    ((List.range (n - 1)).map fun i => wipePicture s i
      (cutPicture none i (slidePicture (wipeSceneParts s) i) (tailWindow s))
      (cutPicture none (i + 1) (slidePicture (wipeSceneParts s) (i + 1)) (leadWindow s)))

theorem wipeTimeline_succ (s : SceneSpec α) (k : ℕ) : wipeTimeline s (k + 1) =
    ((SlideWindows.ofSlide s (k + 1) 0).body.map
      (cutPicture (bodyZoom s) 0 (slidePicture (wipeSceneParts s) 0))).toList ++
    (List.range k).flatMap fun i =>
      wipePicture s i (cutPicture none i (slidePicture (wipeSceneParts s) i) (tailWindow s))
        (cutPicture none (i + 1) (slidePicture (wipeSceneParts s) (i + 1)) (leadWindow s)) ::
      ((SlideWindows.ofSlide s (k + 1) (i + 1)).body.map
        (cutPicture (bodyZoom s) (i + 1) (slidePicture (wipeSceneParts s) (i + 1)))).toList := by
  rw [wipeTimeline, Nat.add_sub_cancel, List.range_succ_eq_map, List.map_cons, List.map_map,
    weave_cons_of_length_eq _ (by simp), List.zip_map', List.flatMap_map]
  rfl

theorem wipeTimeline_ne_nil {s : SceneSpec α} {n : ℕ} (hn : 0 < n)
    (hcount : ∀ i < n, 0 < (SlideWindows.ofSlide s n i).count) : wipeTimeline s n ≠ [] := by
  obtain ⟨k, rfl⟩ := Nat.exists_eq_succ_of_ne_zero (Nat.ne_of_gt hn)
  intro hnil
  rw [wipeTimeline_succ, List.append_eq_nil_iff] at hnil
  obtain ⟨hbody, htransitions⟩ := hnil
  cases k with
  | zero =>
      have hpos := hcount 0 (by omega)
      have hnone : (SlideWindows.ofSlide s 1 0).body = none := by simpa using hbody
      simp [SlideWindows.count, ofSlide_lead, ofSlide_tail, hnone] at hpos
  | succ k => simp [List.range_succ_eq_map] at htransitions

/-- The slides are made before they are joined. -/
theorem assembleCut_eq (s : SceneSpec α) (n : ℕ) : assembleCut s n = (do
    let scenes ← (do
      let labels ← labeler "scn"
      (Filter.combine labels (cutSceneParts s) 0).appendTo (inputs n) : Build (List Label))
    let video ← join (α := α) scenes
    return (video, Scalar.ofNat n * s.sceneDuration)) := by
  simp only [bind_assoc]
  rfl

theorem ends_assembleCut {s : SceneSpec α} {n : ℕ} (hn : 0 < n)
    (hlacks : ∀ i < n, ¬ Expression.Writable (cutSceneParts s) i → lacks) :
    (assembleCut s n).Ends {} lacks fun r g' =>
      g'.EndsJoined r.1 ((List.range n).map (slidePicture (cutSceneParts s))) ∧
      Holds (inputs n)
        [(r.1, .joined ((List.range n).map (slidePicture (cutSceneParts s))))] g' ∧
      (∀ i < n, Expression.Writable (cutSceneParts s) i) ∧
      r.2 = Scalar.ofNat n * s.sceneDuration := by
  rw [assembleCut_eq]
  refine (ends_slides hn (cutSceneParts s) trivial hlacks).bind ?_
  rintro _ g₁ ⟨held, rfl, h, hheld, hwritable⟩
  rw [← List.append_nil held] at h
  have hne : held ≠ [] := by
    rintro rfl
    simp [Nat.ne_of_gt hn] at hheld
  refine (ends_join (α := α) h hne).bind fun video g₂ ⟨hlast, h₂⟩ => Build.ends_pure ?_
  rw [hheld] at hlast h₂
  exact ⟨hlast, h₂, hwritable, rfl⟩

theorem zipIdx_map_eq {β γ δ : Type} {xs : List β} {f : β → γ} {y : ℕ → γ} {F : ℕ → γ → δ} {n : ℕ}
    (h : xs.map f = (List.range' 0 n).map y) :
    (xs.zipIdx.map fun x => F x.2 (f x.1)) = (List.range n).map fun i => F i (y i) := by
  have hmap : (xs.zipIdx.map fun x => F x.2 (f x.1)) = (xs.map f).zipIdx.map fun x => F x.2 x.1 := by
    simp [List.zipIdx_map, Function.comp_def]
  rw [hmap, h]
  exact List.ext_getElem (by simp) fun i hi hi' => by simp

theorem map_body_of_shows {s : SceneSpec α} {n : ℕ} {shown : ℕ → Picture} {cs : List HeldCuts}
    (h : List.Forall₂ (fun j (c : HeldCuts) => c.Shows s n j (shown j)) (List.range' 0 n) cs) :
    (cs.map HeldCuts.body).map (Option.map Prod.snd) = (List.range n).map fun i =>
      (SlideWindows.ofSlide s n i).body.map (cutPicture (bodyZoom s) i (shown i)) := by
  rw [← List.forall₂_eq_eq_eq, List.range_eq_range', List.map_map, List.forall₂_map_left_iff,
    List.forall₂_map_right_iff]
  exact h.flip.imp fun c j hc => hc.body

/-- Taken apart, the stretches are the boundaries and the bodies. -/
theorem perm_of_shows {s : SceneSpec α} {n : ℕ} (hn : 0 < n) {shown : ℕ → Picture}
    {cs : List HeldCuts}
    (h : List.Forall₂ (fun j (c : HeldCuts) => c.Shows s n j (shown j)) (List.range' 0 n) cs)
    (hlinked : Linked cs) :
    (cs.flatMap HeldCuts.all).Perm (((boundaries cs).flatMap fun x => [x.1, x.2]) ++
      cs.flatMap fun c => c.body.toList) := by
  obtain ⟨k, rfl⟩ := Nat.exists_eq_succ_of_ne_zero (Nat.ne_of_gt hn)
  rw [List.range'_succ] at h
  obtain ⟨c, cs, hc, -, rfl⟩ := List.forall₂_cons_left_iff.mp h
  have hlead := hc.lead
  rw [ofSlide_lead, if_neg (by omega)] at hlead
  have hnone : c.lead = none := by simpa using hlead
  have hperm := perm_boundaries hlinked
  rw [hnone] at hperm
  exact hperm

/-- The streams that are joined are the bodies and the transitions. -/
theorem interleave_labels (cs : List HeldCuts) (ts : List (Label × Picture)) :
    interleave ((cs.map HeldCuts.labels).map SlideCuts.body) (ts.map Prod.fst) =
      (weave (cs.map HeldCuts.body) ts).map Prod.fst := by
  rw [interleave_eq_weave, ← weave_map, List.map_map, List.map_map]
  rfl

/-- The bodies and the transitions show the slides one after another. -/
theorem weave_eq_wipeTimeline {s : SceneSpec α} {n : ℕ} {cs : List HeldCuts}
    {ts : List (Label × Picture)}
    (h : List.Forall₂ (fun j (c : HeldCuts) => c.Shows s n j (slidePicture (wipeSceneParts s) j))
      (List.range' 0 n) cs)
    (hts : ts.map Prod.snd =
      (boundaries cs).zipIdx.map fun x => wipePicture s x.2 x.1.1.2 x.1.2.2) :
    (weave (cs.map HeldCuts.body) ts).map Prod.snd = wipeTimeline s n := by
  obtain ⟨-, hpictures⟩ := linked_of_shows h (by omega)
  rw [zipIdx_map_eq (F := fun i x => wipePicture s i x.1 x.2) hpictures] at hts
  rw [← weave_map, map_body_of_shows h, hts]
  rfl

theorem holds_weave {cs : List HeldCuts} {ts : List (Label × Picture)}
    (hshort : ts.length ≤ cs.length)
    (h : Holds sources (ts ++ cs.flatMap fun c => c.body.toList) g) :
    Holds sources (weave (cs.map HeldCuts.body) ts) g := by
  have hperm := weave_perm (cs.map HeldCuts.body) ts (by rwa [List.length_map])
  rw [List.flatMap_map] at hperm
  exact h.perm hperm

/-- The transitions are made before anything is joined. -/
theorem assembleWipe_eq (s : SceneSpec α) (n : ℕ) : assembleWipe s n = (do
    let scenes ← (do
      let labels ← labeler "scn"
      (Filter.combine labels (wipeSceneParts s) 0).appendTo (inputs n) : Build (List Label))
    let cuts ← cutSlides s n 0 scenes
    let pairs ← boundaryPairs cuts
    let transitions ← (if pairs.isEmpty then pure [] else do
      let labels ← labeler "wip"
      (Filter.overlayWipe labels s.transitionDuration s.wipe).appendTo pairs : Build (List Label))
    let video ← join (α := α) (interleave (cuts.map SlideCuts.body) transitions)
    return (video, bodiesDuration s n +
      Scalar.ofNat transitions.length * s.transitionDuration)) := by
  unfold assembleWipe wipeSceneParts
  simp only [bind_assoc]
  refine bind_congr fun labels => bind_congr fun scenes => bind_congr fun cuts =>
    bind_congr fun pairs => ?_
  split <;> simp only [bind_assoc]

theorem ends_assembleWipe {s : SceneSpec α} {n : ℕ} (hn : 0 < n)
    (hcount : ∀ i < n, 0 < (SlideWindows.ofSlide s n i).count)
    (hzoom : ∀ i < n, ∀ w ∈ (SlideWindows.ofSlide s n i).body,
      ¬ Expression.Writable (cutParts w (bodyZoom s)) i → lacks)
    (hwipe : ∀ i < n - 1, ∀ e, s.wipe.pick i = .error e → lacks) :
    (assembleWipe s n).Ends {} lacks fun r g' =>
      g'.EndsJoined r.1 (wipeTimeline s n) ∧
      Holds (inputs n) [(r.1, .joined (wipeTimeline s n))] g' ∧
      (∀ i < n, ∀ w ∈ (SlideWindows.ofSlide s n i).body,
        Expression.Writable (cutParts w (bodyZoom s)) i) ∧
      (∀ i < n - 1, s.wipe.pick i = .ok (s.wipe.drawn .leftToRight i)) ∧
      r.2 = bodiesDuration s n + Scalar.ofNat (n - 1) * s.transitionDuration := by
  rw [assembleWipe_eq]
  refine (ends_slides hn (wipeSceneParts s) trivial
    fun i _ h => (h (Expression.writable_iff.mpr ⟨_, rfl⟩)).elim).bind ?_
  rintro _ g₁ ⟨scenes, rfl, h₁, hscenes, -⟩
  have hlength : scenes.length = n := by simpa using congrArg List.length hscenes
  rw [← List.append_nil scenes] at h₁
  have hslides : ∀ j ∈ List.range' 0 scenes.length, j < n := fun j hj => by
    simpa [hlength] using List.mem_range'_1.mp hj
  refine (ends_cutSlides (i := 0) (slidePicture (wipeSceneParts s))
    (by rw [hscenes, hlength, List.range_eq_range']; rfl) h₁
    (fun j hj => hcount j (hslides j hj)) fun j hj => hzoom j (hslides j hj)).bind ?_
  rintro _ g₂ ⟨cs, rfl, h₂, hall⟩
  rw [hlength] at hall
  rw [List.append_nil] at h₂
  obtain ⟨hlinked, hpictures⟩ := linked_of_shows hall (by omega)
  have hpairs : (boundaries cs).length = n - 1 := by simpa using congrArg List.length hpictures
  rw [boundaryPairs_eq hlinked, pure_bind]
  refine (ends_transitions (h₂.perm (perm_of_shows hn hall hlinked).symm)
    fun i hi => hwipe i (hpairs ▸ hi)).bind ?_
  rintro _ g₃ ⟨ts, rfl, h₃, hts, hdrawn⟩
  have hcs : cs.length = n := by simpa using hall.length_eq.symm
  have hlengths : ts.length = n - 1 := by
    simpa [hpairs] using congrArg List.length hts
  have hwoven := weave_eq_wipeTimeline hall hts
  have h₄ := holds_weave (by omega) h₃
  rw [← List.append_nil (weave _ ts)] at h₄
  rw [interleave_labels]
  have hne : weave (cs.map HeldCuts.body) ts ≠ [] :=
    fun hnil => wipeTimeline_ne_nil hn hcount (by rw [← hwoven, hnil]; rfl)
  refine (ends_join (α := α) h₄ hne).bind fun video g₅ ⟨hlast, h₅⟩ => ?_
  rw [hwoven] at hlast h₅
  refine Build.ends_pure ⟨hlast, h₅, ?_, ?_, ?_⟩
  · have hwritable := ((List.forall₂_and_left _ _).mp (hall.imp fun j c hc => ⟨hc.writable, hc⟩)).1
    exact fun i hi => hwritable i (by simpa using hi)
  · exact fun i hi => hdrawn i (hpairs ▸ hi)
  · simp [hlengths]

end Scene

end Slideshow
