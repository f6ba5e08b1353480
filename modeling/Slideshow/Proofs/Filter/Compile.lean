import Slideshow.Proofs.Filter.Build
import Slideshow.Proofs.Program.Result
import Mathlib.Data.List.Forall2

/-! # What filters give

Every filter takes streams that are held and gives new ones, which show what the filter makes of
them. A filter fails only where a direction is to be chosen and there is none. -/

namespace Slideshow

variable {α : Type} [Scalar α]

/-! ## Expressions for one stream -/

namespace Expression

/-- The text of some expressions for the stream at a position, where there is one. -/
def written (parts : List (Expression α)) (i : ℕ) : String :=
  ((sequence parts).text i).toOption.getD ""

/-- The expressions can be written for the stream at a position. -/
def Writable (parts : List (Expression α)) (i : ℕ) : Prop :=
  (sequence parts).text i = .ok (written parts i)

/-- These are the texts of the expressions for the stream at a position. -/
abbrev Spells (i : ℕ) : List (Expression α) → List String → Prop :=
  List.Forall₂ fun part t => part.text i = .ok t

/-- The first expression scales or cuts. -/
def Begins : List (Expression α) → Prop
  | .scale _ _ :: _ | .segment _ _ :: _ => True
  | _ => False

variable {parts : List (Expression α)} {i : ℕ} {t : String}

theorem writable_iff : Writable parts i ↔ ∃ t, (sequence parts).text i = .ok t := by
  refine ⟨fun h => ⟨_, h⟩, fun ⟨t, ht⟩ => ?_⟩
  rw [Writable, written, ht]
  rfl

theorem exists_error (h : ¬ Writable parts i) : ∃ e, (sequence parts).text i = .error e := by
  cases ht : (sequence parts).text i with
  | ok t => exact (h (writable_iff.mpr ⟨t, ht⟩)).elim
  | error e => exact ⟨e, rfl⟩

theorem texts_eq_ok_iff {ts : List String} :
    texts i parts = .ok ts ↔ Spells i parts ts := by
  induction parts generalizing ts with
  | nil =>
      rw [texts, Spells, List.forall₂_nil_left_iff]
      exact ⟨fun h => (Except.ok.inj h).symm, fun h => by rw [h]⟩
  | cons part parts ih =>
      rw [texts, Spells, List.forall₂_cons_left_iff]
      constructor
      · intro h
        cases hpart : part.text i with
        | error e =>
            rw [hpart] at h
            cases h
        | ok t =>
            cases hrest : texts i parts with
            | error e =>
                rw [hpart, hrest] at h
                cases h
            | ok ts' =>
                rw [hpart, hrest] at h
                exact ⟨t, ts', rfl, ih.mp hrest, (Except.ok.inj h).symm⟩
      · rintro ⟨t, ts', hpart, hrest, rfl⟩
        rw [hpart, ih.mpr hrest]
        rfl

/-- The texts of several expressions are separated by commas. -/
theorem text_sequence_eq_ok_iff : (sequence parts).text i = .ok t ↔
    ∃ ts, Spells i parts ts ∧ t = ",".intercalate ts := by
  simp only [← texts_eq_ok_iff]
  rw [text]
  cases texts i parts with
  | error e => exact ⟨(fun h => nomatch h), (fun ⟨_, h, _⟩ => nomatch h)⟩
  | ok ts =>
      constructor
      · exact fun h => ⟨ts, rfl, (Except.ok.inj h).symm⟩
      · rintro ⟨ts', h, rfl⟩
        rw [Except.ok.inj h]
        rfl

theorem text_panZoom_eq_ok_iff {zoom : PanZoom α} : (panZoom zoom).text i = .ok t ↔
    ∃ direction, zoom.directions.pick i = .ok direction ∧ t = zoom.text direction := by
  rw [text]
  cases zoom.directions.pick i with
  | error e => exact ⟨(fun h => nomatch h), (fun ⟨_, h, _⟩ => nomatch h)⟩
  | ok direction =>
      constructor
      · exact fun h => ⟨direction, rfl, (Except.ok.inj h).symm⟩
      · rintro ⟨_, h, rfl⟩
        rw [Except.ok.inj h]
        rfl

theorem written_eq {ts : List String}
    (h : Spells i parts ts) :
    written parts i = ",".intercalate ts := by
  rw [written, text_sequence_eq_ok_iff.mpr ⟨ts, h, rfl⟩]
  rfl

theorem writable_of_forall (h : ∀ part ∈ parts, ∃ t, part.text i = .ok t) : Writable parts i := by
  have hall : ∃ ts, Spells i parts ts := by
    induction parts with
    | nil => exact ⟨[], .nil⟩
    | cons part parts ih =>
        obtain ⟨t, ht⟩ := h part List.mem_cons_self
        obtain ⟨ts, hts⟩ := ih fun part' hpart' => h part' (List.mem_cons_of_mem _ hpart')
        exact ⟨t :: ts, .cons ht hts⟩
  obtain ⟨ts, hts⟩ := hall
  exact writable_iff.mpr ⟨_, text_sequence_eq_ok_iff.mpr ⟨ts, hts, rfl⟩⟩

theorem exists_text_of_writable (h : Writable parts i) {part : Expression α}
    (hpart : part ∈ parts) : ∃ t, part.text i = .ok t := by
  obtain ⟨ts, hts, -⟩ := text_sequence_eq_ok_iff.mp h
  have hall : List.Forall₂ (fun part t => (∃ t, part.text i = .ok t) ∧ part.text i = .ok t)
      parts ts := hts.imp fun part t ht => ⟨⟨t, ht⟩, ht⟩
  exact ((List.forall₂_and_left _ _).mp hall).1 part hpart

theorem exists_name_scaleText (width height : ℕ) :
    ∃ rest, (scaleText width height).toList = "scale".toList ++ '=' :: rest := by
  simp only [scaleText, String.toList_append, List.append_assoc]
  exact ⟨_, rfl⟩

theorem exists_name_segment (start stop : α) :
    ∃ rest, ("trim=start=" ++ Scalar.filterText start ++ ":end=" ++
      Scalar.filterText stop).toList = "trim".toList ++ '=' :: rest := by
  simp only [String.toList_append, List.append_assoc]
  exact ⟨_, rfl⟩

/-- The name is read off the first expression. -/
theorem name_of_first {op : Operation} {part : Expression α} {first word : String}
    {rest : List Char} (hpart : part.text i = .ok first)
    (hfirst : first.toList = word.toList ++ '=' :: rest) (hword : '=' ∉ word.toList)
    (ht : (sequence (part :: parts)).text i = .ok op.expression) : op.name = word.toList := by
  obtain ⟨ts, hts, hexpression⟩ := text_sequence_eq_ok_iff.mp ht
  obtain ⟨first', ts, hfirst', -, rfl⟩ := List.forall₂_cons_left_iff.mp hts
  cases hpart.symm.trans hfirst'
  obtain ⟨tail, htail⟩ : ∃ tail, op.expression.toList = first.toList ++ tail := by
    rw [hexpression]
    cases ts with
    | nil => exact ⟨[], by simp⟩
    | cons t ts =>
        simp only [String.intercalate_cons_cons, String.toList_append, List.append_assoc]
        exact ⟨_, rfl⟩
  refine Operation.name_eq ⟨rest ++ tail, ?_⟩ hword
  rw [htail, hfirst, List.append_assoc, List.cons_append]

theorem name_of_begins {op : Operation} (hparts : Begins parts)
    (ht : (sequence parts).text i = .ok op.expression) :
    op.name = "scale".toList ∨ op.name = "trim".toList := by
  match parts, hparts with
  | .scale width height :: parts, _ =>
      obtain ⟨rest, hrest⟩ := exists_name_scaleText width height
      exact .inl (name_of_first rfl hrest (by decide) ht)
  | .segment start stop :: parts, _ =>
      obtain ⟨rest, hrest⟩ := exists_name_segment start stop
      exact .inr (name_of_first rfl hrest (by decide) ht)

end Expression

/-- An operation that scales or cuts one stream. -/
theorem Operation.fits_single {l l' : Label} {p : Picture} {t : String}
    (hname : (⟨[l], t, [l']⟩ : Operation).name = "scale".toList ∨
      (⟨[l], t, [l']⟩ : Operation).name = "trim".toList) :
    Operation.Fits ⟨[l], t, [l']⟩ [(l, p)] := by
  have hother : ∀ word : List Char, word ≠ "scale".toList → word ≠ "trim".toList →
      (⟨[l], t, [l']⟩ : Operation).name ≠ word := by
    rintro word hscale htrim rfl
    exact hname.elim hscale htrim
  refine ⟨rfl, by simp, by simp, by simp, ?_, ?_, ?_⟩
  · exact fun h => (hother _ (by decide) (by decide) h).elim
  · exact fun h => (hother _ (by decide) (by decide) h).elim
  · exact fun h => (hother _ (by decide) (by decide) h).elim

/-! ## Directions -/

namespace Variants

variable {τ : Type} {variants : Variants τ} {i : ℕ}

/-- The variant of the stream at a position, and another one where there is none. -/
def drawn (variants : Variants τ) (other : τ) (i : ℕ) : τ :=
  (variants.pick i).toOption.getD other

theorem pick_eq_drawn {v : τ} (other : τ) (h : variants.pick i = .ok v) :
    variants.pick i = .ok (variants.drawn other i) := by
  rw [drawn, h]
  rfl

end Variants

/-! ## Filters -/

section Combined

variable {labels : Labeler} {parts : List (Expression α)} {first : ℕ}
  {ins : List (Label × Picture)}

/-- What the expressions make of one stream. -/
def Operation.combined (labels : Labeler) (parts : List (Expression α)) (first : ℕ)
    (s : Label × Picture) (i : ℕ) : Operation :=
  ⟨[s.1], Expression.written parts (first + i), [labels.label i]⟩

theorem Operation.name_combined (hparts : Expression.Begins parts) (s : Label × Picture) {i : ℕ}
    (hwritable : Expression.Writable parts (first + i)) :
    (Operation.combined labels parts first s i).name = "scale".toList ∨
      (Operation.combined labels parts first s i).name = "trim".toList :=
  Expression.name_of_begins hparts hwritable

theorem Filter.compile_combine (hins : ins ≠ []) (hparts : Expression.Begins parts) :
    (Filter.combine labels parts first).compile (ins.map Prod.fst) = do
      let ops ← ins.zipIdx.mapM fun x => do
        let expression ← (Expression.sequence parts).text (first + x.2)
        return (⟨[x.1.1], expression, [labels.label x.2]⟩ : Operation)
      return ⟨ops, ops.flatMap Operation.outputs⟩ := by
  have hnil : (ins.map Prod.fst).isEmpty = false := by simpa using hins
  have hparts' : parts.isEmpty = false := by
    cases parts with
    | nil => exact hparts.elim
    | cons _ _ => rfl
  simp only [Filter.compile, Filter.compileCombine, hnil, hparts', Bool.false_eq_true, if_false,
    List.zipIdx_map, List.mapM_map]
  rfl

theorem Filter.compile_combine_eq_ok (hins : ins ≠ []) (hparts : Expression.Begins parts)
    (hall : ∀ i < ins.length, Expression.Writable parts (first + i)) :
    (Filter.combine labels parts first).compile (ins.map Prod.fst) =
      .ok ⟨ins.zipIdx.map fun x => .combined labels parts first x.1 x.2,
        (ins.zipIdx.map fun x => Operation.combined labels parts first x.1 x.2).flatMap
          Operation.outputs⟩ := by
  rw [compile_combine hins hparts,
    mapM_eq_ok (y := fun x => Operation.combined labels parts first x.1 x.2)]
  · rfl
  · intro x hx
    rw [hall x.2 (List.snd_lt_of_mem_zipIdx hx)]
    rfl

theorem Filter.exists_compile_combine_eq_error (hparts : Expression.Begins parts) {i : ℕ}
    (hi : i < ins.length) (h : ¬ Expression.Writable parts (first + i)) :
    ∃ e, (Filter.combine labels parts first).compile (ins.map Prod.fst) = .error e := by
  obtain ⟨e, he⟩ := Expression.exists_error h
  have hmem : (ins[i], i) ∈ ins.zipIdx := List.mem_zipIdx_iff_getElem?.mpr (by simp [hi])
  obtain ⟨e', he'⟩ : ∃ e', (ins.zipIdx.mapM fun x => do
      let expression ← (Expression.sequence parts).text (first + x.2)
      return (⟨[x.1.1], expression, [labels.label x.2]⟩ : Operation)) = .error e' :=
    exists_mapM_eq_error hmem (by simp only [he]; rfl)
  refine ⟨e', ?_⟩
  rw [compile_combine (List.length_pos_iff.mp (Nat.zero_lt_of_lt hi)) hparts, he']
  rfl

end Combined

namespace Graph.Holds

variable {sources : List Label} {ins rest : List (Label × Picture)} {g : Graph} {lacks : Prop}
  {labels : Labeler}

/-- Operations that give one stream each. -/
theorem appendEach {ι : Type} {xs : List ι} {op : ι → ℕ → Operation}
    {of : ι → List (Label × Picture)} {filter : Filter α} (hfresh : g.Fresh labels)
    (h : Holds sources (xs.flatMap of ++ rest) g)
    (hcompile : filter.compile ((xs.flatMap of).map Prod.fst) =
      .ok ⟨xs.zipIdx.map fun x => op x.1 x.2,
        (xs.zipIdx.map fun x => op x.1 x.2).flatMap Operation.outputs⟩)
    (houtputs : ∀ x i, (op x i).outputs = [labels.label i])
    (hfits : ∀ x ∈ xs.zipIdx, (op x.1 x.2).Fits (of x.1)) :
    (filter.appendTo ((xs.flatMap of).map Prod.fst)).Ends g lacks fun outs g' =>
      ∃ held, outs = held.map Prod.fst ∧ Holds sources (held ++ rest) g' ∧
        held.map Prod.snd =
          xs.zipIdx.map fun x => (op x.1 x.2).picture ((of x.1).map Prod.snd) := by
  let steps : List (Operation × List (Label × Picture)) :=
    xs.zipIdx.map fun x => (op x.1 x.2, of x.1)
  have hops : steps.map Prod.fst = xs.zipIdx.map fun x => op x.1 x.2 := by
    simp [steps, Function.comp_def]
  have hof : steps.flatMap Prod.snd = xs.flatMap of := by
    have hxs : xs.flatMap of = (xs.zipIdx.map Prod.fst).flatMap of := by rw [List.zipIdx_map_fst]
    rw [hxs, List.flatMap_map, List.flatMap_map]
  have hlabels : (steps.map Prod.fst).flatMap Operation.outputs =
      (List.range' 0 xs.length).map labels.label := by
    rw [hops, List.flatMap_map, ← List.zipIdx_map_snd 0 xs, List.map_map, List.map_eq_flatMap]
    simp only [houtputs, Function.comp_apply]
  have hfits' : ∀ s ∈ steps, s.1.Fits s.2 := by
    intro s hs
    obtain ⟨x, hx, rfl⟩ := List.mem_map.mp hs
    exact hfits x hx
  refine (appendTo hfresh (hops ▸ hcompile) hof h hfits' ?_ ?_).mono
    fun outs g' ⟨houts, _, h'⟩ => ⟨_, houts, h', ?_⟩
  · rw [hlabels]
    exact (List.nodup_range' ..).map fun _ _ => Labeler.label_inj
  · intro l hl
    rw [hlabels] at hl
    obtain ⟨i, -, rfl⟩ := List.mem_map.mp hl
    exact ⟨i, rfl⟩
  · rw [List.flatMap_map, List.map_flatMap, List.map_eq_flatMap]
    simp [Operation.gives, houtputs]

/-- The same is made of every stream. -/
theorem combine (hfresh : g.Fresh labels) (h : Holds sources (ins ++ rest) g) (hins : ins ≠ [])
    {parts : List (Expression α)} (hparts : Expression.Begins parts) {first : ℕ}
    (hlacks : ∀ i < ins.length, ¬ Expression.Writable parts (first + i) → lacks) :
    ((Filter.combine labels parts first).appendTo (ins.map Prod.fst)).Ends g lacks fun outs g' =>
      ∃ held, outs = held.map Prod.fst ∧ Holds sources (held ++ rest) g' ∧
        held.map Prod.snd = (ins.zipIdx.map fun x =>
          .made (Expression.written parts (first + x.2)) [x.1.2]) ∧
        ∀ i < ins.length, Expression.Writable parts (first + i) := by
  by_cases hall : ∀ i < ins.length, Expression.Writable parts (first + i)
  · have hname : ∀ x ∈ ins.zipIdx,
        (Operation.combined labels parts first x.1 x.2).name = "scale".toList ∨
          (Operation.combined labels parts first x.1 x.2).name = "trim".toList := fun x hx =>
      Operation.name_combined hparts x.1 (hall x.2 (List.snd_lt_of_mem_zipIdx hx))
    have hins' : ins.flatMap (fun s => [s]) = ins := by simp
    have hok : (Filter.combine labels parts first).compile
        ((ins.flatMap fun s => [s]).map Prod.fst) =
          .ok ⟨ins.zipIdx.map fun x => Operation.combined labels parts first x.1 x.2,
            (ins.zipIdx.map fun x => Operation.combined labels parts first x.1 x.2).flatMap
              Operation.outputs⟩ := by
      rw [hins', Filter.compile_combine_eq_ok hins hparts hall]
    rw [← hins'] at h
    have hends : Build.Ends _ g lacks _ := h.appendEach hfresh hok (fun _ _ => rfl) fun x hx =>
      Operation.fits_single (hname x hx)
    rw [hins'] at hends
    refine hends.mono fun outs g' ⟨held, houts, h', hheld⟩ => ⟨held, houts, h', ?_, hall⟩
    rw [hheld]
    refine List.map_congr_left fun x hx => Operation.picture_of_name ?_ _
    rcases hname x hx with hx | hx <;> rw [hx] <;> decide
  · push Not at hall
    obtain ⟨i, hi, hunwritable⟩ := hall
    obtain ⟨e, he⟩ := Filter.exists_compile_combine_eq_error hparts hi hunwritable
    rw [Filter.appendTo, he]
    exact hlacks i hi hunwritable

end Graph.Holds

section OverlayPairs

variable {labels : Labeler} {duration : α} {directions : Variants WipeDirection}
  {pairs : List ((Label × Picture) × (Label × Picture))}

/-- The second stream of a pair moves over the first. -/
def Operation.overlay (labels : Labeler) (duration : α) (directions : Variants WipeDirection)
    (x : (Label × Picture) × (Label × Picture)) (i : ℕ) : Operation :=
  ⟨[x.1.1, x.2.1], "overlay=" ++
    Filter.position duration (directions.drawn .leftToRight i) ++ ":shortest=1", [labels.label i]⟩

theorem overlayPairs_eq_ok {i : ℕ}
    (h : ∀ x ∈ pairs.zipIdx i, ∃ d, directions.pick x.2 = .ok d) :
    Filter.overlayPairs labels duration directions i
      ((pairs.flatMap fun x => [x.1, x.2]).map Prod.fst) =
      .ok ((pairs.zipIdx i).map fun x => .overlay labels duration directions x.1 x.2) := by
  induction pairs generalizing i with
  | nil => rfl
  | cons x pairs ih =>
      rw [List.zipIdx_cons] at h ⊢
      obtain ⟨d, hd⟩ := h (x, i) List.mem_cons_self
      have hd := Variants.pick_eq_drawn .leftToRight hd
      simp only [List.flatMap_cons, List.map_cons, List.cons_append, List.nil_append,
        Filter.overlayPairs, hd, ih fun x' hx' => h x' (List.mem_cons_of_mem _ hx')]
      rfl

theorem exists_overlayPairs_eq_error {i : ℕ} {x} {e : GraphError} (hx : x ∈ pairs.zipIdx i)
    (h : directions.pick x.2 = .error e) :
    ∃ e', Filter.overlayPairs labels duration directions i
      ((pairs.flatMap fun x => [x.1, x.2]).map Prod.fst) = .error e' := by
  induction pairs generalizing i with
  | nil => cases hx
  | cons y pairs ih =>
      rw [List.zipIdx_cons] at hx
      simp only [List.flatMap_cons, List.map_cons, List.cons_append, List.nil_append,
        Filter.overlayPairs]
      cases hd : directions.pick i with
      | error e' => exact ⟨e', rfl⟩
      | ok d =>
          rcases List.mem_cons.mp hx with rfl | hx
          · cases h.symm.trans hd
          · obtain ⟨e', he'⟩ := ih hx
            exact ⟨e', by rw [he']; rfl⟩

theorem Filter.compile_overlayWipe (hpairs : pairs ≠ []) :
    (Filter.overlayWipe labels duration directions).compile
      ((pairs.flatMap fun x => [x.1, x.2]).map Prod.fst) = do
      let ops ← Filter.overlayPairs labels duration directions 0
        ((pairs.flatMap fun x => [x.1, x.2]).map Prod.fst)
      return ⟨ops, ops.flatMap Operation.outputs⟩ := by
  have hlength : ((pairs.flatMap fun x => [x.1, x.2]).map Prod.fst).length = 2 * pairs.length := by
    simp [List.length_flatMap, Nat.mul_comm]
  have hpos := List.length_pos_iff.mpr hpairs
  have hnil : ((pairs.flatMap fun x => [x.1, x.2]).map Prod.fst).isEmpty = false := by
    rw [List.isEmpty_eq_false_iff, ← List.length_pos_iff, hlength]
    omega
  have heven : ¬ ((pairs.flatMap fun x => [x.1, x.2]).map Prod.fst).length % 2 ≠ 0 := by
    rw [hlength]
    omega
  rw [Filter.compile, Filter.compileOverlay, hnil, if_neg Bool.false_ne_true, if_neg heven]

variable (labels duration) in
theorem Filter.compile_overlayWipe_eq_ok (hpairs : pairs ≠ [])
    (hall : ∀ i < pairs.length, ∃ d, directions.pick i = .ok d) :
    (Filter.overlayWipe labels duration directions).compile
      ((pairs.flatMap fun x => [x.1, x.2]).map Prod.fst) =
      .ok ⟨pairs.zipIdx.map fun x => .overlay labels duration directions x.1 x.2,
        (pairs.zipIdx.map fun x => Operation.overlay labels duration directions x.1 x.2).flatMap
          Operation.outputs⟩ := by
  rw [compile_overlayWipe hpairs,
    overlayPairs_eq_ok fun x hx => hall x.2 (List.snd_lt_of_mem_zipIdx hx)]
  rfl

variable (labels duration) in
theorem Filter.exists_compile_overlayWipe_eq_error {i : ℕ} {e : GraphError} (hi : i < pairs.length)
    (h : directions.pick i = .error e) : ∃ e', (Filter.overlayWipe labels duration
      directions).compile ((pairs.flatMap fun x => [x.1, x.2]).map Prod.fst) = .error e' := by
  have hmem : (pairs[i], i) ∈ pairs.zipIdx := List.mem_zipIdx_iff_getElem?.mpr (by simp [hi])
  obtain ⟨e', he'⟩ : ∃ e', Filter.overlayPairs labels duration directions 0
      ((pairs.flatMap fun x => [x.1, x.2]).map Prod.fst) = .error e' :=
    exists_overlayPairs_eq_error hmem h
  refine ⟨e', ?_⟩
  rw [compile_overlayWipe (List.length_pos_iff.mp (Nat.zero_lt_of_lt hi)), he']
  rfl

theorem Operation.name_overlay (x : (Label × Picture) × (Label × Picture)) (i : ℕ) :
    (Operation.overlay labels duration directions x i).name = "overlay".toList := by
  refine Operation.name_eq ?_ (by decide)
  simp only [overlay, String.toList_append, List.append_assoc]
  exact ⟨_, rfl⟩

theorem Operation.fits_overlay (x : (Label × Picture) × (Label × Picture)) (i : ℕ) :
    (Operation.overlay labels duration directions x i).Fits [x.1, x.2] := by
  refine ⟨rfl, by simp [overlay], by simp [overlay], by simp [overlay], ?_, ?_, fun _ => ⟨rfl, rfl⟩⟩
  · exact fun h => absurd ((name_overlay x i).symm.trans h) (by decide)
  · exact fun h => absurd ((name_overlay x i).symm.trans h) (by decide)

end OverlayPairs

namespace Graph.Holds

variable {sources : List Label} {ins rest : List (Label × Picture)} {g : Graph} {lacks : Prop}
  {labels : Labeler}

/-- Of each pair of streams, the second is overlaid over the first. -/
theorem overlayWipe {pairs : List ((Label × Picture) × (Label × Picture))} {duration : α}
    {directions : Variants WipeDirection} (hfresh : g.Fresh labels)
    (h : Holds sources ((pairs.flatMap fun x => [x.1, x.2]) ++ rest) g) (hpairs : pairs ≠ [])
    (hlacks : ∀ i < pairs.length, ∀ e, directions.pick i = .error e → lacks) :
    ((Filter.overlayWipe labels duration directions).appendTo
      ((pairs.flatMap fun x => [x.1, x.2]).map Prod.fst)).Ends g lacks fun outs g' =>
      ∃ held, outs = held.map Prod.fst ∧ Holds sources (held ++ rest) g' ∧
        held.map Prod.snd = (pairs.zipIdx.map fun x => .made ("overlay=" ++
          Filter.position duration (directions.drawn .leftToRight x.2) ++ ":shortest=1")
          [x.1.1.2, x.1.2.2]) ∧
        ∀ i < pairs.length, directions.pick i = .ok (directions.drawn .leftToRight i) := by
  by_cases hall : ∀ i < pairs.length, ∃ d, directions.pick i = .ok d
  · have hdrawn : ∀ i < pairs.length,
        directions.pick i = .ok (directions.drawn .leftToRight i) := fun i hi =>
      (hall i hi).elim fun _ hd => Variants.pick_eq_drawn .leftToRight hd
    have hok := Filter.compile_overlayWipe_eq_ok labels duration hpairs hall
    refine (h.appendEach hfresh hok (fun _ _ => rfl) fun x _ => Operation.fits_overlay x.1 x.2).mono
      fun outs g' ⟨held, houts, h', hheld⟩ => ⟨held, houts, h', ?_, hdrawn⟩
    rw [hheld]
    refine List.map_congr_left fun x _ => Operation.picture_of_name (fun hname => ?_) _
    exact absurd ((Operation.name_overlay x.1 x.2).symm.trans hname) (by decide)
  · push Not at hall
    obtain ⟨i, hi, hnone⟩ := hall
    cases hpick : directions.pick i with
    | ok d => exact (hnone d hpick).elim
    | error e =>
        obtain ⟨e', he'⟩ := Filter.exists_compile_overlayWipe_eq_error labels duration hi hpick
        rw [Filter.appendTo, he']
        exact hlacks i hi e hpick

/-- Copies show what was copied. -/
theorem split {s : Label × Picture} (hfresh : g.Fresh labels) (h : Holds sources (s :: rest) g)
    {k : ℕ} (hk : 0 < k) :
    ((Filter.split labels .video k : Filter α).appendTo [s.1]).Ends g lacks fun outs g' =>
      ∃ held, outs = held.map Prod.fst ∧ Holds sources (held ++ rest) g' ∧
        held.map Prod.snd = List.replicate k s.2 := by
  let op : Operation :=
    ⟨[s.1], "split=" ++ Decimal.natText k, (List.range k).map labels.label⟩
  have hname : op.name = "split".toList :=
    Operation.name_eq ⟨(Decimal.natText k).toList, by rw [String.toList_append]; rfl⟩ (by decide)
  have hshaped : op.Shaped := by
    refine ⟨fun h => ?_, fun _ => ⟨k, rfl, rfl, by simp [op]⟩, fun h => ?_⟩
    · exact absurd (hname.symm.trans h) (by decide)
    · exact absurd (hname.symm.trans h) (by decide)
  have hfits : ∀ x ∈ [(op, [s])], x.1.Fits x.2 := by
    rintro x hx
    cases List.mem_singleton.mp hx
    exact ⟨rfl, by simp [op], by simp [op, Nat.ne_of_gt hk],
      List.nodup_range.map fun _ _ => Labeler.label_inj, hshaped⟩
  have hok : (Filter.split labels .video k : Filter α).compile ([s].map Prod.fst) =
      .ok ⟨[(op, [s])].map Prod.fst, ([(op, [s])].map Prod.fst).flatMap Operation.outputs⟩ := by
    simp [Filter.compile, Filter.compileSplit, Nat.ne_of_gt hk, op, Filter.splitName]
  refine (appendTo hfresh hok rfl h hfits ?_ ?_).mono fun outs g' ⟨houts, _, h'⟩ =>
    ⟨_, houts, h', ?_⟩
  · simpa [op] using List.nodup_range.map fun _ _ => Labeler.label_inj
  · intro l hl
    obtain ⟨i, -, rfl⟩ : ∃ i, i < k ∧ labels.label i = l := by simpa [op] using hl
    exact ⟨i, rfl⟩
  · simp [Operation.gives, op, Operation.picture_of_split hname, Function.comp_def, List.map_const']

/-- Streams are joined in order. -/
theorem concat (hfresh : g.Fresh labels) (h : Holds sources (ins ++ rest) g) (hins : ins ≠ []) :
    ((Filter.concat labels .video ins.length : Filter α).appendTo (ins.map Prod.fst)).Ends g lacks
      fun outs g' => ∃ l, outs = [l] ∧ g'.EndsJoined l (ins.map Prod.snd) ∧
        Holds sources ((l, Picture.joined (ins.map Prod.snd)) :: rest) g' := by
  let op : Operation := ⟨ins.map Prod.fst,
    "concat=n=" ++ Decimal.natText ins.length ++ ":v=1:a=0", [labels.label 0]⟩
  have hname : op.name = "concat".toList := by
    refine Operation.name_eq ?_ (by decide)
    simp only [op, String.toList_append, List.append_assoc]
    exact ⟨_, rfl⟩
  have hshaped : op.Shaped := by
    refine ⟨fun _ => ⟨ins.length, rfl, by simp [op], rfl⟩, fun h => ?_, fun h => ?_⟩
    · exact absurd (hname.symm.trans h) (by decide)
    · exact absurd (hname.symm.trans h) (by decide)
  have hfits : ∀ x ∈ [(op, ins)], x.1.Fits x.2 := by
    rintro x hx
    cases List.mem_singleton.mp hx
    exact ⟨rfl, by simpa [op] using hins, by simp [op], by simp [op], hshaped⟩
  have hok : (Filter.concat labels .video ins.length : Filter α).compile (ins.map Prod.fst) =
      .ok ⟨[(op, ins)].map Prod.fst,
        ([(op, ins)].map Prod.fst).flatMap Operation.outputs⟩ := by
    simp [Filter.compile, Filter.compileConcat, hins, op]
  refine (appendTo hfresh hok (by simp) h hfits (by simp [op]) ?_).mono
    fun outs g' ⟨houts, hops, h'⟩ => ⟨labels.label 0, houts, ⟨ins.map Prod.fst, ?_, ?_⟩, ?_⟩
  · intro l hl
    exact ⟨0, by simpa [op] using hl⟩
  · rw [hops, List.length_map]
    simp [op]
  · rw [List.map_map]
    refine List.map_congr_left fun s hs => ?_
    have hmem : s ∈ ins ++ rest := List.mem_append_left _ hs
    have hnew : s.1 ∉ op.outputs := by
      simpa [op] using h.ne_label hfresh hmem 0
    rw [Function.comp_apply, picture_of_not_mem_outputs (g := g) hops hnew, h.shows s hmem]
  · have hpicture : op.picture (ins.map Prod.snd) = .made op.expression (ins.map Prod.snd) :=
      Operation.picture_of_name (fun h => absurd (hname.symm.trans h) (by decide)) _
    simpa [Operation.gives, op, hpicture, Picture.joined] using h'

end Graph.Holds

end Slideshow
