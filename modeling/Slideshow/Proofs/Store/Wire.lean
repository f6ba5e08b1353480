import Slideshow.Proofs.Json.Decoder
import Slideshow.Store.Client
import Mathlib.Data.String.Basic

/-! # Documents on the wire

What is written of a document is read back with the fields of all its maps sorted by name, whatever
their order was, if it is not nested too deep: reading sorts fields and counts levels. So a document
whose fields are sorted is read back as it was. -/

namespace Slideshow

open Json (Decoder Draft Record)

/-! ## Sorted fields -/

/-- Fields sorted by name, each name once. -/
def Fields.Sorted {α : Type} (fields : List (String × α)) : Prop :=
  fields.Pairwise fun f g => f.1 < g.1

namespace Json

variable {α : Type}

theorem lookup_insertSorted (key name : String) (value : α) (fields : List (String × α)) :
    (insertSorted key value fields).lookup name =
      if name = key then some value else fields.lookup name := by
  induction fields with
  | nil => exact lookup_cons_eq name key value []
  | cons first rest ih =>
      obtain ⟨k, v⟩ := first
      rw [insertSorted]
      by_cases hlt : key < k
      · rw [if_pos hlt, lookup_cons_eq]
      · rw [if_neg hlt]
        by_cases heq : key = k
        · subst heq
          simp only [if_pos, lookup_cons_eq]
          split <;> rfl
        · rw [if_neg heq, lookup_cons_eq, lookup_cons_eq, ih]
          by_cases hname : name = k
          · simp [hname, Ne.symm heq]
          · simp [hname]

/-- Fields that are sorted in one after another. -/
def insertAll (given there : List (String × α)) : List (String × α) :=
  given.foldl (fun sorted f => insertSorted f.1 f.2 sorted) there

/-- Where names differ, sorting in fields one after another keeps them all. -/
theorem lookup_insertAll {given : List (String × α)} (h : (given.map Prod.fst).Nodup)
    (there : List (String × α)) (name : String) :
    (insertAll given there).lookup name = (given.lookup name).or (there.lookup name) := by
  induction given generalizing there with
  | nil => simp [insertAll]
  | cons f rest ih =>
      obtain ⟨key, v⟩ := f
      rw [List.map_cons, List.nodup_cons] at h
      have hfirst : insertAll ((key, v) :: rest) there =
          insertAll rest (insertSorted key v there) := rfl
      rw [hfirst, ih h.2, lookup_insertSorted, lookup_cons_eq]
      by_cases hname : name = key
      · have hrest : rest.lookup name = none := by
          rw [hname, List.lookup_eq_none_iff]
          intro g hg
          exact bne_iff_ne.mpr fun hkey => h.1 (List.mem_map.mpr ⟨g, hg, hkey.symm⟩)
        rw [hrest, if_pos hname, if_pos hname, Option.none_or, Option.some_or]
      · rw [if_neg hname, if_neg hname]

theorem mem_insertSorted {key : String} {value : α} {fields : List (String × α)}
    {f : String × α} (h : f ∈ insertSorted key value fields) : f = (key, value) ∨ f ∈ fields := by
  induction fields with
  | nil => exact .inl (List.mem_singleton.mp h)
  | cons first rest ih =>
      obtain ⟨k, v⟩ := first
      rw [insertSorted] at h
      split at h
      · exact List.mem_cons.mp h
      · split at h
        · rcases List.mem_cons.mp h with h | h
          · exact .inl h
          · exact .inr (List.mem_cons_of_mem _ h)
        · rcases List.mem_cons.mp h with rfl | h
          · exact .inr List.mem_cons_self
          · exact (ih h).imp_right (List.mem_cons_of_mem _)

theorem sorted_insertSorted (key : String) (value : α) {fields : List (String × α)}
    (h : Fields.Sorted fields) : Fields.Sorted (insertSorted key value fields) := by
  induction fields with
  | nil => exact List.pairwise_singleton _ _
  | cons first rest ih =>
      obtain ⟨k, v⟩ := first
      obtain ⟨hfirst, hrest⟩ := List.pairwise_cons.mp h
      rw [insertSorted]
      split
      · rename_i hlt
        refine List.pairwise_cons.mpr ⟨fun f hf => ?_, h⟩
        rcases List.mem_cons.mp hf with rfl | hf
        · exact hlt
        · exact hlt.trans (hfirst f hf)
      · rename_i hlt
        split
        · rename_i heq
          subst heq
          exact List.pairwise_cons.mpr ⟨hfirst, hrest⟩
        · rename_i hne
          refine List.pairwise_cons.mpr ⟨fun f hf => ?_, ih hrest⟩
          rcases mem_insertSorted hf with rfl | hf
          · exact lt_of_le_of_ne (not_lt.mp hlt) (Ne.symm hne)
          · exact hfirst f hf

theorem sorted_insertAll (given : List (String × α)) {there : List (String × α)}
    (h : Fields.Sorted there) : Fields.Sorted (insertAll given there) := by
  induction given generalizing there with
  | nil => exact h
  | cons f rest ih => exact ih (sorted_insertSorted f.1 f.2 h)

/-- A field with a new name is put among the others. -/
theorem perm_insertSorted {key : String} (value : α) {fields : List (String × α)}
    (h : key ∉ fields.map Prod.fst) :
    (insertSorted key value fields).Perm ((key, value) :: fields) := by
  induction fields with
  | nil => exact .refl _
  | cons first rest ih =>
      obtain ⟨k, v⟩ := first
      rw [List.map_cons, List.mem_cons, not_or] at h
      rw [insertSorted]
      split
      · exact .refl _
      · rw [if_neg h.1]
        exact ((ih h.2).cons (k, v)).trans (.swap ..)

theorem perm_insertAll {given there : List (String × α)}
    (h : ((given ++ there).map Prod.fst).Nodup) : (insertAll given there).Perm (given ++ there) := by
  induction given generalizing there with
  | nil => exact .refl _
  | cons f rest ih =>
      rw [List.cons_append, List.map_cons, List.nodup_cons, List.map_append, List.mem_append,
        not_or] at h
      have hfirst := perm_insertSorted f.2 h.1.2
      have hmoved : (rest ++ insertSorted f.1 f.2 there).Perm (f :: (rest ++ there)) :=
        (hfirst.append_left rest).trans List.perm_middle
      have hnodup : ((rest ++ insertSorted f.1 f.2 there).map Prod.fst).Nodup := by
        rw [(hmoved.map Prod.fst).nodup_iff, List.map_cons, List.nodup_cons, List.map_append,
          List.mem_append, not_or]
        exact h
      exact (ih hnodup).trans hmoved

/-- Fields are sorted in one way only. -/
theorem insertAll_of_perm {given fields : List (String × α)} (h : given.Perm fields)
    (hsorted : Fields.Sorted fields) : insertAll given [] = fields := by
  have hnodup : (fields.map Prod.fst).Nodup :=
    List.pairwise_map.mpr (hsorted.imp fun hlt => hlt.ne)
  have hperm : (insertAll given []).Perm fields := by
    refine (perm_insertAll ?_).trans ((List.append_nil given).symm ▸ h)
    rwa [List.append_nil, (h.map Prod.fst).nodup_iff]
  exact hperm.eq_of_pairwise (fun _ _ _ _ hlt hgt => (hlt.asymm hgt).elim)
    (sorted_insertAll given List.Pairwise.nil) hsorted

end Json

/-! ## Values -/

/-- A value that can be read back: at most `n` levels deep, the fields of its maps sorted. -/
def StoreValue.Readable : ℕ → StoreValue → Prop
  | 0, _ => False
  | n + 1, .array (some values) => ∀ v ∈ values, v.Readable n
  | n + 1, .map (some fields) => Fields.Sorted fields ∧ ∀ f ∈ fields, f.2.Readable n
  | _ + 1, _ => True

section Collections

namespace Json

variable {α : Type} {decoder : Decoder α}

/-- The fields that are read are sorted in one after another. -/
theorem Decoder.entries_ofMembers {members : List (String × Json)} {fields : List (String × α)}
    (h : List.Forall₂ (fun m f => m.1 = f.1 ∧ decoder .value (Draft.ofJson m.2) = .ok f.2) members
      fields) (done : List (String × α)) :
    decoder.entries .value (Draft.ofMembers members) done = .ok (insertAll fields done) := by
  induction h generalizing done with
  | nil => rfl
  | @cons m f _ _ hfirst _ ih =>
      obtain ⟨key, content⟩ := m
      obtain ⟨rfl, hcontent⟩ := hfirst
      rw [Draft.ofMembers, Decoder.entries, hcontent]
      exact ih (insertSorted f.1 f.2 done)

theorem Decoder.table_ofJson {members : List (String × Json)} {fields : List (String × α)}
    (h : List.Forall₂ (fun m f => m.1 = f.1 ∧ decoder .value (Draft.ofJson m.2) = .ok f.2) members
      fields) :
    decoder.table .value (Draft.ofJson (.object members)) = .ok (insertAll fields []) := by
  simp only [Draft.ofJson, Decoder.table, Decoder.entries_ofMembers h]
  rfl

/-- A record with one field that need not be there. -/
theorem Record.decode_optional (name key : String) {content : Json} {a : α}
    (h : decoder .value (Draft.ofJson content) = .ok a) (hne : content ≠ .null) :
    Record.decoder name (.optional key decoder) .value (Draft.ofJson (.object [(key, content)])) =
      .ok (some a) :=
  Record.decoder_ofJson name (by simp)
    (Record.reads_defaulted none (by simp) (Decoder.option_ofJson h hne))

end Json

end Collections

namespace StoreValue

theorem toItems_eq_map (values : List StoreValue) : toItems values = values.map toJson := by
  induction values with
  | nil => rfl
  | cons v rest ih => rw [toItems, List.map_cons, ih]

theorem toMembers_eq_map (fields : List (String × StoreValue)) :
    toMembers fields = fields.map fun f => (f.1, f.2.toJson) := by
  induction fields with
  | nil => rfl
  | cons f rest ih => rw [toMembers, List.map_cons, ih]

/-- The same value, with the fields of its maps in any order. -/
inductive Shuffled : StoreValue → StoreValue → Prop
  | same (v : StoreValue) : Shuffled v v
  | array {values values' : List StoreValue} (h : List.Forall₂ Shuffled values values') :
    Shuffled (.array (some values)) (.array (some values'))
  | map {fields between fields' : List (String × StoreValue)}
    (hnames : fields.map Prod.fst = between.map Prod.fst)
    (h : List.Forall₂ Shuffled (fields.map Prod.snd) (between.map Prod.snd))
    (horder : between.Perm fields') : Shuffled (.map (some fields)) (.map (some fields'))

theorem Shuffled.exists_of_array {v : StoreValue} {values : List StoreValue}
    (h : v.Shuffled (.array (some values))) :
    ∃ found, v = .array (some found) ∧ List.Forall₂ Shuffled found values := by
  cases h with
  | same => exact ⟨values, rfl, List.forall₂_same.mpr fun w _ => .same w⟩
  | array h => exact ⟨_, rfl, h⟩

theorem Shuffled.exists_of_map {v : StoreValue} {fields : List (String × StoreValue)}
    (h : v.Shuffled (.map (some fields))) :
    ∃ found between, v = .map (some found) ∧ between.Perm fields ∧
      List.Forall₂ (fun f g => f.1 = g.1 ∧ f.2.Shuffled g.2) found between := by
  cases h with
  | same => exact ⟨fields, fields, rfl, .refl _, List.forall₂_same.mpr fun f _ => ⟨rfl, .same f.2⟩⟩
  | map hnames h horder =>
      rw [← List.forall₂_eq_eq_eq, List.forall₂_map_left_iff, List.forall₂_map_right_iff] at hnames
      rw [List.forall₂_map_left_iff, List.forall₂_map_right_iff] at h
      exact ⟨_, _, rfl, horder, .mp (fun _ _ => And.intro) hnames h⟩

/-- What is written of fields is read as they are, one after another, if this is so of their
values. -/
theorem table_toMembers {n : ℕ} {found between : List (String × StoreValue)}
    (h : List.Forall₂ (fun f g => f.1 = g.1 ∧ f.2.Shuffled g.2) found between)
    (hread : ∀ g ∈ between, ∀ v : StoreValue, v.Shuffled g.2 →
      decoderTo n .value (Draft.ofJson v.toJson) = .ok g.2) :
    (decoderTo n).table .value (Draft.ofJson (.object (toMembers found))) =
      .ok (Json.insertAll between []) := by
  refine Json.Decoder.table_ofJson ?_
  rw [toMembers_eq_map, List.forall₂_map_left_iff]
  have hboth := (List.forall₂_and_left _ _).mpr ⟨hread, .flip h⟩
  exact .flip (hboth.imp fun g f hfg => ⟨hfg.2.1, hfg.1 f.2 hfg.2.2⟩)

/-- What is written of a value is read back with its fields sorted. -/
theorem decoderTo_of_shuffled {n : ℕ} {v w : StoreValue} (hw : w.Readable n) (h : v.Shuffled w) :
    decoderTo n .value (Draft.ofJson v.toJson) = .ok w := by
  induction n generalizing v w with
  | zero => exact hw.elim
  | succ n ih =>
      cases w with
      | array values =>
          cases values with
          | none =>
              cases h
              rfl
          | some values =>
              obtain ⟨found, rfl, hfound⟩ := h.exists_of_array
              have hitems : List.Forall₂
                  (fun c w => decoderTo n .value (Draft.ofJson c) = .ok w)
                  (toItems found) values := by
                rw [toItems_eq_map, List.forall₂_map_left_iff]
                have hboth := (List.forall₂_and_left _ _).mpr ⟨hw, .flip hfound⟩
                exact .flip (hboth.imp fun w v hvw => ih hvw.1 hvw.2)
              have harray : arrayDecoder (decoderTo n) .value _ = _ :=
                Json.Record.decode_optional "ArrayValue" "values" (Json.Decoder.list_ofJson hitems)
                  (fun h => nomatch h)
              exact congrArg (Except.map StoreValue.array) harray
      | map fields =>
          cases fields with
          | none =>
              cases h
              rfl
          | some fields =>
              obtain ⟨found, between, rfl, horder, hfound⟩ := h.exists_of_map
              have htable := table_toMembers hfound
                fun g hg v hv => ih (hw.2 g (horder.mem_iff.mp hg)) hv
              rw [Json.insertAll_of_perm horder hw.1] at htable
              have hmap : mapDecoder (decoderTo n) .value _ = _ :=
                Json.Record.decode_optional "MapValue" "fields" htable (fun h => nomatch h)
              exact congrArg (Except.map StoreValue.map) hmap
      | _ =>
          cases h
          rfl

end StoreValue

/-! ## Documents -/

/-- Fields by their names. -/
abbrev Fields := List (String × StoreValue)

/-- Fields that can be read back, as those of a map that is nested no deeper. -/
def Fields.Readable (n : ℕ) (fields : Fields) : Prop :=
  Fields.Sorted fields ∧ ∀ f ∈ fields, f.2.Readable n

/-- A document that can be read back. -/
def Document.Readable (d : Document) : Prop :=
  ∀ fields, d.fields = some fields → Fields.Readable Json.maxDepth fields

namespace Document

/-- The members that are written of a document. -/
def members (d : Document) : List (String × Json) :=
  Json.member? "name" (d.name.map .string)
    ++ Json.member? "fields" (d.fields.map fun fs => .object (StoreValue.toMembers fs))
    ++ Json.member? "createTime" (d.createTime.map .string)
    ++ Json.member? "updateTime" (d.updateTime.map .string)

theorem lookup_members (d : Document) (name : String) :
    d.members.lookup name =
      (((if name = "name" then d.name.map Json.string else none).or
        (if name = "fields" then d.fields.map fun fs => .object (StoreValue.toMembers fs)
        else none)).or
        (if name = "createTime" then d.createTime.map .string else none)).or
        (if name = "updateTime" then d.updateTime.map .string else none) := by
  simp only [members, List.lookup_append, Json.lookup_member?]

theorem nodup_members (d : Document) : (d.members.map Prod.fst).Nodup := by
  unfold members
  cases d.name <;> cases d.fields <;> cases d.createTime <;> cases d.updateTime <;>
    simp [Json.member?]

/-- What is read of a document, given what is read of its fields. -/
theorem ofValue_of_table {d : Document} {found : Option Fields}
    (h : ∀ fields, d.fields = some fields → ∃ fields', found = some fields' ∧
      StoreValue.decoder.table .value (Draft.ofJson (.object (StoreValue.toMembers fields))) =
        .ok fields')
    (hnone : d.fields = none → found = none) :
    Document.decoder.ofValue d.toJson = .ok { d with fields := found } := by
  have hfind : ∀ name value, d.members.lookup name = value →
      (d.members.lookup name).map Draft.ofJson = value.map Draft.ofJson :=
    fun _ _ h => congrArg (Option.map Draft.ofJson) h
  have hstring : ∀ name (s : Option String), d.members.lookup name = s.map .string →
      (Record.optional name .string).Reads .value
        (fun name => (d.members.lookup name).map Draft.ofJson) s :=
    fun name s h => Record.reads_optional .string (hfind name _ h) nofun fun _ _ => rfl
  have hfields : (Record.optional "fields" (.table StoreValue.decoder)).Reads .value
      (fun name => (d.members.lookup name).map Draft.ofJson) found := by
    cases hd : d.fields with
    | none =>
        rw [hnone hd]
        exact Record.reads_absent none (hfind "fields" none (by simp [lookup_members, hd]))
    | some fields =>
        obtain ⟨fields', rfl, htable⟩ := h fields hd
        refine Record.reads_defaulted none (hfind "fields" (some _) ?_)
          (Json.Decoder.option_ofJson htable nofun)
        simp [lookup_members, hd]
  refine Record.decoder_ofJson "Document" d.nodup_members (.seq (.seq (.seq (.seq
    (.pure Document.mk) ?name) hfields) ?createTime) ?updateTime)
  case name => exact hstring _ _ (by simp [lookup_members])
  case createTime => exact hstring _ _ (by simp [lookup_members])
  case updateTime => exact hstring _ _ (by simp [lookup_members])

/-- What is written of a document is read back as it was if its fields are sorted. -/
theorem ofValue_toJson {d : Document} (h : d.Readable) :
    Document.decoder.ofValue d.toJson = .ok d := by
  refine ofValue_of_table (fun fields hd => ⟨fields, hd, ?_⟩) id
  have htable := StoreValue.table_toMembers
    (List.forall₂_same.mpr fun f _ => ⟨rfl, StoreValue.Shuffled.same f.2⟩) fun f hf v hv =>
      StoreValue.decoderTo_of_shuffled ((h fields hd).2 f hf) hv
  rwa [Json.insertAll_of_perm (.refl fields) (h fields hd).1] at htable

end Document

/-- There is an answer that holds a given document. -/
theorem Document.Readable.exists_body {d : Document} (h : d.Readable) :
    ∃ body : ReplyBody, body.read Document.decoder = .ok d := by
  refine ⟨.json d.toJson, ?_⟩
  simp [ReplyBody.read, Document.ofValue_toJson h, Except.toOption]

end Slideshow
