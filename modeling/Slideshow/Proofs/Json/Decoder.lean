import Slideshow.Json.Decoder
import Slideshow.Proofs.Program.Result
import Mathlib.Algebra.Group.Nat.Defs
import Mathlib.Data.List.Forall2

/-! # What decoders make of values

A decoder is put together from others, and so is what it makes of a value: of a list from its items,
of an object from its members. `Record.Reads` follows a record field by field, whatever else the
object holds. -/

namespace Slideshow.Json

variable {α β : Type} {origin : Origin} {decoder : Decoder α}

/-! ## Members by name -/

theorem lookup_cons_eq (name key : String) (value : α) (members : List (String × α)) :
    ((key, value) :: members).lookup name =
      if name = key then some value else members.lookup name := by
  by_cases h : name = key
  · simp [h]
  · have hne : (name == key) = false := by simpa using h
    simp [List.lookup_cons, hne, h]

theorem lookup_member? (key name : String) (value : Option Json) :
    (member? key value).lookup name = if name = key then value else none := by
  cases value with
  | none => simp [member?]
  | some v => exact lookup_cons_eq name key v []

theorem lookup_of_mem {members : List (String × Json)} (hnames : (members.map Prod.fst).Nodup)
    {m : String × Json} (hm : m ∈ members) : members.lookup m.1 = some m.2 := by
  induction members with
  | nil => cases hm
  | cons first rest ih =>
      rw [List.map_cons, List.nodup_cons] at hnames
      rw [lookup_cons_eq]
      obtain rfl | hm := List.mem_cons.mp hm
      · rw [if_pos rfl]
      · rw [if_neg fun h => hnames.1 (List.mem_map.mpr ⟨m, hm, h⟩)]
        exact ih hnames.2 hm

/-! ## Lists and options -/

namespace Decoder

theorem items_ofItems {contents : List Json} {values : List α}
    (h : List.Forall₂ (fun c a => decoder origin (Draft.ofJson c) = .ok a) contents values) :
    decoder.items origin (Draft.ofItems contents) = .ok values := by
  induction h with
  | nil => rfl
  | cons hfirst _ ih =>
      rw [Draft.ofItems, Decoder.items, hfirst, ih]
      rfl

theorem list_ofJson {contents : List Json} {values : List α}
    (h : List.Forall₂ (fun c a => decoder origin (Draft.ofJson c) = .ok a) contents values) :
    decoder.list origin (Draft.ofJson (.array contents)) = .ok values := by
  simp only [Draft.ofJson, Decoder.list, Decoder.items_ofItems h]
  rfl

theorem strings_ofJson (origin : Origin) (texts : List String) :
    string.list origin (Draft.ofJson (strings texts)) = .ok texts :=
  list_ofJson (List.forall₂_map_left_iff.mpr (List.forall₂_same.mpr fun _ _ => rfl))

theorem option_ofJson {content : Json} {a : α}
    (h : decoder origin (Draft.ofJson content) = .ok a) (hne : content ≠ .null) :
    decoder.option origin (Draft.ofJson content) = .ok (some a) := by
  cases content with
  | null => exact (hne rfl).elim
  | _ => simpa [Decoder.option, Draft.ofJson, Except.map] using congrArg (Except.map some) h

/-- A number that fits. -/
theorem unsigned_ofJson {bits n : ℕ} (h : n < 2 ^ bits) (origin : Origin) :
    unsigned bits origin (Draft.ofJson (.integer n)) = .ok n := by
  have hbits : (n : Int) < (Nat.pow 2 bits : ℕ) := Int.ofNat_lt.mpr h
  simp only [unsigned, Draft.ofJson]
  rw [if_pos]
  · rfl
  · simp only [Bool.and_eq_true, decide_eq_true_eq]
    exact ⟨by omega, hbits⟩

/-- A decoder of numbers of some bits gives only such numbers. -/
theorem lt_of_unsigned {bits n : ℕ} {draft : Draft} (h : unsigned bits origin draft = .ok n) :
    n < 2 ^ bits := by
  unfold unsigned at h
  split at h
  · rename_i k
    split at h
    · rename_i hbounds
      simp only [Bool.and_eq_true, decide_eq_true_eq] at hbounds
      cases h
      have hlt : k < ((2 ^ bits : ℕ) : Int) := hbounds.2
      omega
    · cases h
  · unfold unexpected at h
    split at h <;> cases h

end Decoder

/-! ## Drafts of values -/

namespace Draft

mutual

/-- Nothing is wrong with a value that is not wanted. -/
theorem skip_ofJson (value : Json) : (ofJson value).skip = .ok () := by
  match value with
  | .array items =>
      rw [ofJson, skip, skipItems_ofItems items]
      rfl
  | .object members =>
      rw [ofJson, skip, skipMembers_ofMembers members]
      rfl
  | .null | .bool _ | .integer _ | .real _ | .string _ => rfl

theorem skipItems_ofItems (items : List Json) : skipItems (ofItems items) = .ok () := by
  match items with
  | [] => rfl
  | item :: rest =>
      rw [ofItems, skipItems, skip_ofJson item]
      exact skipItems_ofItems rest

theorem skipMembers_ofMembers (members : List (String × Json)) :
    skipMembers (ofMembers members) = .ok () := by
  match members with
  | [] => rfl
  | (_, value) :: rest =>
      rw [ofMembers, skipMembers, skip_ofJson value]
      exact skipMembers_ofMembers rest

end

theorem toItems?_ofItems {depth : ℕ} {items : List Json}
    (h : ∀ v ∈ items, (ofJson v).toJson? depth = .ok v) :
    toItems? depth (ofItems items) = .ok items := by
  induction items with
  | nil => rfl
  | cons v rest ih =>
      have hrest := ih fun w hw => h w (List.mem_cons_of_mem _ hw)
      rw [ofItems, toItems?, h v List.mem_cons_self, hrest]
      rfl

theorem toMembers?_ofMembers {depth : ℕ} {members : List (String × Json)}
    (h : ∀ m ∈ members, (ofJson m.2).toJson? depth = .ok m.2) :
    toMembers? depth (ofMembers members) = .ok members := by
  induction members with
  | nil => rfl
  | cons m rest ih =>
      obtain ⟨key, value⟩ := m
      have hrest := ih fun w hw => h w (List.mem_cons_of_mem _ hw)
      have hvalue : (ofJson value).toJson? depth = .ok value := h (key, value) List.mem_cons_self
      rw [ofMembers, toMembers?, hvalue, hrest]
      rfl

theorem toJson?_array {depth : ℕ} (hdepth : 1 < depth) {items : List Json}
    (h : ∀ v ∈ items, (ofJson v).toJson? (depth - 1) = .ok v) :
    (ofJson (.array items)).toJson? depth = .ok (.array items) := by
  rw [ofJson, toJson?, if_neg (by omega), toItems?_ofItems h]
  rfl

theorem toJson?_object {depth : ℕ} (hdepth : 1 < depth) {members : List (String × Json)}
    (h : ∀ m ∈ members, (ofJson m.2).toJson? (depth - 1) = .ok m.2) :
    (ofJson (.object members)).toJson? depth = .ok (.object members) := by
  rw [ofJson, toJson?, if_neg (by omega), toMembers?_ofMembers h]
  rfl

end Draft

/-! ## Records -/

namespace Record

/-- The record takes this value from drafts that are found by name. -/
structure Reads (r : Record α) (origin : Origin) (find : String → Option Draft) (a : α) : Prop where
  checks : ∀ field ∈ r.fields, ∀ draft, find field.name = some draft →
    field.check origin draft = .ok ()
  present : ∀ field ∈ r.fields, field.required = true → (find field.name).isSome = true
  builds : r.build origin find = .ok a

variable {find : String → Option Draft} {name : String} {draft : Draft} {a : α}

theorem Reads.pure (a : α) : Reads (pure a) origin find a where
  checks := nofun
  present := nofun
  builds := rfl

theorem Reads.seq {rf : Record (α → β)} {ra : Record α} {f : α → β} (hf : rf.Reads origin find f)
    (ha : ra.Reads origin find a) : Reads (rf <*> ra) origin find (f a) where
  checks field hfield := (List.mem_append.mp hfield).elim (hf.checks field) (ha.checks field)
  present field hfield := (List.mem_append.mp hfield).elim (hf.present field) (ha.present field)
  builds := by
    have hbuild : (rf <*> ra).build origin find = (do
      let f ← rf.build origin find
      return f (← ra.build origin find)) := rfl
    rw [hbuild, hf.builds, ha.builds]
    rfl

theorem reads_required (hfind : find name = some draft) (h : decoder origin draft = .ok a) :
    (required name decoder).Reads origin find a where
  checks field hfield other hother := by
    obtain rfl := List.mem_singleton.mp hfield
    obtain rfl := Option.some.inj (hfind.symm.trans hother)
    exact congrArg (Except.map _) h
  present field hfield _ := by
    obtain rfl := List.mem_singleton.mp hfield
    exact Option.isSome_iff_exists.mpr ⟨draft, hfind⟩
  builds := by simpa [required, hfind] using h

theorem reads_defaulted (value : α) (hfind : find name = some draft)
    (h : decoder origin draft = .ok a) : (defaulted name decoder value).Reads origin find a where
  checks field hfield other hother := by
    obtain rfl := List.mem_singleton.mp hfield
    obtain rfl := Option.some.inj (hfind.symm.trans hother)
    exact congrArg (Except.map _) h
  present field hfield hrequired := by
    obtain rfl := List.mem_singleton.mp hfield
    cases hrequired
  builds := by simpa [defaulted, hfind] using h

theorem reads_absent (value : α) (hfind : find name = none) :
    (defaulted name decoder value).Reads origin find value where
  checks field hfield other hother := by
    obtain rfl := List.mem_singleton.mp hfield
    cases hfind.symm.trans hother
  present field hfield hrequired := by
    obtain rfl := List.mem_singleton.mp hfield
    cases hrequired
  builds := by simp [defaulted, hfind]

/-- A field that is written if there is a value, and never as `null`. -/
theorem reads_optional (write : α → Json) {value : Option α}
    (hfind : find name = (value.map write).map Draft.ofJson) (hnull : ∀ a, write a ≠ .null)
    (h : ∀ a, value = some a → decoder origin (Draft.ofJson (write a)) = .ok a) :
    (optional name decoder).Reads origin find value := by
  cases value with
  | none => exact reads_absent none hfind
  | some a => exact reads_defaulted none hfind (Decoder.option_ofJson (h a rfl) (hnull a))

theorem findMember_ofMembers (members : List (String × Json)) (name : String) :
    findMember (Draft.ofMembers members) name = (members.lookup name).map Draft.ofJson := by
  induction members with
  | nil => rfl
  | cons m rest ih =>
      obtain ⟨key, value⟩ := m
      rw [findMember] at ih ⊢
      rw [Draft.ofMembers, List.findSome?_cons, lookup_cons_eq]
      by_cases hkey : key = name
      · simp [hkey]
      · simp [hkey, Ne.symm hkey, ih]

theorem checkMembers_ofMembers {fields : List Field} {members : List (String × Json)}
    {seen : List String} (hnames : (members.map Prod.fst).Nodup)
    (hseen : ∀ m ∈ members, m.1 ∉ seen)
    (h : ∀ m ∈ members, ∀ field ∈ fields, field.name = m.1 →
      field.check origin (Draft.ofJson m.2) = .ok ()) :
    checkMembers origin fields seen (Draft.ofMembers members) = .ok () := by
  induction members generalizing seen with
  | nil => rfl
  | cons m rest ih =>
      obtain ⟨key, value⟩ := m
      rw [List.map_cons, List.nodup_cons] at hnames
      have hkey : key ∉ seen := hseen (key, value) List.mem_cons_self
      have hrest : checkMembers origin fields (key :: seen) (Draft.ofMembers rest) = .ok () := by
        refine ih hnames.2 (fun m hm hmem => ?_) fun m hm => h m (List.mem_cons_of_mem _ hm)
        obtain hm' | hm' := List.mem_cons.mp hmem
        · exact hnames.1 (List.mem_map.mpr ⟨m, hm, hm'⟩)
        · exact hseen m (List.mem_cons_of_mem _ hm) hm'
      rw [Draft.ofMembers, checkMembers]
      split
      · rename_i field hfield
        have hname : field.name = key := by simpa using List.find?_some hfield
        have hcheck :=
          h (key, value) List.mem_cons_self field (List.mem_of_find?_eq_some hfield) hname
        rw [if_neg (by simpa using hkey), hcheck]
        exact hrest
      · rw [Draft.skip_ofJson]
        exact hrest

/-- What is taken from the members of an object, each of another name, is what the object is decoded
to. -/
theorem decoder_ofJson {r : Record α} {members : List (String × Json)} (type : String)
    (hnames : (members.map Prod.fst).Nodup)
    (h : r.Reads origin (fun name => (members.lookup name).map Draft.ofJson) a) :
    r.decoder type origin (Draft.ofJson (.object members)) = .ok a := by
  have hchecks : checkMembers origin r.fields [] (Draft.ofMembers members) = .ok () := by
    refine checkMembers_ofMembers hnames nofun fun m hm field hfield hname => ?_
    refine h.checks field hfield _ ?_
    rw [hname, lookup_of_mem hnames hm]
    rfl
  have hpresent : (r.fields.find? fun field => field.required &&
      ((members.lookup field.name).map Draft.ofJson).isNone) = none := by
    refine List.find?_eq_none.mpr fun field hfield => ?_
    cases hrequired : field.required with
    | false => simp
    | true =>
        have := h.present field hfield hrequired
        simpa using this
  have hfind : findMember (Draft.ofMembers members) =
      fun name => (members.lookup name).map Draft.ofJson :=
    funext (findMember_ofMembers members)
  simp only [Record.decoder, Draft.ofJson, hchecks, hfind, hpresent]
  exact h.builds

theorem build_seq {rf : Record (α → β)} {ra : Record α} {b : β}
    (h : (rf <*> ra).build origin find = .ok b) :
    ∃ f a, rf.build origin find = .ok f ∧ ra.build origin find = .ok a ∧ f a = b := by
  obtain ⟨f, hf, h⟩ := ok_of_bind h
  obtain ⟨a, ha, h⟩ := ok_of_bind h
  exact ⟨f, a, hf, ha, Except.ok.inj h⟩

/-- What a record is decoded to was built by it. -/
theorem exists_build_of_decoder {r : Record α} {type : String}
    (h : r.decoder type origin draft = .ok a) : ∃ find, r.build origin find = .ok a := by
  unfold Record.decoder at h
  split at h
  · obtain ⟨_, -, h⟩ := ok_of_bind h
    obtain ⟨_, -, h⟩ := ok_of_bind h
    dsimp only at h
    split at h
    · cases h
    · exact ⟨_, h⟩
  · obtain ⟨_, -, h⟩ := ok_of_bind h
    dsimp only at h
    split at h
    · obtain ⟨_, -, h⟩ := ok_of_bind h
      split at h
      · obtain ⟨_, hfail, -⟩ := ok_of_bind h
        cases hfail
      · exact ⟨_, h⟩
    · obtain ⟨_, -, h⟩ := ok_of_bind h
      obtain ⟨_, -, h⟩ := ok_of_bind h
      exact ⟨_, h⟩
  · unfold Decoder.unexpected at h
    split at h <;> cases h

theorem exists_of_build_optional (h : (optional name decoder).build origin find = .ok (some a)) :
    ∃ draft, decoder origin draft = .ok a := by
  simp only [optional, defaulted] at h
  split at h
  · rename_i draft _
    unfold Decoder.option at h
    split at h
    · cases h
    · cases hdraft : decoder origin draft with
      | error e =>
          rw [hdraft] at h
          cases h
      | ok b =>
          rw [hdraft] at h
          cases h
          exact ⟨draft, hdraft⟩
  · cases h

end Record

/-! ## Tagged objects -/

section Tagged

variable {tag : String} {names : List (α × List String)}

theorem splitTag_ofMembers (found : Option α) {members : List (String × Json)}
    (htag : tag ∉ members.map Prod.fst)
    (h : ∀ m ∈ members, (Draft.ofJson m.2).toJson? (maxDepth - 1) = .ok m.2) :
    splitTag tag names origin found (Draft.ofMembers members) = .ok (found, members) := by
  induction members with
  | nil => rfl
  | cons m rest ih =>
      obtain ⟨key, value⟩ := m
      rw [List.map_cons, List.mem_cons, not_or] at htag
      have hrest := ih htag.2 fun m hm => h m (List.mem_cons_of_mem _ hm)
      have hvalue : (Draft.ofJson value).toJson? (maxDepth - 1) = .ok value :=
        h (key, value) List.mem_cons_self
      rw [Draft.ofMembers, splitTag, if_neg (Ne.symm htag.1), hvalue, hrest]
      rfl

/-- An object whose first member is its tag. -/
theorem tagged_ofJson {content : α → Decoder β} {members : List (String × Json)} {word : String}
    {a : α} {b : β} (type : String) (hword : Decoder.lookupName names word = .ok a)
    (htag : tag ∉ members.map Prod.fst)
    (h : ∀ m ∈ members, (Draft.ofJson m.2).toJson? (maxDepth - 1) = .ok m.2)
    (hcontent : content a .held (Draft.ofJson (.object members)) = .ok b) :
    tagged type tag names content origin (Draft.ofJson (.object ((tag, .string word) :: members))) =
      .ok b := by
  have hsplit : splitTag tag names origin none
      (Draft.ofMembers ((tag, .string word) :: members)) = .ok (some a, members) := by
    have htag' : tagOf names origin (Draft.ofJson (.string word)) = .ok a := hword
    rw [Draft.ofMembers, splitTag, if_pos rfl, htag']
    exact splitTag_ofMembers (some a) htag h
  have hdraft : Draft.ofJson (.object ((tag, .string word) :: members)) =
      .object (Draft.ofMembers ((tag, .string word) :: members)) none := by
    rw [Draft.ofJson]
  rw [hdraft, tagged, hsplit]
  exact hcontent

end Tagged

end Slideshow.Json
