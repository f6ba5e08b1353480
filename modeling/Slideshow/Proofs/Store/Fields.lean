import Slideshow.Proofs.Store.Wire
import Mathlib.Data.List.Basic

/-! # Fields at paths

How the server finds and changes the fields of a document: a path leads through maps that stand in
one another, and a change at a path leaves all fields alone that do not begin it. -/

namespace Slideshow

namespace Fields

/-- The names along a path. -/
def names (path : String) : List String := (path.toList.splitOn '.').map String.ofList

/-- The fields of the map under a name; none if there is no map. -/
def inner (fields : Fields) (name : String) : Fields :=
  match fields.lookup name with
  | some (.map (some found)) => found
  | _ => []

def valueAt? : List String → Fields → Option StoreValue
  | [], _ => none
  | [name], fields => fields.lookup name
  | name :: next :: rest, fields => valueAt? (next :: rest) (fields.inner name)

/-- Puts a value at a path; maps on the way that are missing are created. -/
def putAt (value : StoreValue) : List String → Fields → Fields
  | [], fields => fields
  | [name], fields => Json.insertSorted name value fields
  | name :: next :: rest, fields =>
    Json.insertSorted name (.map (some (putAt value (next :: rest) (fields.inner name)))) fields

/-- Deletes what is at a path, if there is something. -/
def dropAt : List String → Fields → Fields
  | [], fields => fields
  | [name], fields => fields.filter fun f => f.1 ≠ name
  | name :: next :: rest, fields =>
    match fields.lookup name with
    | some (.map (some found)) =>
      Json.insertSorted name (.map (some (dropAt (next :: rest) found))) fields
    | _ => fields

/-- Writes one field of a mask: sets it if it is given, and deletes it otherwise. -/
def writeAt (given : Fields) (path : String) (fields : Fields) : Fields :=
  match valueAt? (names path) given with
  | some value => putAt value (names path) fields
  | none => dropAt (names path) fields

/-- Writes the fields of a mask. -/
def writeMask (given : Fields) (mask : List String) (fields : Fields) : Fields :=
  mask.foldl (fun written path => writeAt given path written) fields

open Classical in
/-- Appends the values that are not there yet. -/
noncomputable def appendMissing (values : List StoreValue) (there : List StoreValue) :
    List StoreValue :=
  values.foldl (fun found v => if v ∈ found then found else found ++ [v]) there

/-- Changes a field as asked; an array that is missing is created. -/
noncomputable def transform (t : FieldTransform) (fields : Fields) : Fields :=
  match t.appendMissing with
  | none => fields
  | some values =>
    let there := ((valueAt? (names t.fieldPath) fields).map StoreValue.elements).getD []
    putAt (.array (some (appendMissing (values.getD []) there))) (names t.fieldPath) fields


/-! ## What can be read back -/

variable {n : ℕ} {fields given : Fields} {path name : String} {v : StoreValue}

theorem mem_of_lookup (h : fields.lookup name = some v) : (name, v) ∈ fields := by
  obtain ⟨front, rest, rfl, -⟩ := List.lookup_eq_some_iff.mp h
  simp

theorem Readable.of_lookup (hfields : fields.Readable n) (h : fields.lookup name = some v) :
    v.Readable n :=
  hfields.2 _ (mem_of_lookup h)

theorem readable_nil (n : ℕ) : Fields.Readable n [] := ⟨List.Pairwise.nil, by simp⟩

theorem Readable.insertSorted (hfields : fields.Readable n) (name : String) (hv : v.Readable n) :
    Fields.Readable n (Json.insertSorted name v fields) := by
  refine ⟨Json.sorted_insertSorted name v hfields.1, fun f hf => ?_⟩
  rcases Json.mem_insertSorted hf with rfl | hf
  · exact hv
  · exact hfields.2 f hf

theorem Readable.insertAll (hfields : fields.Readable n) (hgiven : ∀ f ∈ given, f.2.Readable n) :
    Fields.Readable n (Json.insertAll given fields) := by
  induction given generalizing fields with
  | nil => exact hfields
  | cons f rest ih =>
      have hfirst := hfields.insertSorted f.1 (hgiven f List.mem_cons_self)
      exact ih hfirst fun g hg => hgiven g (List.mem_cons_of_mem _ hg)

theorem Readable.inner (hfields : fields.Readable (n + 1)) (name : String) :
    (fields.inner name).Readable n := by
  rw [Fields.inner]
  split
  · rename_i found h
    exact hfields.of_lookup h
  · exact readable_nil n

theorem Readable.putAt {names : List String} (hfields : fields.Readable n)
    (hv : v.Readable (n + 1 - names.length)) : (Fields.putAt v names fields).Readable n := by
  fun_induction Fields.putAt v names fields generalizing n with
  | case1 fields => exact hfields
  | case2 name fields => exact hfields.insertSorted name hv
  | case3 name next rest fields ih =>
      cases n with
      | zero =>
          have hzero : 0 + 1 - (name :: next :: rest).length = 0 := by simp
          rw [hzero] at hv
          exact hv.elim
      | succ n =>
          have hinner := ih (hfields.inner name) (by simpa using hv)
          exact hfields.insertSorted name hinner

theorem Readable.dropAt (hfields : fields.Readable n) (names : List String) :
    (Fields.dropAt names fields).Readable n := by
  fun_induction Fields.dropAt names fields generalizing n with
  | case1 fields => exact hfields
  | case2 name fields =>
      exact ⟨hfields.1.filter _, fun f hf => hfields.2 f (List.mem_filter.mp hf).1⟩
  | case3 name next rest fields found h ih =>
      cases n with
      | zero => exact (hfields.of_lookup h).elim
      | succ n => exact hfields.insertSorted name (ih (hfields.of_lookup h))
  | case4 => exact hfields

theorem Readable.writeAt (hfields : fields.Readable n)
    (hgiven : ∀ v, valueAt? (names path) given = some v →
      v.Readable (n + 1 - (names path).length)) :
    (Fields.writeAt given path fields).Readable n := by
  rw [Fields.writeAt]
  split
  · rename_i v h
    exact hfields.putAt (hgiven v h)
  · exact hfields.dropAt _

theorem Readable.writeMask {mask : List String} (hfields : fields.Readable n)
    (hgiven : ∀ path ∈ mask, ∀ v, valueAt? (names path) given = some v →
      v.Readable (n + 1 - (names path).length)) :
    (Fields.writeMask given mask fields).Readable n := by
  induction mask generalizing fields with
  | nil => exact hfields
  | cons path rest ih =>
      have hfirst := hfields.writeAt (hgiven path List.mem_cons_self)
      exact ih hfirst fun p hp => hgiven p (List.mem_cons_of_mem _ hp)

/-! ## What is found after a write -/

theorem lookup_filter_ne (fields : Fields) (path name : String) :
    (fields.filter fun f => f.1 ≠ path).lookup name =
      if name = path then none else fields.lookup name := by
  induction fields with
  | nil => simp
  | cons f rest ih =>
      obtain ⟨key, v⟩ := f
      by_cases hkey : key = path
      · subst hkey
        by_cases hname : name = key
        · simpa [hname] using ih
        · simpa [Json.lookup_cons_eq, hname] using ih
      · by_cases hname : name = key
        · simp [hkey, hname]
        · simpa [Json.lookup_cons_eq, hkey, hname] using ih

/-- The path is a name. -/
theorem lookup_writeAt (hpath : names path = [path]) :
    (writeAt given path fields).lookup name =
      if name = path then given.lookup name else fields.lookup name := by
  rw [writeAt, hpath, valueAt?]
  cases hgiven : given.lookup path with
  | none =>
      simp only [dropAt, lookup_filter_ne]
      split
      · rename_i hname
        rw [hname, hgiven]
      · rfl
  | some v =>
      simp only [putAt, Json.lookup_insertSorted]
      split
      · rename_i hname
        rw [hname, hgiven]
      · rfl

/-- The fields of a mask are as given, the others as they were. -/
theorem lookup_writeMask {mask : List String} (hmask : ∀ path ∈ mask, names path = [path]) :
    (writeMask given mask fields).lookup name =
      if name ∈ mask then given.lookup name else fields.lookup name := by
  induction mask generalizing fields with
  | nil => simp [writeMask]
  | cons path rest ih =>
      have hrest : (writeMask given rest (writeAt given path fields)).lookup name = _ :=
        ih fun p hp => hmask p (List.mem_cons_of_mem _ hp)
      rw [lookup_writeAt (hmask path List.mem_cons_self)] at hrest
      simp only [writeMask, List.foldl_cons] at hrest ⊢
      rw [hrest]
      by_cases hname : name = path
      · simp [hname]
      · simp [hname]

end Fields

end Slideshow
