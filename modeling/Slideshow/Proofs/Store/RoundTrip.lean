import Slideshow.Proofs.Store.Representation

/-! # Records on the wire

The record of a job is written as the fields of a document, and the document as JSON, where the
fields of a map come in no particular order. What is read of it is the record again. -/

namespace Slideshow

/-- The fields of the document are those that are written of the record. Neither they nor those of
the maps in them are in a given order. -/
def Document.Encodes (d : Document) (r : JobRecord) : Prop :=
  ∃ fields, d.fields = some fields ∧
    (StoreValue.map (some fields)).Shuffled (.map (some r.toFields))

variable {d : Document} {r : JobRecord}

/-- The fields that are read are those of the record, sorted by name. -/
theorem Document.Encodes.ofValue_toJson (h : d.Encodes r) :
    Document.decoder.ofValue d.toJson =
      .ok { d with fields := some (Json.insertAll r.toFields []) } := by
  obtain ⟨fields, hfields, hshuffled⟩ := h
  obtain ⟨_, between, heq, horder, hvalues⟩ := hshuffled.exists_of_map
  obtain rfl := Option.some.inj (StoreValue.map.inj heq)
  have htable := StoreValue.table_toMembers hvalues fun g hg v hv =>
    StoreValue.decoderTo_of_shuffled (RecordStore.readable_toFields r g (horder.mem_iff.mp hg)) hv
  have hnodup : ((r.toFields ++ []).map Prod.fst).Nodup := by
    simpa using RecordStore.nodup_toFields r
  have hsorted : (Json.insertAll r.toFields []).Perm r.toFields := by
    simpa using Json.perm_insertAll hnodup
  rw [Json.insertAll_of_perm (horder.trans hsorted.symm)
    (Json.sorted_insertAll _ List.Pairwise.nil)] at htable
  refine Document.ofValue_of_table (fun found hd => ?_) fun hd => ?_
  · obtain rfl := Option.some.inj (hfields.symm.trans hd)
    exact ⟨_, rfl, htable⟩
  · cases hfields.symm.trans hd

/-- What is written of a record is read back as the record. -/
theorem exists_ofDocument_of_encodes (hr : r.Fits) (hd : d.Encodes r) (now : Timestamp) :
    ∃ d' r', Document.decoder.ofValue d.toJson = .ok d' ∧
      JobRecord.ofDocument r.id now d' = .ok r' ∧ r'.untimed = r.untimed := by
  have hrepresents : Fields.Represents (Json.insertAll r.toFields []) r := by
    refine Fields.represents_toFields hr fun name => ?_
    rw [Json.lookup_insertAll (RecordStore.nodup_toFields r), List.lookup_nil, Option.or_none]
  obtain ⟨r', hread, hr'⟩ := Fields.Represents.ofDocument
    (d := { d with fields := some (Json.insertAll r.toFields []) }) hrepresents now
  exact ⟨_, r', hd.ofValue_toJson, hread, hr'⟩

/-- The record of a job whose batches are joined by the second one. -/
def joinedRecord : JobRecord :=
  { JobRecord.fresh "pair" ⟨0, 0⟩ with
    status := .joining, batches := some ⟨2, [⟨2, "b"⟩, ⟨1, "a"⟩]⟩, joiner := some 2 }

/-- It is read back where its fields are written last to first. -/
theorem exists_ofDocument_joinedRecord :
    ∃ d' r', Document.decoder.ofValue
        ({ fields := some joinedRecord.toFields.reverse } : Document).toJson = .ok d' ∧
      JobRecord.ofDocument "pair" ⟨0, 0⟩ d' = .ok r' ∧ r'.untimed = joinedRecord.untimed :=
  exists_ofDocument_of_encodes (r := joinedRecord)
    ⟨by decide, by decide, by decide⟩
    ⟨_, rfl, .map rfl (List.forall₂_same.mpr fun v _ => .same v) (List.reverse_perm _)⟩ ⟨0, 0⟩

end Slideshow
