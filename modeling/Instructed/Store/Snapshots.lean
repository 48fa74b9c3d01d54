import Instructed.Store.Schema

/-!
# Snapshots

`record_snapshot`, `read_snapshot` and `delete_snapshot` (`sql/instructed.sql`, lines 1058–1252): a
table with one row for each source, replaced as a whole.
-/

namespace Instructed

open Sql Relational

/-- `_upsert_snapshot` (lines 1058–1079). -/
def upsertSnapshot (now : Timestamp) (sourceUuid sourceType : String) (sourceVersion : ℕ)
    (data : Json) (metadata : Option Json) (st : Store) : Store :=
  { st with snapshots :=
      st.snapshots.put ⟨sourceUuid, sourceType, sourceVersion, data, metadata, now⟩ }

/-- `record_snapshot` (lines 1123–1156). -/
def recordSnapshot (now : Timestamp) (sourceUuid sourceType : Option String)
    (sourceVersion : Option ℤ) (data metadata : Option Json) (st : Store) : Except SqlError Store :=
  match sourceUuid with
  | none | some "" =>
    raise .invalidParameterValue "record_snapshot: p_source_uuid is null/empty"
  | some u =>
    match sourceType with
    | none | some "" =>
      raise .invalidParameterValue "record_snapshot: p_source_type is null/empty"
    | some t =>
      match sourceVersion with
      | none => raise .invalidParameterValue
          "record_snapshot: p_source_version must be a non-negative integer"
      | some v =>
        if v < 0 then raise .invalidParameterValue
          "record_snapshot: p_source_version must be a non-negative integer"
        else match data with
        | none => raise .invalidParameterValue "record_snapshot: p_data is null"
        | some d => .ok (upsertSnapshot now u t v.toNat d metadata st)

/-- `read_snapshot` (lines 1182–1212). -/
def readSnapshot (sourceUuid : Option String) (st : Store) : Except SqlError SnapshotRow :=
  match sourceUuid with
  | none => raise .invalidParameterValue "read_snapshot: p_source_uuid is null"
  | some u =>
    match st.snapshots.find? u with
    | some row => .ok row
    | none => raise .IS010 ("read_snapshot: snapshot " ++ u ++ " not found")

/-- `delete_snapshot` (lines 1235–1252). -/
def deleteSnapshot (sourceUuid : Option String) (st : Store) : Except SqlError Store :=
  match sourceUuid with
  | none => raise .invalidParameterValue "delete_snapshot: p_source_uuid is null"
  | some u =>
    .ok { st with snapshots := st.snapshots.deleteWhere fun s => decide (s.sourceUuid = u) }

/-- What `record_snapshot` does when it succeeds. -/
theorem recordSnapshot_ok {now : Timestamp} {sourceUuid sourceType : Option String}
    {sourceVersion : Option ℤ} {data metadata : Option Json} {st st' : Store}
    (h : recordSnapshot now sourceUuid sourceType sourceVersion data metadata st = .ok st') :
    ∃ u t v d, sourceUuid = some u ∧ sourceType = some t ∧ sourceVersion = some v ∧ 0 ≤ v ∧
      data = some d ∧ st' = upsertSnapshot now u t v.toNat d metadata st := by
  unfold recordSnapshot at h
  split at h
  · cases h
  · cases h
  · split at h
    · cases h
    · cases h
    · split at h
      · cases h
      · split_ifs at h with hv
        · cases h
        · split at h
          · cases h
          · cases h
            exact ⟨_, _, _, _, rfl, rfl, rfl, by omega, rfl, rfl⟩

end Instructed
