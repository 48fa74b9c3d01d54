import Instructed.Store.Read

/-!
# The event store invariant

`Store.Consistent` says how the four tables of the event store agree with each other. It is the
induction invariant behind every reader of the log, and it is what one append keeps:

* `Store.Target`: the row that step (1) of `append_to_stream` may leave behind, however it found it;
* `Store.Consistent.addBatch`: bumping both counters by the size of a batch and inserting its rows
  keeps `Consistent`.
-/

namespace Instructed

open Sql Relational

/-! ## The positions of a batch -/

section Batch

variable (streamId baseSv baseEn : ℕ) (es : List EventRow)

theorem map_event_zipIdx {β : Type} (f : EventRow → β) :
    ((es.zipIdx 1).map fun e => f e.1) = es.map f := by
  conv_rhs => rw [← List.zipIdx_map_fst 1 es, List.map_map]
  rfl

theorem map_position_zipIdx (base : ℕ) :
    ((es.zipIdx 1).map fun e => base + e.2) = List.range' (base + 1) es.length := by
  rw [← List.map_add_range' 1 es.length 1, ← List.zipIdx_map_snd 1 es, List.map_map]
  rfl

@[simp] theorem originLinks_eventId : (originLinks streamId baseSv es).map (·.eventId) =
    es.map (·.eventId) := by
  rw [originLinks, List.map_map]
  exact map_event_zipIdx es (·.eventId)

@[simp] theorem allLinks_eventId : (allLinks streamId baseSv baseEn es).map (·.eventId) =
    es.map (·.eventId) := by
  rw [allLinks, List.map_map]
  exact map_event_zipIdx es (·.eventId)

@[simp] theorem originLinks_streamVersion : (originLinks streamId baseSv es).map (·.streamVersion) =
    List.range' (baseSv + 1) es.length := by
  rw [originLinks, List.map_map]
  exact map_position_zipIdx es baseSv

@[simp] theorem allLinks_streamVersion :
    (allLinks streamId baseSv baseEn es).map (·.streamVersion) =
      List.range' (baseEn + 1) es.length := by
  rw [allLinks, List.map_map]
  exact map_position_zipIdx es baseEn

/-- The two links of an event agree on its origin. -/
theorem originLinks_eq_allLinks :
    (originLinks streamId baseSv es).map (fun l => (l.eventId, l.streamVersion)) =
      (allLinks streamId baseSv baseEn es).map fun l => (l.eventId, l.originalStreamVersion) := by
  simp [originLinks, allLinks]

variable {streamId baseSv baseEn es} {l : StreamEventRow}

theorem mem_originLinks (h : l ∈ originLinks streamId baseSv es) :
    l.streamId = streamId ∧ l.originalStreamId = l.streamId ∧
      l.originalStreamVersion = l.streamVersion := by
  obtain ⟨e, -, rfl⟩ := List.mem_map.mp h
  exact ⟨rfl, rfl, rfl⟩

theorem mem_allLinks (h : l ∈ allLinks streamId baseSv baseEn es) :
    l.streamId = 0 ∧ l.originalStreamId = streamId := by
  obtain ⟨e, -, rfl⟩ := List.mem_map.mp h
  exact ⟨rfl, rfl⟩

/-- The links that a batch adds to one stream. -/
theorem filter_newLinks (h0 : streamId ≠ 0) (i : ℕ) :
    ((newLinks streamId baseSv baseEn es).filter fun l => decide (l.streamId = i)) =
      if i = 0 then allLinks streamId baseSv baseEn es
      else if i = streamId then originLinks streamId baseSv es else [] := by
  have hall : ∀ l ∈ allLinks streamId baseSv baseEn es, l.streamId = 0 := fun l hl =>
    (mem_allLinks hl).1
  have horig : ∀ l ∈ originLinks streamId baseSv es, l.streamId = streamId := fun l hl =>
    (mem_originLinks hl).1
  rw [newLinks, List.filter_append]
  by_cases hi : i = 0
  · subst hi
    rw [List.filter_eq_nil_iff.mpr fun l hl => by simpa [horig l hl] using h0,
      List.filter_eq_self.mpr fun l hl => by simpa using hall l hl]
    simp
  · have hnil : ((allLinks streamId baseSv baseEn es).filter fun l => decide (l.streamId = i)) =
        [] := List.filter_eq_nil_iff.mpr fun l hl => by simpa [hall l hl] using Ne.symm hi
    rw [if_neg hi, hnil, List.append_nil]
    by_cases his : i = streamId
    · rw [if_pos his, List.filter_eq_self]
      exact fun l hl => by simpa [his] using horig l hl
    · rw [if_neg his, List.filter_eq_nil_iff]
      exact fun l hl => by simpa [horig l hl] using Ne.symm his

end Batch

/-! ## Adding a batch to the tables -/

section AddEvents

variable {st : Store} {es : List EventRow} {ls : List StreamEventRow}

theorem nodup_of_eventsViolation (h : eventsViolation st es ls = none) :
    (es.map (·.eventId)).Nodup ∧ (∀ e ∈ es, st.events.find? e.eventId = none) ∧
      (ls.map (·.pkey)).Nodup ∧ ∀ l ∈ ls, st.streamEvents.find? l.pkey = none := by
  unfold eventsViolation at h
  split_ifs at h with h1 h2 h3
  exact ⟨h1.1, h1.2, h2.1, h2.2⟩

theorem addEvents_events (h : eventsViolation st es ls = none) :
    (st.addEvents es ls).events.rows = st.events.rows ++ es :=
  have hv := nodup_of_eventsViolation h
  Table.putAll_rows_of_new hv.1 hv.2.1

theorem addEvents_streamEvents (h : eventsViolation st es ls = none) :
    (st.addEvents es ls).streamEvents.rows = st.streamEvents.rows ++ ls :=
  have hv := nodup_of_eventsViolation h
  Table.putAll_rows_of_new hv.2.2.1 hv.2.2.2

theorem addEvents_links (h : eventsViolation st es ls = none) (i : ℕ) :
    (st.addEvents es ls).links i = st.links i ++ ls.filter fun l => decide (l.streamId = i) := by
  rw [Store.links, addEvents_streamEvents h, List.filter_append]
  rfl

@[simp] theorem addEvents_streams : (st.addEvents es ls).streams = st.streams := rfl

end AddEvents

/-! ## The invariant -/

/-- How `streams`, `events` and `stream_events` agree. Positions are compared in insertion order,
    which is the order of the positions. -/
structure Store.Consistent (st : Store) : Prop where
  /-- The seeded `$all` row. -/
  allRow : ∃ h, st.streams.find? 0 = some ⟨0, "$all", h⟩
  /-- `streams_stream_uuid_key`. -/
  uuids : ∀ r ∈ st.streams.rows, ∀ r' ∈ st.streams.rows, r.streamUuid = r'.streamUuid → r = r'
  /-- A stream's counter is the number of its links, which are numbered from 1 without a gap. -/
  versions : ∀ r ∈ st.streams.rows,
    (st.links r.streamId).map (·.streamVersion) = List.range' 1 r.streamVersion
  /-- Only `$all` can be empty. -/
  nonempty : ∀ r ∈ st.streams.rows, r.streamId ≠ 0 → 1 ≤ r.streamVersion
  /-- The links of a stream are the `$all` links that name it as their origin. -/
  origin : ∀ s ≠ 0, (st.links s).map (fun l => (l.eventId, l.streamVersion)) =
    ((st.links 0).filter fun l => decide (l.originalStreamId = s)).map fun l =>
      (l.eventId, l.originalStreamVersion)
  /-- A link off `$all` is its event's origin. -/
  own : ∀ l ∈ st.streamEvents.rows, l.streamId ≠ 0 →
    l.originalStreamId = l.streamId ∧ l.originalStreamVersion = l.streamVersion
  /-- The events are the events linked to `$all`. -/
  eventIds : st.events.rows.map (·.eventId) = (st.links 0).map (·.eventId)
  /-- Every event has an origin stream. -/
  allOrigin : ∀ l ∈ st.links 0, l.originalStreamId ≠ 0 ∧
    ∃ r, st.streams.find? l.originalStreamId = some r

/-- The row that step (1) leaves for the stream `u` and `n` events: an existing row bumped, or a new
    row under the unused id that the identity column drew. -/
inductive Store.Target (st : Store) (id : ℕ) (u : String) (n : ℕ) : StreamRow → Prop
  | existing {old : StreamRow} : st.streamByUuid u = some old → Store.Target st id u n (old.bump n)
  | fresh : id ≠ 0 → st.streams.find? id = none → st.streamByUuid u = none →
      Store.Target st id u n ⟨id, u, n⟩

namespace Store.Consistent

variable {st : Store}

theorem streamByUuid_of_mem (hc : st.Consistent) {r : StreamRow} (hr : r ∈ st.streams.rows) :
    st.streamByUuid r.streamUuid = some r := by
  cases h : st.streamByUuid r.streamUuid with
  | none => exact absurd rfl (Store.streamByUuid_eq_none_iff.mp h r hr)
  | some x =>
    rw [hc.uuids _ (Store.mem_of_streamByUuid h) _ hr (Store.uuid_of_streamByUuid h)]

theorem streamByUuid_all (hc : st.Consistent) : ∃ h, st.streamByUuid "$all" = some ⟨0, "$all", h⟩ :=
  have ⟨h, hr⟩ := hc.allRow
  ⟨h, hc.streamByUuid_of_mem (Table.mem_of_find? hr)⟩

/-- `$all` is the row with id 0. -/
theorem streamId_eq_zero_iff (hc : st.Consistent) {r : StreamRow} (hr : r ∈ st.streams.rows) :
    r.streamId = 0 ↔ r.streamUuid = "$all" := by
  obtain ⟨h, hall⟩ := hc.allRow
  have hm := Table.mem_of_find? hall
  constructor
  · intro h0
    rw [st.streams.eq_of_key_eq hr hm h0]
  · intro hu
    rw [hc.uuids _ hr _ hm hu]

/-- A stream id without a row has no links. -/
theorem links_eq_nil (hc : st.Consistent) {i : ℕ} (h0 : i ≠ 0) (hi : st.streams.find? i = none) :
    st.links i = [] := by
  have horig := hc.origin i h0
  have hnone : ((st.links 0).filter fun l => decide (l.originalStreamId = i)) = [] := by
    rw [List.filter_eq_nil_iff]
    intro l hl hli
    obtain ⟨-, r, hr⟩ := hc.allOrigin l hl
    rw [of_decide_eq_true hli, hi] at hr
    cases hr
  rw [hnone] at horig
  simpa using horig

/-- Before the append the target's links number `1, …, row.streamVersion - n`. -/
theorem target_versions (hc : st.Consistent) {id n : ℕ} {u : String} {row : StreamRow}
    (h : st.Target id u n row) :
    (st.links row.streamId).map (·.streamVersion) = List.range' 1 (row.streamVersion - n) := by
  cases h with
  | existing hold =>
    simpa [StreamRow.bump] using hc.versions _ (Store.mem_of_streamByUuid hold)
  | fresh h0 hid _ => simp [hc.links_eq_nil h0 hid]

theorem target_ne_zero (hc : st.Consistent) {id n : ℕ} {u : String} {row : StreamRow}
    (hu : u ≠ "$all") (h : st.Target id u n row) : row.streamId ≠ 0 := by
  cases h with
  | existing hold =>
    intro h0
    have hm := Store.mem_of_streamByUuid hold
    exact hu ((Store.uuid_of_streamByUuid hold).symm.trans ((hc.streamId_eq_zero_iff hm).mp h0))
  | fresh h0 _ _ => exact h0

/-- No other row has the target's name. -/
theorem target_other (hc : st.Consistent) {id n : ℕ} {u : String} {row x : StreamRow}
    (h : st.Target id u n row) (hx : x ∈ st.streams.rows) (hne : x.streamId ≠ row.streamId) :
    x.streamUuid ≠ u := by
  cases h with
  | existing hold =>
    rintro rfl
    rw [hc.streamByUuid_of_mem hx] at hold
    cases hold
    exact hne rfl
  | fresh _ _ hu => exact Store.streamByUuid_eq_none_iff.mp hu x hx

end Store.Consistent

theorem Store.Target.le {st : Store} {id n : ℕ} {u : String} {row : StreamRow}
    (h : st.Target id u n row) : n ≤ row.streamVersion := by
  cases h with
  | existing _ => exact Nat.le_add_left _ _
  | fresh _ _ _ => exact Nat.le_refl _

theorem Store.Target.uuid {st : Store} {id n : ℕ} {u : String} {row : StreamRow}
    (h : st.Target id u n row) : row.streamUuid = u := by
  cases h with
  | existing hold =>
    have hu := Store.uuid_of_streamByUuid hold
    exact hu
  | fresh _ _ _ => rfl

/-- A row under the target's id is the target's row. -/
theorem Store.Target.uuid_of_mem {st : Store} {id n : ℕ} {u : String} {row x : StreamRow}
    (h : st.Target id u n row) (hx : x ∈ st.streams.rows) (hid : x.streamId = row.streamId) :
    x.streamUuid = u := by
  cases h with
  | existing hold =>
    rw [st.streams.eq_of_key_eq hx (Store.mem_of_streamByUuid hold) hid]
    exact Store.uuid_of_streamByUuid hold
  | fresh _ hnone _ => exact absurd hid (Table.find?_eq_none_iff.mp hnone x hx)

/-! ## One batch -/

/-- The store after the steps (1) to (4) wrote `row`, `all` and the batch `es`. -/
def Store.appendBatch (st : Store) (row all : StreamRow) (es : List EventRow) : Store :=
  ((st.putStream row).putStream all).addEvents es
    (newLinks row.streamId (row.streamVersion - es.length) (all.streamVersion - es.length) es)

section AddBatch

variable {st : Store} {id : ℕ} {u : String} {row all : StreamRow} {es : List EventRow}

/-- What the statements of one append establish about the rows they write. -/
structure Store.BatchOk (st : Store) (id : ℕ) (u : String) (row all : StreamRow)
    (es : List EventRow) : Prop where
  not_all : u ≠ "$all"
  es_ne : es ≠ []
  target : st.Target id u es.length row
  allRow : ∃ old, st.streams.find? 0 = some old ∧ all = old.bump es.length
  unique : eventsViolation st es
    (newLinks row.streamId (row.streamVersion - es.length) (all.streamVersion - es.length) es) =
      none

variable (hc : st.Consistent) (hb : st.BatchOk id u row all es)
include hc hb

theorem all_streamId : all.streamId = 0 ∧ all.streamUuid = "$all" := by
  obtain ⟨old, hold, rfl⟩ := hb.allRow
  have hm := Table.find?_eq_some_iff.mp hold
  exact ⟨hm.2, (hc.streamId_eq_zero_iff hm.1).mp hm.2⟩

theorem row_streamId_ne : row.streamId ≠ 0 := hc.target_ne_zero hb.not_all hb.target

theorem appendBatch_find (i : ℕ) : (st.appendBatch row all es).streams.find? i =
    if i = 0 then some all else if i = row.streamId then some row else st.streams.find? i := by
  simp only [Store.appendBatch, addEvents_streams, Store.putStream_streams, Table.find?_put,
    (all_streamId hc hb).1, eq_comm]

theorem mem_appendBatch {x : StreamRow} : x ∈ (st.appendBatch row all es).streams.rows ↔
    x = all ∨ x = row ∨ (x ∈ st.streams.rows ∧ x.streamId ≠ row.streamId ∧ x.streamId ≠ 0) := by
  have h0 := (all_streamId hc hb).1
  have hne := row_streamId_ne hc hb
  simp only [Store.appendBatch, addEvents_streams, Store.putStream_streams, Table.mem_put, h0]
  constructor
  · rintro (rfl | ⟨rfl | ⟨hx, hr⟩, h0'⟩)
    · exact Or.inl rfl
    · exact Or.inr (Or.inl rfl)
    · exact Or.inr (Or.inr ⟨hx, hr, h0'⟩)
  · rintro (rfl | rfl | ⟨hx, hr, h0'⟩)
    · exact Or.inl rfl
    · exact Or.inr ⟨Or.inl rfl, hne⟩
    · exact Or.inr ⟨Or.inr ⟨hx, hr⟩, h0'⟩

theorem appendBatch_links (i : ℕ) : (st.appendBatch row all es).links i = st.links i ++
    if i = 0 then
      allLinks row.streamId (row.streamVersion - es.length) (all.streamVersion - es.length) es
    else if i = row.streamId then originLinks row.streamId (row.streamVersion - es.length) es
    else [] := by
  have hv : eventsViolation ((st.putStream row).putStream all) es _ = none := hb.unique
  rw [Store.appendBatch, addEvents_links hv, filter_newLinks (row_streamId_ne hc hb)]
  rfl

/-- **One batch keeps the event store consistent.** -/
theorem Store.Consistent.addBatch : (st.appendBatch row all es).Consistent := by
  have h0 := all_streamId hc hb
  have hne := row_streamId_ne hc hb
  have hfind := appendBatch_find hc hb
  have hmem := fun x => mem_appendBatch hc hb (x := x)
  have hlinks := appendBatch_links hc hb
  obtain ⟨old, hold, hallrow⟩ := hb.allRow
  refine ⟨?allRow, ?uuids, ?versions, ?nonempty, ?origin, ?own, ?eventIds, ?allOrigin⟩
  case allRow =>
    refine ⟨all.streamVersion, ?_⟩
    rw [hfind, if_pos rfl, ← h0.1, ← h0.2]
  case uuids =>
    have hu := hb.target.uuid
    have hau : all.streamUuid ≠ row.streamUuid := by rw [h0.2, hu]; exact hb.not_all.symm
    have holdall : ∀ x ∈ st.streams.rows, x.streamId ≠ 0 → x.streamUuid ≠ all.streamUuid :=
      fun x hx hx0 hxu => hx0 ((hc.streamId_eq_zero_iff hx).mpr (hxu.trans h0.2))
    have holdrow : ∀ x ∈ st.streams.rows, x.streamId ≠ row.streamId →
        x.streamUuid ≠ row.streamUuid := fun x hx hxr => hu ▸ hc.target_other hb.target hx hxr
    intro r hr r' hr' huu
    rcases (hmem r).mp hr with rfl | rfl | ⟨hro, hrr, hr0⟩ <;>
      rcases (hmem r').mp hr' with rfl | rfl | ⟨hro', hrr', hr0'⟩
    · rfl
    · exact absurd huu hau
    · exact absurd huu.symm (holdall r' hro' hr0')
    · exact absurd huu.symm hau
    · rfl
    · exact absurd huu.symm (holdrow r' hro' hrr')
    · exact absurd huu (holdall r hro hr0)
    · exact absurd huu (holdrow r hro hrr)
    · exact hc.uuids r hro r' hro' huu
  case versions =>
    intro r hr
    rw [hlinks, List.map_append]
    rcases (hmem r).mp hr with rfl | rfl | ⟨hr, hrr, hr0⟩
    · have hv := hc.versions old (Table.mem_of_find? hold)
      have hold0 : old.streamId = 0 := Table.key_of_find? hold
      rw [hold0] at hv
      rw [h0.1, if_pos rfl, hv, allLinks_streamVersion, hallrow, StreamRow.bump,
        Nat.add_sub_cancel, Nat.add_comm old.streamVersion 1, List.range'_append_1]
    · have hle := hb.target.le
      rw [if_neg hne, if_pos rfl, hc.target_versions hb.target, originLinks_streamVersion,
        Nat.add_comm _ 1, List.range'_append_1, Nat.sub_add_cancel hle]
    · rw [if_neg hr0, if_neg hrr, List.map_nil, List.append_nil, hc.versions r hr]
  case nonempty =>
    have hpos : 0 < es.length := List.length_pos_iff.mpr hb.es_ne
    intro r hr hr0
    rcases (hmem r).mp hr with rfl | rfl | ⟨hr, -, -⟩
    · exact absurd h0.1 hr0
    · exact Nat.le_trans hpos hb.target.le
    · exact hc.nonempty r hr hr0
  case origin =>
    intro s hs
    rw [hlinks, hlinks, if_neg hs, if_pos rfl, List.map_append, List.filter_append,
      List.map_append, hc.origin s hs]
    congr 1
    by_cases hsr : s = row.streamId
    · rw [if_pos hsr, List.filter_eq_self.mpr fun l hl => by
        simpa [hsr] using (mem_allLinks hl).2]
      exact originLinks_eq_allLinks _ _ _ _
    · rw [if_neg hsr, List.filter_eq_nil_iff.mpr fun l hl => by
        simpa [(mem_allLinks hl).2] using Ne.symm hsr]
      rfl
  case own =>
    intro l hl hl0
    have hml : l ∈ (st.appendBatch row all es).links l.streamId := Store.mem_links.mpr ⟨hl, rfl⟩
    rw [hlinks, if_neg hl0, List.mem_append] at hml
    rcases hml with hml | hml
    · exact hc.own l (Store.mem_links.mp hml).1 hl0
    · split_ifs at hml
      · exact (mem_originLinks hml).2
      · cases hml
  case eventIds =>
    have hv : eventsViolation ((st.putStream row).putStream all) es _ = none := hb.unique
    rw [hlinks, if_pos rfl, List.map_append, allLinks_eventId, ← hc.eventIds, Store.appendBatch,
      addEvents_events hv, List.map_append]
    rfl
  case allOrigin =>
    intro l hl
    rw [hlinks, if_pos rfl, List.mem_append] at hl
    rcases hl with hl | hl
    · obtain ⟨hl0, r, hr⟩ := hc.allOrigin l hl
      refine ⟨hl0, ?_⟩
      rw [hfind, if_neg hl0]
      split_ifs
      · exact ⟨row, rfl⟩
      · exact ⟨r, hr⟩
    · obtain ⟨-, horig⟩ := mem_allLinks hl
      rw [horig]
      exact ⟨hne, row, by rw [hfind, if_neg hne, if_pos rfl]⟩

end AddBatch

end Instructed
