import Instructed.Lib.Sequential
import Instructed.Store.Log

/-!
# `append_to_stream` refines the abstract append

Statement by statement, what `append_to_stream` does to a consistent store is what `appendLog` does
to its log. In particular no outcome depends on the surrogate ids of the streams, and of the three
unique constraints of the inserts only `events_pkey` can fail.

Results:

* `resolveStream_eq`, `bumpAll_eq`, `eventsViolation_eq`: the statements in terms of the log;
* `appendRequest_refines`: the call;
* `Db.Consistent.append_refines`: the call in its own transaction, as an operation of `logObject`.
-/

namespace Instructed

open Sql Relational Numbering Sequential

section Refine

variable {st : Store} {id : ℕ} {u : String} {row all : StreamRow} {es : List EventRow}

/-! ## Step (1) -/

/-- The row that step (1) writes when it succeeds. -/
def targetRow (st : Store) (id : ℕ) (u : String) (n : ℕ) : StreamRow :=
  match st.streamByUuid u with
  | some row => row.bump n
  | none => ⟨id, u, n⟩

theorem targetRow_target (h0 : id ≠ 0) (hid : st.streams.find? id = none) (u : String) (n : ℕ) :
    st.Target id u n (targetRow st id u n) := by
  unfold targetRow
  cases h : st.streamByUuid u with
  | some row => exact .existing h
  | none => exact .fresh h0 hid h

theorem insertStream_eq (hid : st.streams.find? id = none) (u : String) (n : ℕ) :
    insertStream st id u n =
      if (st.streamByUuid u).isSome then .error .streamsStreamUuidKey else .ok ⟨id, u, n⟩ := by
  simp [insertStream, hid]

/-- Step (1) succeeds when the log allows the append, and raises the same error otherwise. -/
theorem resolveStream_eq (hc : st.Consistent) (hid : st.streams.find? id = none)
    (r : AppendRequest) : resolveStream st id r =
      (checkExpected st.log r.streamUuid r.expected).map fun _ =>
        targetRow st id r.streamUuid r.n := by
  have hnone := hc.streamByUuid_eq_none_iff r.not_all
  unfold resolveStream checkExpected targetRow
  cases h : st.streamByUuid r.streamUuid with
  | none =>
    have hnil := hnone.mp h
    cases r.expected with
    | any => simp [upsertStream, h, insertStream_eq hid, Except.map]
    | noStream => simp [createStream, h, insertStream_eq hid, hnil, Except.map]
    | streamExists => simp [hnil, Except.map]
    | exact v =>
      by_cases hv : v = 0
      · simp [createStreamAtZero, h, insertStream_eq hid, hnil, hv, Except.map]
      · simp [hnil, hv, Except.map]
  | some old =>
    have hne : onStream r.streamUuid st.log ≠ [] := fun hnil => by
      rw [hnone.mpr hnil] at h
      cases h
    obtain ⟨-, -, -, hver⟩ := hc.of_streamByUuid r.not_all h
    cases r.expected with
    | any => simp [upsertStream, h, Except.map]
    | noStream => simp [createStream, h, insertStream_eq hid, hne, raise, Except.map]
    | streamExists => simp [hne, Except.map]
    | exact v =>
      by_cases hv : old.streamVersion = v
      · simp [checkVersion, hne, hv, ← hver, Except.map, bind, Except.bind, pure, Except.pure]
      · simp [checkVersion, hne, hv, ← hver, raise, Except.map, bind, Except.bind]

/-! ## Step (2) -/

/-- Step (2) finds the `$all` row, whose counter is the length of the log. -/
theorem bumpAll_eq (hc : st.Consistent) (hrow : row.streamId ≠ 0) (n : ℕ) :
    bumpAll (st.putStream row) n = .ok ⟨0, "$all", st.log.length + n⟩ := by
  obtain ⟨h, hall⟩ := hc.allRow
  have hlen := hc.all_streamVersion hall
  simp only [bumpAll, Store.putStream_streams, Table.find?_put, if_neg hrow, hall, StreamRow.bump]
  exact congrArg _ (by rw [← hlen])

/-! ## Steps (3) and (4) -/

/-- Every link is the link of an event of the log. -/
theorem Store.Consistent.link_eventId (hc : st.Consistent) {l : StreamEventRow}
    (hl : l ∈ st.streamEvents.rows) : l.eventId ∈ st.log.map (·.eventId) := by
  rw [hc.log_eventId, hc.eventIds]
  by_cases h0 : l.streamId = 0
  · exact List.mem_map_of_mem (Store.mem_links.mpr ⟨hl, h0⟩)
  · obtain ⟨a, ha, hae, -, -⟩ := hc.exists_allLink hl h0
    exact hae ▸ List.mem_map_of_mem ha

theorem mem_newLinks_eventId {streamId baseSv baseEn : ℕ} {l : StreamEventRow}
    (hl : l ∈ newLinks streamId baseSv baseEn es) : l.eventId ∈ es.map (·.eventId) := by
  rcases List.mem_append.mp hl with h | h
  · exact originLinks_eventId streamId baseSv es ▸ List.mem_map_of_mem h
  · exact allLinks_eventId streamId baseSv baseEn es ▸ List.mem_map_of_mem h

/-- A key that contains the stream is unique in a batch when it is on each of the two streams. -/
theorem newLinks_nodup {streamId baseSv baseEn : ℕ} {β : Type} (h0 : streamId ≠ 0)
    {f : StreamEventRow → β} (g : β → ℕ) (hg : ∀ l, g (f l) = l.streamId)
    (horig : ((originLinks streamId baseSv es).map f).Nodup)
    (hall : ((allLinks streamId baseSv baseEn es).map f).Nodup) :
    ((newLinks streamId baseSv baseEn es).map f).Nodup := by
  rw [newLinks, List.map_append, List.nodup_append]
  refine ⟨horig, hall, fun x hx y hy hxy => ?_⟩
  obtain ⟨l, hl, rfl⟩ := List.mem_map.mp hx
  obtain ⟨a, ha, rfl⟩ := List.mem_map.mp hy
  have h := congrArg g hxy
  rw [hg, hg, (mem_originLinks hl).1, (mem_allLinks ha).1] at h
  exact h0 h

theorem newLinks_pkey_nodup {streamId baseSv baseEn : ℕ} (h0 : streamId ≠ 0)
    (hnd : (es.map (·.eventId)).Nodup) :
    ((newLinks streamId baseSv baseEn es).map (·.pkey)).Nodup := by
  refine newLinks_nodup h0 Prod.snd (fun _ => rfl) ?_ ?_
  · refine List.Nodup.of_map Prod.fst ?_
    rw [List.map_map]
    exact originLinks_eventId streamId baseSv es ▸ hnd
  · refine List.Nodup.of_map Prod.fst ?_
    rw [List.map_map]
    exact allLinks_eventId streamId baseSv baseEn es ▸ hnd

theorem newLinks_versionKey_nodup {streamId baseSv baseEn : ℕ} (h0 : streamId ≠ 0) :
    ((newLinks streamId baseSv baseEn es).map (·.versionKey)).Nodup := by
  refine newLinks_nodup h0 Prod.fst (fun _ => rfl) ?_ ?_
  · refine List.Nodup.of_map Prod.snd ?_
    rw [List.map_map]
    exact originLinks_streamVersion streamId baseSv es ▸ List.nodup_range'
  · refine List.Nodup.of_map Prod.snd ?_
    rw [List.map_map]
    exact allLinks_streamVersion streamId baseSv baseEn es ▸ List.nodup_range'

/-- The positions of the batch lie above every position in use. -/
theorem newLinks_versionKey_fresh (hc : st.Consistent) (ht : st.Target id u es.length row)
    {l x : StreamEventRow}
    (hl : l ∈ newLinks row.streamId (row.streamVersion - es.length) st.log.length es)
    (hx : x ∈ st.streamEvents.rows) : x.versionKey ≠ l.versionKey := by
  intro heq
  obtain ⟨hid, hver⟩ := Prod.mk.injEq .. ▸ heq
  have hxl : x.streamVersion ∈ (st.links l.streamId).map (·.streamVersion) :=
    List.mem_map_of_mem (Store.mem_links.mpr ⟨hx, hid⟩)
  rcases List.mem_append.mp hl with h | h
  · have hlv : l.streamVersion ∈ _ := List.mem_map_of_mem h
    rw [originLinks_streamVersion, List.mem_range'_1] at hlv
    rw [(mem_originLinks h).1, hc.target_versions ht, List.mem_range'_1] at hxl
    omega
  · have hlv : l.streamVersion ∈ _ := List.mem_map_of_mem h
    rw [allLinks_streamVersion, List.mem_range'_1] at hlv
    obtain ⟨all, hall⟩ := hc.allRow
    have hv := hc.versions _ (Table.mem_of_find? hall)
    have hlen := hc.all_streamVersion hall
    rw [(mem_allLinks h).1, hv, List.mem_range'_1] at hxl
    omega

/-- The only constraint that the inserts of one batch can violate is `events_pkey`. -/
theorem eventsViolation_eq (hc : st.Consistent) (ht : st.Target id u es.length row)
    (h0 : row.streamId ≠ 0) :
    eventsViolation st es
        (newLinks row.streamId (row.streamVersion - es.length) st.log.length es) =
      if FreshIds st.log es then none else some .eventsPkey := by
  have hfresh : ∀ e, st.events.find? e = none ↔ e ∉ st.log.map (·.eventId) := by
    intro e
    rw [hc.log_eventId, Table.find?_eq_none_iff]
    simp
  have hiff : FreshIds st.log es ↔ (es.map (·.eventId)).Nodup ∧
      ∀ e ∈ es, st.events.find? e.eventId = none := by
    simp only [FreshIds, hfresh]
  by_cases h : FreshIds st.log es
  · have hpk : ∀ l ∈ newLinks row.streamId (row.streamVersion - es.length) st.log.length es,
        st.streamEvents.find? l.pkey = none := by
      intro l hl
      rw [Table.find?_eq_none_iff]
      intro x hx hk
      have hxe := hc.link_eventId hx
      rw [show x.eventId = l.eventId from congrArg Prod.fst hk] at hxe
      obtain ⟨e, he, hel⟩ := List.mem_map.mp (mem_newLinks_eventId hl)
      exact h.2 e he (hel ▸ hxe)
    rw [if_pos h, eventsViolation, if_neg (not_not.mpr (hiff.mp h)),
      if_neg (not_not.mpr ⟨newLinks_pkey_nodup h0 h.1, hpk⟩),
      if_neg (not_not.mpr ⟨newLinks_versionKey_nodup h0, fun l hl x hx =>
        newLinks_versionKey_fresh hc ht hl hx⟩)]
  · rw [if_neg h, eventsViolation, if_pos (mt hiff.mpr h)]

theorem insertEvents_eq (hc : st.Consistent) {now : Timestamp} {r : AppendRequest}
    (ht : st.Target id u r.n row) (h0 : row.streamId ≠ 0)
    (hall : all.streamVersion = st.log.length + r.n) :
    insertEvents ((st.putStream row).putStream all) now r row all =
      (newEvents now r.events).bind fun es =>
        if FreshIds st.log es then
          .ok ⟨es, newLinks row.streamId (row.streamVersion - es.length) st.log.length es,
            appendedRows (row.streamVersion - es.length) st.log.length es⟩
        else .error EventsConstraint.eventsPkey.toError := by
  unfold insertEvents
  cases hes : newEvents now r.events with
  | error e => rfl
  | ok es =>
    have hlen : es.length = r.n := newEvents_length hes
    have hen : all.streamVersion - r.n = st.log.length := by omega
    have ht' : st.Target id u es.length row := hlen ▸ ht
    have hv := eventsViolation_eq hc ht' h0
    simp only [bind, Except.bind]
    rw [← hlen] at hen ⊢
    rw [hen, show eventsViolation ((st.putStream row).putStream all) es _ = _ from hv]
    split_ifs <;> rfl

/-- What a batch with fresh ids needs in order to be inserted. -/
theorem batchOk_of_fresh (hc : st.Consistent) (hu : u ≠ "$all")
    (ht : st.Target id u es.length row) (hne : es ≠ []) (hfresh : FreshIds st.log es) :
    st.BatchOk id u row ⟨0, "$all", st.log.length + es.length⟩ es := by
  obtain ⟨h, hall⟩ := hc.allRow
  have hlog := hc.all_streamVersion hall
  have hv := eventsViolation_eq hc ht (hc.target_ne_zero hu ht)
  refine ⟨hu, hne, ht, ⟨_, hall, ?_⟩, ?_⟩
  · rw [StreamRow.bump, ← hlog]
  · rw [Nat.add_sub_cancel, hv, if_pos hfresh]

/-! ## The call -/

theorem map_recordBatch (log : List RecordedEvent) (u : String) (es : List EventRow) :
    (recordBatch log u es).map RecordedEvent.toAppendedRow =
      appendedRows (onStream u log).length log.length es := by
  rw [recordBatch, List.map_map]
  rfl

/-- **`append_to_stream` is the abstract append.** On a consistent store, and with an unused
    identity value, a checked request raises what `appendLog` raises; otherwise it writes one batch,
    extends the log by what `appendLog` returns, and returns those events' positions. -/
theorem appendRequest_refines (hc : st.Consistent) (h0 : id ≠ 0) (hid : st.streams.find? id = none)
    (now : Timestamp) (r : AppendRequest) :
    match appendLog now r st.log with
    | .error e => appendRequest id now r st = .error e
    | .ok new => ∃ row all es, st.BatchOk id r.streamUuid row all es ∧
        appendRequest id now r st =
          .ok (new.map RecordedEvent.toAppendedRow, st.appendBatch row all es) ∧
        (st.appendBatch row all es).log = st.log ++ new := by
  have ht := targetRow_target h0 hid r.streamUuid r.n
  have hne := hc.target_ne_zero r.not_all ht
  unfold appendLog appendRequest
  rw [resolveStream_eq hc hid r]
  cases hcheck : checkExpected st.log r.streamUuid r.expected with
  | error e => rfl
  | ok _ =>
    simp only [bind, Except.bind, Except.map, bumpAll_eq hc hne, insertEvents_eq hc ht hne]
    cases hes : newEvents now r.events with
    | error e => rfl
    | ok es =>
      have hlen : es.length = r.n := newEvents_length hes
      rw [← hlen] at ht hne ⊢
      by_cases hfresh : FreshIds st.log es
      · have hb := batchOk_of_fresh hc r.not_all ht
          (List.ne_nil_of_length_pos (hlen ▸ r.n_pos)) hfresh
        obtain ⟨hsv, hen⟩ := batch_bases hc hb
        simp only [if_pos hfresh]
        refine ⟨_, _, es, hb, ?_, log_appendBatch hc hb⟩
        simp only [hsv, map_recordBatch, Store.appendBatch, hen]
        rfl
      · simp only [if_neg hfresh]
        rfl

end Refine

section AppendBatchFrame

variable (st : Store) (row all : StreamRow) (es : List EventRow)

@[simp] theorem appendBatch_snapshots : (st.appendBatch row all es).snapshots = st.snapshots := rfl
@[simp] theorem appendBatch_subscriptions :
    (st.appendBatch row all es).subscriptions = st.subscriptions := rfl
@[simp] theorem appendBatch_workItems : (st.appendBatch row all es).workItems = st.workItems := rfl

end AppendBatchFrame

theorem Db.Consistent.seq_fresh {db : Db} (hc : db.Consistent) :
    db.store.streams.find? db.streamIdSeq = none :=
  Table.find?_eq_none_iff.mpr fun r hr h => absurd (hc.seq r hr) (by omega)

/-! ## The call as an operation of a sequential object -/

/-- The abstract call, with its input checks. -/
def appendCall (now : Timestamp) (a : AppendArgs) (log : List RecordedEvent) :
    Except SqlError (List RecordedEvent) := do
  let r ← validateAppend a
  appendLog now r log

/-- What a successful call found, and what it adds to the log. -/
theorem appendCall_ok {now : Timestamp} {a : AppendArgs} {log new : List RecordedEvent}
    (h : appendCall now a log = .ok new) :
    ∃ r es, validateAppend a = .ok r ∧ checkExpected log r.streamUuid r.expected = .ok () ∧
      newEvents now r.events = .ok es ∧ FreshIds log es ∧ new = recordBatch log r.streamUuid es := by
  obtain ⟨r, hr, h⟩ := bind_eq_ok.mp h
  obtain ⟨_, hcheck, h⟩ := bind_eq_ok.mp h
  obtain ⟨es, hes, h⟩ := bind_eq_ok.mp h
  split_ifs at h with hfresh
  obtain rfl := Except.ok.inj h
  exact ⟨r, es, hr, hcheck, hes, hfresh, rfl⟩

/-- What a call that raises an error found. -/
theorem appendCall_error {now : Timestamp} {a : AppendArgs} {log : List RecordedEvent} {e : SqlError}
    (h : appendCall now a log = .error e) :
    validateAppend a = .error e ∨ ∃ r, validateAppend a = .ok r ∧
      (checkExpected log r.streamUuid r.expected = .error e ∨ newEvents now r.events = .error e ∨
        e = EventsConstraint.eventsPkey.toError) := by
  rcases bind_eq_error h with hr | ⟨r, hr, h⟩
  · exact Or.inl hr
  refine Or.inr ⟨r, hr, ?_⟩
  rcases bind_eq_error h with hcheck | ⟨_, -, h⟩
  · exact Or.inl hcheck
  rcases bind_eq_error h with hes | ⟨es, -, h⟩
  · exact Or.inr (Or.inl hes)
  split_ifs at h
  · cases h
  · obtain rfl := Except.error.inj h
    exact Or.inr (Or.inr rfl)

/-- The log as a sequential object: a call answers with the positions of its events. -/
def logObject :
    Object (List RecordedEvent) (Timestamp × AppendArgs) (Except SqlError (List AppendedRow)) where
  answer log c := (appendCall c.1 c.2 log).map (List.map RecordedEvent.toAppendedRow)
  next log c := log ++ ((appendCall c.1 c.2 log).toOption.getD [])

/-- The database as a sequential object. -/
def dbObject : Object Db (Timestamp × AppendArgs) (Except SqlError (List AppendedRow)) where
  answer db c := (db.append c.1 c.2).1
  next db c := (db.append c.1 c.2).2

/-- **One call of `append_to_stream` is one operation on the log.** The other tables stay as they
    are. -/
theorem Db.Consistent.append_refines {db : Db} (hc : db.Consistent) (c : Timestamp × AppendArgs) :
    dbObject.answer db c = logObject.answer db.store.log c ∧
      (dbObject.next db c).store.log = logObject.next db.store.log c ∧
      (dbObject.next db c).store.snapshots = db.store.snapshots ∧
      (dbObject.next db c).store.subscriptions = db.store.subscriptions ∧
      (dbObject.next db c).store.workItems = db.store.workItems := by
  obtain ⟨now, a⟩ := c
  simp only [dbObject, logObject, appendCall, Db.append, appendToStream]
  cases hr : validateAppend a with
  | error e => simp [bind, Except.bind, Except.map, Except.toOption]
  | ok r =>
    have href := appendRequest_refines hc.store (Nat.pos_iff_ne_zero.mp hc.seq_pos) hc.seq_fresh
      now r
    simp only [bind, Except.bind]
    cases hnew : appendLog now r db.store.log with
    | error e =>
      rw [hnew] at href
      rw [href]
      simp [Except.map, Except.toOption]
    | ok new =>
      rw [hnew] at href
      obtain ⟨row, all, es, -, happ, hlog⟩ := href
      rw [happ]
      exact ⟨rfl, hlog, rfl, rfl, rfl⟩

/-- A call either appends what the abstract call returns, or raises and leaves the log alone. -/
theorem Db.Consistent.append_cases {db : Db} (hc : db.Consistent) (now : Timestamp)
    (a : AppendArgs) :
    (∃ new, appendCall now a db.store.log = .ok new ∧
      (db.append now a).1 = .ok (new.map RecordedEvent.toAppendedRow) ∧
      (db.append now a).2.store.log = db.store.log ++ new) ∨
    ∃ e, (db.append now a).1 = .error e ∧ (db.append now a).2.store.log = db.store.log := by
  obtain ⟨hans, hnext, -⟩ := hc.append_refines (now, a)
  simp only [dbObject, logObject] at hans hnext
  cases h : appendCall now a db.store.log with
  | ok new =>
    rw [h] at hans hnext
    exact Or.inl ⟨new, rfl, hans, hnext⟩
  | error e =>
    rw [h] at hans hnext
    exact Or.inr ⟨e, hans, hnext.trans (List.append_nil _)⟩

/-- A history that is legal for the log is legal for the database it is the log of. -/
theorem legal_dbObject {R : Timestamp × AppendArgs → Except SqlError (List AppendedRow) →
    Except SqlError (List AppendedRow) → Prop} {log : List RecordedEvent} {db : Db}
    {h : List ((Timestamp × AppendArgs) × Except SqlError (List AppendedRow))}
    (hl : Legal logObject R db.store.log h log) (hc : db.Consistent) :
    ∃ db', Legal dbObject R db h db' ∧ db'.Consistent ∧ db'.store.log = log := by
  refine hl.simulate (S := fun log (db : Db) => db.Consistent ∧ db.store.log = log) ?_ ?_ ⟨hc, rfl⟩
  · rintro log db c ⟨hc, rfl⟩
    exact (hc.append_refines c).1.symm
  · rintro log db c ⟨hc, rfl⟩
    exact ⟨hc.append c.1 c.2, (hc.append_refines c).2.1⟩

end Instructed
