import Instructed.Store.Refine

/-!
# Which appends succeed

The outcome of `append_to_stream` on a batch of well-formed events, in terms of the stream's version
and of the stored event ids alone.

* `Db.Reachable`: the databases that any calls reach; the other procedures leave the event store alone;
* `WellFormedEvent`, `eventIds`: what the caller sends;
* `VersionOk`, `IdsOk`: the two conditions;
* `AppendedTo`, `AppendOutcome`, `append_outcome`: a call succeeds when both hold, and raises otherwise.
-/

namespace Instructed

open Sql Relational Numbering

/-! ## Reachable databases -/

/-- The databases reached from the install script by calls of the procedures. Those other than
    `append_to_stream` leave the streams, the events and their links alone. -/
inductive Db.Reachable : Db → Prop
  | install : Db.Reachable Db.install
  | append {db : Db} (now : Timestamp) (a : AppendArgs) : db.Reachable →
      Db.Reachable (db.append now a).2
  | other {db : Db} {st : Store} : db.Reachable → db.store.SameEvents st →
      Db.Reachable { db with store := st }

theorem Db.Reachable.consistent {db : Db} (h : db.Reachable) : db.Consistent := by
  induction h with
  | install => exact Db.install_consistent
  | append now a _ ih => exact ih.append now a
  | other _ hsame ih => exact ⟨hsame.consistent ih.store, ih.seq_pos, hsame.streams ▸ ih.seq⟩

/-! ## The batch -/

/-- The id of one element of `p_events`. -/
def eventId? (evt : Json) : Option Uuid := (evt.getText? "event_id").bind uuidOfText

/-- The ids of `p_events`. -/
def eventIds (events : List Json) : List Uuid := events.filterMap eventId?

/-- An object with a UUID, a type and data. A causation or correlation id is absent, null, empty or a
    UUID. -/
structure WellFormedEvent (evt : Json) : Prop where
  event_id : ∃ s u, evt.get? "event_id" = some (.str s) ∧ uuidOfText s = some u
  event_type : ∃ s, evt.get? "event_type" = some (.str s)
  data : ∃ d, evt.get? "data" = some d
  causation_id : ∃ u, castUuid (nullifEmpty (evt.getText? "causation_id")) = .ok u
  correlation_id : ∃ u, castUuid (nullifEmpty (evt.getText? "correlation_id")) = .ok u

section Batch

variable {evt : Json} {events : List Json} {now : Timestamp}

theorem hasKey_of_get? {k : String} {j : Json} (h : evt.get? k = some j) : evt.hasKey k = true := by
  cases evt with
  | obj fields =>
    obtain ⟨f, hf, -⟩ := Option.map_eq_some_iff.mp h
    have hkey := List.find?_some hf
    exact List.any_eq_true.mpr ⟨f, List.mem_of_find?_eq_some hf, hkey⟩
  | _ => cases h

theorem getText?_of_str {k s : String} (h : evt.get? k = some (.str s)) :
    evt.getText? k = some s := by
  rw [Json.getText?, h]

namespace WellFormedEvent

theorem not_misshapen (h : WellFormedEvent evt) : misshapen evt = some false := by
  obtain ⟨s, u, hid, -⟩ := h.event_id
  obtain ⟨t, htype⟩ := h.event_type
  obtain ⟨d, hdata⟩ := h.data
  simp [misshapen, hasKey_of_get? hid, hasKey_of_get? htype, hasKey_of_get? hdata, hid, htype,
    typeofNe, Json.typeof, sqlOr]

/-- The row of `events` of a well-formed event. -/
theorem exists_row (h : WellFormedEvent evt) (now : Timestamp) : ∃ r e, newEventRow evt = .ok r ∧
    r.toEventRow now = .ok e ∧ eventId? evt = some e.eventId := by
  obtain ⟨s, u, hid, hu⟩ := h.event_id
  obtain ⟨t, htype⟩ := h.event_type
  obtain ⟨c, hc⟩ := h.causation_id
  obtain ⟨k, hk⟩ := h.correlation_id
  have hcast : castUuid (evt.getText? "event_id") = .ok (some u) := by
    rw [getText?_of_str hid]
    simp only [castUuid, hu]
  refine ⟨⟨some u, some t, c, k, (evt.get? "data").getD .null, evt.get? "metadata"⟩,
    ⟨u, t, c, k, (evt.get? "data").getD .null, evt.get? "metadata", now⟩, ?_, rfl, ?_⟩
  · rw [newEventRow, hcast, hc, hk, getText?_of_str htype]
    rfl
  · rw [eventId?, getText?_of_str hid]
    exact hu

end WellFormedEvent

/-- A fallible function that succeeds on every element succeeds on the list. -/
theorem mapM_ok_of_forall {α β ε : Type} {f : α → Except ε β} {xs : List α}
    (h : ∀ x ∈ xs, ∃ y, f x = .ok y) : ∃ ys, xs.mapM f = .ok ys := by
  induction xs with
  | nil => exact ⟨[], rfl⟩
  | cons x xs ih =>
    obtain ⟨y, hy⟩ := h x List.mem_cons_self
    obtain ⟨ys, hys⟩ := ih fun z hz => h z (List.mem_cons_of_mem _ hz)
    refine ⟨y :: ys, ?_⟩
    rw [List.mapM_cons, hy, hys]
    rfl

/-- The rows of a well-formed batch, with its ids. -/
theorem newEvents_ok (h : ∀ evt ∈ events, WellFormedEvent evt) (now : Timestamp) :
    ∃ es, newEvents now events = .ok es ∧ es.map (·.eventId) = eventIds events := by
  obtain ⟨rows, hrows⟩ : ∃ rows, events.mapM newEventRow = .ok rows := by
    refine mapM_ok_of_forall fun evt hevt => ?_
    obtain ⟨r, -, hr, -⟩ := (h evt hevt).exists_row now
    exact ⟨r, hr⟩
  have hrow : ∀ r ∈ rows, ∃ evt ∈ events, ∃ e, newEventRow evt = .ok r ∧
      r.toEventRow now = .ok e ∧ eventId? evt = some e.eventId := by
    intro r hr
    obtain ⟨evt, hevt, heq⟩ := mem_of_mapM_ok hrows hr
    obtain ⟨r', e, hr', he, hid⟩ := (h evt hevt).exists_row now
    obtain rfl := Except.ok.inj (hr'.symm.trans heq)
    exact ⟨evt, hevt, e, hr', he, hid⟩
  obtain ⟨es, hes⟩ : ∃ es, rows.mapM (NewEventRow.toEventRow now) = .ok es := by
    refine mapM_ok_of_forall fun r hr => ?_
    obtain ⟨_, -, e, -, he, -⟩ := hrow r hr
    exact ⟨e, he⟩
  refine ⟨es, ?_, ?_⟩
  · rw [newEvents, hrows]
    exact hes
  · have hids : es.map (fun e => some e.eventId) = rows.map (·.eventId) := by
      refine map_of_mapM_ok (fun r _ e he => ?_) hes
      unfold NewEventRow.toEventRow at he
      split at he
      · cases he
        simp [*]
      · cases he
    have hrowIds : rows.map (·.eventId) = events.map eventId? := by
      refine map_of_mapM_ok (fun evt hevt r hr => ?_) hrows
      obtain ⟨r', e, hr', he, hid⟩ := (h evt hevt).exists_row now
      obtain rfl := Except.ok.inj (hr'.symm.trans hr)
      unfold NewEventRow.toEventRow at he
      split at he
      · cases he
        simp [*]
      · cases he
    have hmap := congrArg (List.filterMap id) (hids.trans hrowIds)
    simpa [List.filterMap_map, eventIds] using hmap

/-- A well-formed batch passes the input checks. -/
theorem eventsOf_wellFormed (h : ∀ evt ∈ events, WellFormedEvent evt) (hne : events ≠ []) :
    eventsOf (some (.arr events)) = .ok ⟨events, hne⟩ := by
  have hshape : (events.any fun evt => misshapen evt = some true) = false := by
    rw [List.any_eq_false]
    intro evt hevt
    simp [(h evt hevt).not_misshapen]
  have hids : (events.any fun evt => (castUuid (evt.getText? "event_id")).isOk = false) = false := by
    rw [List.any_eq_false]
    intro evt hevt
    obtain ⟨s, u, hid, hu⟩ := (h evt hevt).event_id
    simp [getText?_of_str hid, castUuid, hu, Except.isOk, Except.toBool]
  simp only [eventsOf, dif_neg hne, hshape, hids, Bool.false_eq_true, if_false]

end Batch

/-! ## The two conditions -/

/-- The version of a stream; a stream that is absent is at 0. -/
def Store.versionOf (st : Store) (u : String) : ℕ :=
  match st.streamByUuid u with
  | some row => row.streamVersion
  | none => 0

/-- The version condition of a mode. -/
def VersionOk (st : Store) (u : String) : ExpectedVersion → Prop
  | .any => True
  | .noStream => st.streamByUuid u = none
  | .streamExists => st.streamByUuid u ≠ none
  | .exact v => st.streamByUuid u ≠ none ∧ st.versionOf u = v ∨ st.streamByUuid u = none ∧ v = 0

/-- What a mode raises when its condition fails; `any` has none that could. -/
def ExpectedVersion.failure : ExpectedVersion → SqlState
  | .noStream => .IS002
  | .streamExists => .IS003
  | .any | .exact _ => .IS001

/-- No id is stored or repeated. -/
def IdsOk (st : Store) (ids : List Uuid) : Prop :=
  ids.Nodup ∧ ∀ id ∈ ids, ∀ e ∈ st.events.rows, e.eventId ≠ id

section Conditions

variable {st : Store} (hc : st.Consistent)
include hc

theorem versionOf_eq {u : String} (hu : u ≠ "$all") :
    st.versionOf u = (onStream u st.log).length := by
  unfold Store.versionOf
  cases h : st.streamByUuid u with
  | none => rw [(hc.streamByUuid_eq_none_iff hu).mp h, List.length_nil]
  | some row => exact (hc.of_streamByUuid hu h).2.2.2

theorem versionOf_all : st.versionOf "$all" = st.log.length := by
  have h := hc.streamVersion_all
  unfold Store.versionOf
  cases hall : st.streamByUuid "$all" with
  | none =>
    rw [hall] at h
    cases h
  | some row =>
    rw [hall] at h
    exact Option.some.inj h

/-- The check of the abstract append is the version condition. -/
theorem checkExpected_of_versionOk {u : String} (hu : u ≠ "$all") {x : ExpectedVersion}
    (h : VersionOk st u x) : checkExpected st.log u x = .ok () := by
  have hnone := hc.streamByUuid_eq_none_iff hu
  have hversion := versionOf_eq hc hu
  cases x with
  | any => rfl
  | noStream => rw [checkExpected, if_pos (hnone.mp h)]
  | streamExists => rw [checkExpected, if_neg fun hnil => h (hnone.mpr hnil)]
  | exact v =>
    rcases h with ⟨hsome, hv⟩ | ⟨habsent, rfl⟩
    · have hne : onStream u st.log ≠ [] := fun hnil => hsome (hnone.mpr hnil)
      rw [checkExpected, if_neg hne, if_neg (by omega)]
    · rw [checkExpected, if_pos (hnone.mp habsent), if_pos rfl]

theorem checkExpected_of_not_versionOk {u : String} (hu : u ≠ "$all") {x : ExpectedVersion}
    (h : ¬ VersionOk st u x) : ∃ message, checkExpected st.log u x = .error ⟨x.failure, message⟩ := by
  have hnone := hc.streamByUuid_eq_none_iff hu
  have hversion := versionOf_eq hc hu
  cases x with
  | any => exact absurd trivial h
  | noStream =>
    rw [checkExpected, if_neg fun hnil => h (hnone.mpr hnil)]
    exact ⟨_, rfl⟩
  | streamExists =>
    have hnil := hnone.mp (not_not.mp h)
    rw [checkExpected, if_pos hnil]
    exact ⟨_, rfl⟩
  | exact v =>
    by_cases hnil : onStream u st.log = []
    · have hv : v ≠ 0 := fun hv => h (Or.inr ⟨hnone.mpr hnil, hv⟩)
      rw [checkExpected, if_pos hnil, if_neg hv]
      exact ⟨_, rfl⟩
    · have hsome : st.streamByUuid u ≠ none := fun habsent => hnil (hnone.mp habsent)
      have hv : (onStream u st.log).length ≠ v := fun hv => h (Or.inl ⟨hsome, hversion.trans hv⟩)
      rw [checkExpected, if_neg hnil, if_pos hv]
      exact ⟨_, rfl⟩

theorem freshIds_iff {es : List EventRow} {ids : List Uuid} (h : es.map (·.eventId) = ids) :
    FreshIds st.log es ↔ IdsOk st ids := by
  subst h
  rw [FreshIds, IdsOk, hc.log_eventId]
  refine and_congr_right fun _ => ⟨fun hnew id hid e he heq => ?_, fun hnew e he hid => ?_⟩
  · obtain ⟨x, hx, rfl⟩ := List.mem_map.mp hid
    exact hnew x hx (List.mem_map.mpr ⟨e, he, heq⟩)
  · obtain ⟨x, hx, heq⟩ := List.mem_map.mp hid
    exact hnew _ (List.mem_map_of_mem he) x hx heq

end Conditions

/-! ## The outcome -/

/-- A batch was appended to the stream `u`. -/
structure AppendedTo (st st' : Store) (u : String) (events : List Json) (rows : List AppendedRow) :
    Prop where
  ids : rows.map (·.eventId) = eventIds events
  length : rows.length = events.length
  streamVersions : rows.map (·.streamVersion) = List.range' (st.versionOf u + 1) events.length
  eventNumbers : rows.map (·.eventNumber) = List.range' (st.versionOf "$all" + 1) events.length
  version : st'.versionOf u = st.versionOf u + events.length
  head : st'.versionOf "$all" = st.versionOf "$all" + events.length
  log : ∃ new, st'.log = st.log ++ new ∧ new.map RecordedEvent.toAppendedRow = rows ∧
    ∀ e ∈ new, e.streamUuid = u
  streams : ∀ v, v ≠ u → v ≠ "$all" → st'.streamByUuid v = st.streamByUuid v
  links : ∀ v row, v ≠ u → v ≠ "$all" → st.streamByUuid v = some row →
    st'.links row.streamId = st.links row.streamId
  content : ∀ v, v ≠ u → onStream v st'.log = onStream v st.log

/-- The outcome `res` of an append of a well-formed batch to the stream `u`. -/
structure AppendOutcome (db db' : Db) (u : String) (x : ExpectedVersion) (events : List Json)
    (res : Except SqlError (List AppendedRow)) : Prop where
  succeeds_iff : (∃ rows, res = .ok rows) ↔
    VersionOk db.store u x ∧ IdsOk db.store (eventIds events)
  version : ¬ VersionOk db.store u x → ∃ message, res = .error ⟨x.failure, message⟩
  duplicate : VersionOk db.store u x → ¬ IdsOk db.store (eventIds events) →
    ∃ message, res = .error ⟨.IS004, message⟩
  unchanged : ∀ e, res = .error e → db'.store = db.store
  appended : ∀ rows, res = .ok rows → AppendedTo db.store db'.store u events rows

/-- An append that raises leaves the tables as they are. -/
theorem Db.append_error {db : Db} {now : Timestamp} {a : AppendArgs} {e : SqlError}
    (h : (db.append now a).1 = .error e) : (db.append now a).2.store = db.store := by
  unfold Db.append at h ⊢
  split at h
  · cases h
  · simp only [*]

section AppendedTo

variable {st : Store} {id : ℕ} {u : String} {row all : StreamRow} {es : List EventRow}
  {events : List Json} (hc : st.Consistent) (hb : st.BatchOk id u row all es)
include hc hb

/-- The rows of the other streams. -/
theorem streamByUuid_appendBatch {v : String} (hv : v ≠ u) (hall : v ≠ "$all") :
    (st.appendBatch row all es).streamByUuid v = st.streamByUuid v := by
  have hc' := hc.addBatch hb
  have hrow := hb.target.uuid
  have h0 := all_streamId hc hb
  cases h : st.streamByUuid v with
  | some s =>
    have hs := Store.mem_of_streamByUuid h
    obtain rfl := Store.uuid_of_streamByUuid h
    refine hc'.streamByUuid_of_mem ((mem_appendBatch hc hb).mpr (Or.inr (Or.inr ⟨hs, ?_, ?_⟩)))
    · exact fun hid => hv (hb.target.uuid_of_mem hs hid)
    · exact fun hid => hall ((hc.streamId_eq_zero_iff hs).mp hid)
  | none =>
    rw [Store.streamByUuid_eq_none_iff] at h ⊢
    intro s hs
    rcases (mem_appendBatch hc hb).mp hs with rfl | rfl | ⟨hs, -⟩
    · exact fun heq => hall (heq.symm.trans h0.2)
    · exact fun heq => hv (heq.symm.trans hrow)
    · exact h s hs

/-- What a batch adds to the store. -/
theorem appendedTo_appendBatch (hids : es.map (·.eventId) = eventIds events)
    (hlen : es.length = events.length) :
    AppendedTo st (st.appendBatch row all es) u events
      ((recordBatch st.log u es).map RecordedEvent.toAppendedRow) := by
  have hc' := hc.addBatch hb
  have hlog := log_appendBatch hc hb
  have hu := hb.not_all
  have hversion := versionOf_eq hc hu
  have hhead := versionOf_all hc
  constructor
  · rw [List.map_map, ← hids]
    exact map_recordBatch_of_event fun _ _ _ _ => rfl
  · rw [List.length_map, recordBatch_length, hlen]
  · rw [List.map_map, hversion, ← hlen, recordBatch, List.map_map]
    exact map_position_zipIdx es (onStream u st.log).length
  · rw [List.map_map, hhead, ← hlen, recordBatch, List.map_map]
    exact map_position_zipIdx es st.log.length
  · rw [versionOf_eq hc' hu, hlog, onStream_append, onStream_recordBatch, List.length_append,
      recordBatch_length, hversion, hlen]
  · rw [versionOf_all hc', hlog, List.length_append, recordBatch_length, hhead, hlen]
  · exact ⟨_, hlog, rfl, fun e he => recordBatch_streamUuid he⟩
  · exact fun v hv hall => streamByUuid_appendBatch hc hb hv hall
  · intro v s hv hall hs
    have hmem := Store.mem_of_streamByUuid hs
    obtain rfl := Store.uuid_of_streamByUuid hs
    have h0 : s.streamId ≠ 0 := fun h0 => hall ((hc.streamId_eq_zero_iff hmem).mp h0)
    have hne : s.streamId ≠ row.streamId := fun hid => hv (hb.target.uuid_of_mem hmem hid)
    rw [appendBatch_links hc hb, if_neg h0, if_neg hne, List.append_nil]
  · intro v hv
    have hnil : onStream v (recordBatch st.log u es) = [] := by
      refine List.filter_eq_nil_iff.mpr fun e he => ?_
      rw [recordBatch_streamUuid he]
      simpa using Ne.symm hv
    rw [hlog, onStream_append, hnil, List.append_nil]

end AppendedTo

section Outcome

variable {db : Db} {now : Timestamp} {a : AppendArgs} {r : AppendRequest}

/-- What the abstract append raises, the call raises. -/
theorem Db.Consistent.append_of_error (hc : db.Consistent) {e : SqlError}
    (hr : validateAppend a = .ok r) (h : appendLog now r db.store.log = .error e) :
    (db.append now a).1 = .error e := by
  obtain ⟨hans, -⟩ := hc.append_refines (now, a)
  have hcall : appendCall now a db.store.log = .error e := by
    rw [appendCall, hr]
    exact h
  simp only [dbObject, logObject, hcall] at hans
  exact hans

/-- When the abstract append records a batch, the call does. -/
theorem Db.Consistent.append_of_ok (hc : db.Consistent) {new : List RecordedEvent}
    (hr : validateAppend a = .ok r) (h : appendLog now r db.store.log = .ok new) :
    ∃ row all es, db.store.BatchOk db.streamIdSeq r.streamUuid row all es ∧
      recordBatch db.store.log r.streamUuid es = new ∧
      (db.append now a).1 = .ok (new.map RecordedEvent.toAppendedRow) ∧
      (db.append now a).2.store = db.store.appendBatch row all es := by
  have href := appendRequest_refines hc.store (Nat.pos_iff_ne_zero.mp hc.seq_pos) hc.seq_fresh now r
  rw [h] at href
  obtain ⟨row, all, es, hb, happ, hlog⟩ := href
  have hcall : appendToStream db.streamIdSeq now a db.store =
      .ok (new.map RecordedEvent.toAppendedRow, db.store.appendBatch row all es) := by
    rw [appendToStream, hr]
    exact happ
  refine ⟨row, all, es, hb, ?_, ?_, ?_⟩
  · exact List.append_cancel_left ((log_appendBatch hc.store hb).symm.trans hlog)
  · rw [Db.append, hcall]
  · rw [Db.append, hcall]

/-- **The outcome of `append_to_stream`**, for every mode, stream and batch. -/
theorem append_outcome (hdb : db.Reachable) {u : String} (hu : u ≠ "$all")
    {type : Option String} {version : Option ℤ} {x : ExpectedVersion}
    (hx : expectedVersionOf type version = .ok x) {events : List Json} (hne : events ≠ [])
    (hwf : ∀ evt ∈ events, WellFormedEvent evt) (now : Timestamp) :
    AppendOutcome db (db.append now ⟨some u, type, version, some (.arr events)⟩).2 u x events
      (db.append now ⟨some u, type, version, some (.arr events)⟩).1 := by
  have hc := hdb.consistent
  have hr : validateAppend ⟨some u, type, version, some (.arr events)⟩ =
      .ok ⟨u, x, events, hu, hne⟩ := by
    simp only [validateAppend, dif_neg hu, hx, eventsOf_wellFormed hwf hne]
    rfl
  obtain ⟨es, hes, hids⟩ := newEvents_ok hwf now
  have hfresh := freshIds_iff hc.store hids
  by_cases hversion : VersionOk db.store u x
  · have hcheck := checkExpected_of_versionOk hc.store hu hversion
    by_cases hok : IdsOk db.store (eventIds events)
    · have happ : appendLog now ⟨u, x, events, hu, hne⟩ db.store.log =
          .ok (recordBatch db.store.log u es) := by
        rw [appendLog, hcheck, hes, ok_bind, ok_bind, if_pos (hfresh.mpr hok)]
        rfl
      obtain ⟨row, all, es', hb, hnew, hres, hst⟩ := hc.append_of_ok hr happ
      have hlen : es'.length = events.length := by
        have hlength := congrArg List.length hnew
        rwa [recordBatch_length, recordBatch_length, newEvents_length hes] at hlength
      have hids' : es'.map (·.eventId) = eventIds events := by
        have hid : ∀ es, (recordBatch db.store.log u es).map (·.eventId) = es.map (·.eventId) :=
          fun es => map_recordBatch_of_event fun _ _ _ _ => rfl
        rw [← hid, hnew, hid, hids]
      have hadded := appendedTo_appendBatch hc.store hb hids' hlen
      rw [hnew, ← hst] at hadded
      rw [hres]
      refine ⟨iff_of_true ⟨_, rfl⟩ ⟨hversion, hok⟩, ?_, ?_, ?_, ?_⟩
      · exact fun h => absurd hversion h
      · exact fun _ h => absurd hok h
      · exact fun _ h => by cases h
      · intro rows h
        cases h
        exact hadded
    · have happ : appendLog now ⟨u, x, events, hu, hne⟩ db.store.log =
          .error EventsConstraint.eventsPkey.toError := by
        rw [appendLog, hcheck, hes, ok_bind, ok_bind, if_neg (mt hfresh.mp hok)]
        rfl
      have hres := hc.append_of_error hr happ
      have hst := Db.append_error hres
      rw [hres]
      refine ⟨iff_of_false (by simp) fun h => hok h.2, ?_, ?_, ?_, ?_⟩
      · exact fun h => absurd hversion h
      · exact fun _ _ => ⟨_, rfl⟩
      · exact fun _ _ => hst
      · exact fun _ h => by cases h
  · obtain ⟨message, hcheck⟩ := checkExpected_of_not_versionOk hc.store hu hversion
    have happ : appendLog now ⟨u, x, events, hu, hne⟩ db.store.log =
        .error ⟨x.failure, message⟩ := by
      rw [appendLog, hcheck]
      rfl
    have hres := hc.append_of_error hr happ
    have hst := Db.append_error hres
    rw [hres]
    refine ⟨iff_of_false (by simp) fun h => hversion h.1, ?_, ?_, ?_, ?_⟩
    · exact fun _ => ⟨message, rfl⟩
    · exact fun h => absurd h hversion
    · exact fun _ _ => hst
    · exact fun _ h => by cases h

/-- The id of a sample event. -/
def sampleId (digit : String) : String := "00000000-0000-0000-0000-00000000000" ++ digit

/-- An event without optional fields. -/
def sampleOpened (digit : String) : Json :=
  .obj [("event_id", .str (sampleId digit)), ("event_type", .str "opened"), ("data", .null)]

theorem sampleOpened_wellFormed {digit : String} (h : (uuidOfText (sampleId digit)).isSome = true) :
    WellFormedEvent (sampleOpened digit) := by
  obtain ⟨u, hu⟩ := Option.isSome_iff_exists.mp h
  exact ⟨⟨_, u, rfl, hu⟩, ⟨_, rfl⟩, ⟨_, rfl⟩, ⟨none, rfl⟩, ⟨none, rfl⟩⟩

/-- The stream `orders`, with one event. -/
def sampleOrders : Db :=
  (Db.install.append 10 ⟨some "orders", some "no_stream", none, some (.arr [sampleOpened "1"])⟩).2

theorem sampleOrders_reachable : sampleOrders.Reachable := .append _ _ .install

theorem append_outcome_sampleOpened : ∃ rows,
    (sampleOrders.append 20
      ⟨some "orders", some "exact", some 1, some (.arr [sampleOpened "2", sampleOpened "3"])⟩).1 =
        .ok rows ∧ rows.map (·.streamVersion) = [2, 3] ∧ rows.map (·.eventNumber) = [2, 3] := by
  have hwf : ∀ evt ∈ [sampleOpened "2", sampleOpened "3"], WellFormedEvent evt := by
    intro evt hevt
    rcases List.mem_pair.mp hevt with rfl | rfl
    · exact sampleOpened_wellFormed (by decide +kernel)
    · exact sampleOpened_wellFormed (by decide +kernel)
  have houtcome := append_outcome sampleOrders_reachable (show "orders" ≠ "$all" by decide)
    (show expectedVersionOf (some "exact") (some 1) = .ok (.exact 1) from rfl)
    (List.cons_ne_nil (sampleOpened "2") [sampleOpened "3"]) hwf 20
  have hversion : VersionOk sampleOrders.store "orders" (.exact 1) :=
    Or.inl ⟨by decide +kernel, by decide +kernel⟩
  have hids : IdsOk sampleOrders.store (eventIds [sampleOpened "2", sampleOpened "3"]) :=
    ⟨by decide +kernel, by decide +kernel⟩
  obtain ⟨rows, hrows⟩ := houtcome.succeeds_iff.mpr ⟨hversion, hids⟩
  have hadded := houtcome.appended rows hrows
  have horders : sampleOrders.store.versionOf "orders" = 1 := by decide +kernel
  have hall : sampleOrders.store.versionOf "$all" = 1 := by decide +kernel
  refine ⟨rows, hrows, ?_, ?_⟩
  · rw [hadded.streamVersions, horders]
    rfl
  · rw [hadded.eventNumbers, hall]
    rfl

end Outcome

end Instructed
