import Instructed.Store.AppendCorrect

/-!
# The event log

What the event store is for: one list of events in the order of their event numbers, in which every
event also knows its stream and its position there. A consistent store represents such a list, and
its procedures are the operations of the list:

* `Store.log`: the abstraction function, the rows `read_all` joins;
* `Numbered`: the log of a consistent store (`Store.Consistent.log_numbered`);
* `appendLog`: the abstract append, in terms of the log only;
* `appendRequest_refines`: `append_to_stream` is `appendLog`, in its outcome and in its effect;
* `readAll_eq`, `readStream_eq`: the reads return segments of the log.
-/

namespace Instructed

open Sql Relational Numbering

/-! ## The abstract log -/

/-- The events of stream `u`. -/
def onStream (u : String) (log : List RecordedEvent) : List RecordedEvent :=
  log.filter fun e => decide (e.streamUuid = u)

@[simp] theorem onStream_nil (u : String) : onStream u [] = [] := rfl

@[simp] theorem onStream_append (u : String) (xs ys : List RecordedEvent) :
    onStream u (xs ++ ys) = onStream u xs ++ onStream u ys :=
  List.filter_append ..

theorem mem_onStream {u : String} {log : List RecordedEvent} {e : RecordedEvent} :
    e ∈ onStream u log ↔ e ∈ log ∧ e.streamUuid = u := by
  simp [onStream]

/-- Every event carries its global position and its position on its stream. -/
structure Numbered (log : List RecordedEvent) : Prop where
  eventNumber : Consecutive (·.eventNumber) 1 log
  streamVersion : ∀ u, Consecutive (·.streamVersion) 1 (onStream u log)
  eventId : (log.map (·.eventId)).Nodup
  not_all : ∀ e ∈ log, e.streamUuid ≠ "$all"

/-- Step (1) of `append_to_stream` in terms of the log: a stream exists when it has an event, and its
    version is the number of its events. -/
def checkExpected (log : List RecordedEvent) (u : String) : ExpectedVersion → Except SqlError Unit
  | .any => .ok ()
  | .noStream =>
    if onStream u log = [] then .ok ()
    else raise .IS002 ("append_to_stream: stream " ++ u ++ " already exists")
  | .streamExists => if onStream u log = [] then .error (streamMissing u) else .ok ()
  | .exact v =>
    if onStream u log = [] then if v = 0 then .ok () else .error (streamMissingAt u v)
    else if (onStream u log).length ≠ v then raise .IS001
      ("append_to_stream: wrong expected version: actual " ++
        toString (onStream u log).length ++ ", expected " ++ toString v)
    else .ok ()

/-- The expected version of an `'exact'` append, in terms of the stream's length. -/
theorem checkExpected_exact_iff (log : List RecordedEvent) (u : String) (v : ℕ) :
    (checkExpected log u (.exact v) = .ok () ∧ (onStream u log).length = v) ∨
      ∃ e, checkExpected log u (.exact v) = .error e ∧ e.sqlstate = .IS001 ∧
        (onStream u log).length ≠ v := by
  by_cases hnil : onStream u log = []
  · by_cases hv : v = 0
    · simp [checkExpected, hnil, hv]
    · simp [checkExpected, hnil, hv, streamMissingAt, Ne.symm hv]
  · by_cases hv : (onStream u log).length = v
    · simp [checkExpected, hnil, hv]
    · simp [checkExpected, hnil, hv, raise]

/-- The batch `es` recorded at the end of the log. -/
def recordBatch (log : List RecordedEvent) (u : String) (es : List EventRow) :
    List RecordedEvent :=
  (es.zipIdx 1).map fun e =>
    e.1.recorded (log.length + e.2) u ((onStream u log).length + e.2)

section RecordBatch

variable {log : List RecordedEvent} {u : String} {es : List EventRow}

theorem recordBatch_streamUuid {e : RecordedEvent} (he : e ∈ recordBatch log u es) :
    e.streamUuid = u := by
  obtain ⟨x, -, rfl⟩ := List.mem_map.mp he
  rfl

@[simp] theorem recordBatch_length : (recordBatch log u es).length = es.length := by
  rw [recordBatch, List.length_map, List.length_zipIdx]

@[simp] theorem onStream_recordBatch :
    onStream u (recordBatch log u es) = recordBatch log u es :=
  List.filter_eq_self.mpr fun e he => by simpa using recordBatch_streamUuid he

/-- The batch continues the stream. -/
theorem recordBatch_streamVersion :
    Consecutive (·.streamVersion) ((onStream u log).length + 1) (recordBatch log u es) := by
  rw [Consecutive, recordBatch_length, recordBatch, List.map_map]
  exact map_position_zipIdx es (onStream u log).length

/-- What does not depend on the positions is the event's. -/
theorem map_recordBatch_of_event {β : Type} {f : RecordedEvent → β} {g : EventRow → β}
    (hfg : ∀ e en u sv, f (e.recorded en u sv) = g e) :
    (recordBatch log u es).map f = es.map g := by
  rw [recordBatch, List.map_map, ← map_event_zipIdx es g]
  exact List.map_congr_left fun e _ => hfg ..

end RecordBatch

/-- The batch repeats no event id, within itself or in the log. -/
def FreshIds (log : List RecordedEvent) (es : List EventRow) : Prop :=
  (es.map (·.eventId)).Nodup ∧ ∀ e ∈ es, e.eventId ∉ log.map (·.eventId)

instance (log : List RecordedEvent) (es : List EventRow) : Decidable (FreshIds log es) :=
  inferInstanceAs (Decidable (_ ∧ _))

/-- The abstract append: the events it adds to the log. -/
def appendLog (now : Timestamp) (r : AppendRequest) (log : List RecordedEvent) :
    Except SqlError (List RecordedEvent) := do
  checkExpected log r.streamUuid r.expected
  let es ← newEvents now r.events
  if FreshIds log es then return recordBatch log r.streamUuid es
  else throw EventsConstraint.eventsPkey.toError

/-- The row of `append_to_stream` for a recorded event. -/
def RecordedEvent.toAppendedRow (e : RecordedEvent) : AppendedRow :=
  ⟨e.eventId, e.streamVersion, e.eventNumber, e.createdAt⟩

/-! ## The log of a store -/

/-- The log that a store holds. -/
def Store.log (st : Store) : List RecordedEvent := st.allRows

theorem map_filterMap_of_some {α β γ : Type} {f : α → Option β} {g : β → γ} {h : α → γ}
    {xs : List α} (hf : ∀ a ∈ xs, ∃ b, f a = some b ∧ g b = h a) :
    (xs.filterMap f).map g = xs.map h := by
  induction xs with
  | nil => rfl
  | cons a xs ih =>
    obtain ⟨b, hb, hg⟩ := hf a List.mem_cons_self
    rw [List.filterMap_cons_some hb, List.map_cons, List.map_cons, hg,
      ih fun x hx => hf x (List.mem_cons_of_mem _ hx)]

theorem filterMap_eq_of_map_eq {α α' β γ : Type} {xs : List α} {ys : List α'} {f : α → γ}
    {g : α' → γ} {F : α → Option β} {G : α' → Option β} {K : γ → Option β}
    (h : xs.map f = ys.map g) (hF : ∀ x ∈ xs, F x = K (f x)) (hG : ∀ y ∈ ys, G y = K (g y)) :
    xs.filterMap F = ys.filterMap G := by
  calc xs.filterMap F = (xs.map f).filterMap K := by
        rw [List.filterMap_map]
        exact List.filterMap_congr hF
    _ = (ys.map g).filterMap K := by rw [h]
    _ = ys.filterMap G := by
        rw [List.filterMap_map]
        exact (List.filterMap_congr hG).symm

namespace Store.Consistent

variable {st : Store} (hc : st.Consistent)
include hc

theorem exists_event {l : StreamEventRow} (hl : l ∈ st.links 0) :
    ∃ e, st.events.find? l.eventId = some e ∧ e.eventId = l.eventId := by
  have hm : l.eventId ∈ (st.links 0).map (·.eventId) := List.mem_map_of_mem hl
  rw [← hc.eventIds] at hm
  obtain ⟨e, he, hid⟩ := List.mem_map.mp hm
  exact ⟨e, Table.find?_of_mem he hid, hid⟩

/-- Every `$all` link joins, to an event at its positions. -/
theorem joinAll_eq {l : StreamEventRow} (hl : l ∈ st.links 0) :
    ∃ e orig, st.events.find? l.eventId = some e ∧ e.eventId = l.eventId ∧
      st.streams.find? l.originalStreamId = some orig ∧
      st.joinAll l = some (e.recorded l.streamVersion orig.streamUuid l.originalStreamVersion) := by
  obtain ⟨e, he, hid⟩ := hc.exists_event hl
  obtain ⟨-, orig, horig⟩ := hc.allOrigin l hl
  refine ⟨e, orig, he, hid, horig, ?_⟩
  simp [Store.joinAll, he, horig]

theorem log_map {γ : Type} (g : RecordedEvent → γ) (h : StreamEventRow → γ)
    (hgh : ∀ (e : EventRow) (l : StreamEventRow) (u : String), e.eventId = l.eventId →
      g (e.recorded l.streamVersion u l.originalStreamVersion) = h l) :
    st.log.map g = (st.links 0).map h := by
  refine map_filterMap_of_some fun l hl => ?_
  obtain ⟨e, orig, -, hid, -, hj⟩ := hc.joinAll_eq hl
  exact ⟨_, hj, hgh e l _ hid⟩

theorem log_eventId : st.log.map (·.eventId) = st.events.rows.map (·.eventId) := by
  rw [hc.eventIds]
  exact hc.log_map _ _ fun e l u hid => hid

theorem log_length : st.log.length = (st.links 0).length := by
  have h := congrArg List.length (hc.log_map (fun _ => ()) (fun _ => ()) fun _ _ _ _ => rfl)
  rwa [List.length_map, List.length_map] at h

theorem log_eventNumber : Consecutive (·.eventNumber) 1 st.log := by
  obtain ⟨h, hall⟩ := hc.allRow
  have hv := hc.versions _ (Table.mem_of_find? hall)
  refine Consecutive.of_map_eq ((hc.log_map (·.eventNumber) (·.streamVersion) ?_).trans hv)
  exact fun _ _ _ _ => rfl

/-- The `$all` counter is the length of the log. -/
theorem all_streamVersion {all : StreamRow} (hall : st.streams.find? 0 = some all) :
    all.streamVersion = st.log.length := by
  have hv := hc.versions _ (Table.mem_of_find? hall)
  rw [Table.key_of_find? hall] at hv
  rw [hc.log_length, Consecutive.length_eq_of_map_eq hv]

/-- The events of a stream are the `$all` links that name it as their origin. -/
theorem onStream_log {s : StreamRow} (hs : s ∈ st.streams.rows) :
    onStream s.streamUuid st.log =
      ((st.links 0).filter fun l => decide (l.originalStreamId = s.streamId)).filterMap
        st.joinAll := by
  rw [onStream, Store.log, Store.allRows, List.filter_filterMap, List.filterMap_filter]
  refine List.filterMap_congr fun l hl => ?_
  obtain ⟨e, orig, -, -, horig, hj⟩ := hc.joinAll_eq hl
  have ho := Table.find?_eq_some_iff.mp horig
  have hiff : orig.streamUuid = s.streamUuid ↔ l.originalStreamId = s.streamId := by
    rw [← ho.2]
    exact ⟨fun h => congrArg _ (hc.uuids _ ho.1 _ hs h),
      fun h => congrArg _ (st.streams.eq_of_key_eq ho.1 hs h)⟩
  rw [hj]
  by_cases h : l.originalStreamId = s.streamId
  · simp [hiff.mpr h, h]
  · simp [mt hiff.mp h, h]

/-- The rows that `read_stream` joins are the stream's events of the log. -/
theorem streamRows_eq {s : StreamRow} (hs : s ∈ st.streams.rows) (h0 : s.streamId ≠ 0) :
    st.streamRows s.streamId s.streamUuid = onStream s.streamUuid st.log := by
  rw [hc.onStream_log hs, Store.streamRows]
  refine filterMap_eq_of_map_eq (K := fun p => st.joinStream s.streamUuid
    ⟨p.1, s.streamId, p.2, s.streamId, p.2⟩) (hc.origin s.streamId h0) (fun l _ => rfl) ?_
  intro a ha
  obtain ⟨ha, ho⟩ := List.mem_filter.mp ha
  obtain ⟨e, orig, he, -, horig, hj⟩ := hc.joinAll_eq ha
  rw [of_decide_eq_true ho, Table.find?_of_mem hs rfl] at horig
  cases horig
  have hself : st.streamEvents.find? (a.eventId, 0) = some a :=
    have ha := Store.mem_links.mp ha
    Table.find?_of_mem ha.1 (by rw [StreamEventRow.pkey, ha.2])
  rw [hj]
  simp [Store.joinStream, he, hself]

theorem onStream_versions {s : StreamRow} (hs : s ∈ st.streams.rows) (h0 : s.streamId ≠ 0) :
    (onStream s.streamUuid st.log).map (·.streamVersion) = List.range' 1 s.streamVersion := by
  have ho := congrArg (List.map Prod.snd) (hc.origin s.streamId h0)
  rw [List.map_map, List.map_map] at ho
  rw [← hc.versions s hs, hc.onStream_log hs]
  refine (map_filterMap_of_some fun l hl => ?_).trans ho.symm
  obtain ⟨e, orig, -, -, -, hj⟩ := hc.joinAll_eq (List.mem_of_mem_filter hl)
  exact ⟨_, hj, rfl⟩

theorem log_streamVersion {s : StreamRow} (hs : s ∈ st.streams.rows) (h0 : s.streamId ≠ 0) :
    Consecutive (·.streamVersion) 1 (onStream s.streamUuid st.log) :=
  .of_map_eq (hc.onStream_versions hs h0)

/-- A stream's counter is the number of its events. -/
theorem streamVersion_eq {s : StreamRow} (hs : s ∈ st.streams.rows) (h0 : s.streamId ≠ 0) :
    s.streamVersion = (onStream s.streamUuid st.log).length :=
  (Consecutive.length_eq_of_map_eq (hc.onStream_versions hs h0)).symm

/-- Every event of the log has a stream row other than `$all`. -/
theorem exists_stream {e : RecordedEvent} (he : e ∈ st.log) :
    ∃ s ∈ st.streams.rows, s.streamUuid = e.streamUuid ∧ s.streamId ≠ 0 := by
  obtain ⟨l, hl, hj⟩ := List.mem_filterMap.mp he
  obtain ⟨x, orig, -, -, horig, hj'⟩ := hc.joinAll_eq hl
  rw [hj', Option.some.injEq] at hj
  have ho := Table.find?_eq_some_iff.mp horig
  have h0 := (hc.allOrigin l hl).1
  exact ⟨orig, ho.1, hj ▸ rfl, by rwa [ho.2]⟩

/-- A stream has a row exactly when it has an event. -/
theorem streamByUuid_eq_none_iff {u : String} (hu : u ≠ "$all") :
    st.streamByUuid u = none ↔ onStream u st.log = [] := by
  constructor
  · intro hnone
    refine List.eq_nil_iff_forall_not_mem.mpr fun e he => ?_
    obtain ⟨he, hue⟩ := mem_onStream.mp he
    obtain ⟨s, hs, hsu, -⟩ := hc.exists_stream he
    exact Store.streamByUuid_eq_none_iff.mp hnone s hs (hsu.trans hue)
  · intro hnil
    cases h : st.streamByUuid u with
    | none => rfl
    | some s =>
      have hs := Store.mem_of_streamByUuid h
      obtain rfl := Store.uuid_of_streamByUuid h
      have h0 : s.streamId ≠ 0 := fun h0 => hu ((hc.streamId_eq_zero_iff hs).mp h0)
      have hver := hc.streamVersion_eq hs h0
      have hpos := hc.nonempty s hs h0
      rw [hnil] at hver
      exact absurd hver (by simp only [List.length_nil]; omega)

/-- The row of a stream other than `$all`, in terms of the log. -/
theorem of_streamByUuid {u : String} {s : StreamRow} (hu : u ≠ "$all")
    (h : st.streamByUuid u = some s) : s ∈ st.streams.rows ∧ s.streamId ≠ 0 ∧
      s.streamUuid = u ∧ s.streamVersion = (onStream u st.log).length := by
  have hs := Store.mem_of_streamByUuid h
  obtain rfl := Store.uuid_of_streamByUuid h
  have h0 : s.streamId ≠ 0 := fun h0 => hu ((hc.streamId_eq_zero_iff hs).mp h0)
  exact ⟨hs, h0, rfl, hc.streamVersion_eq hs h0⟩

/-- **The log of a consistent store is numbered.** -/
theorem log_numbered : Numbered st.log := by
  refine ⟨hc.log_eventNumber, fun u => ?_, hc.log_eventId ▸ st.events.nodup, ?_⟩
  · cases hnil : onStream u st.log with
    | nil => exact Consecutive.nil
    | cons e es =>
      have he := mem_onStream.mp (hnil ▸ List.mem_cons_self : e ∈ onStream u st.log)
      obtain ⟨s, hs, hsu, h0⟩ := hc.exists_stream he.1
      rw [← hnil, ← he.2, ← hsu]
      exact hc.log_streamVersion hs h0
  · intro e he hu
    obtain ⟨s, hs, hsu, h0⟩ := hc.exists_stream he
    exact h0 ((hc.streamId_eq_zero_iff hs).mpr (hsu.trans hu))

end Store.Consistent

/-- The store differs in snapshots, subscriptions and work items only. -/
structure Store.SameEvents (st st' : Store) : Prop where
  streams : st'.streams = st.streams
  events : st'.events = st.events
  streamEvents : st'.streamEvents = st.streamEvents

theorem Store.SameEvents.log {st st' : Store} (h : st.SameEvents st') : st'.log = st.log := by
  obtain ⟨_, _, _, _, _, _⟩ := st
  obtain ⟨_, _, _, _, _, _⟩ := st'
  obtain ⟨rfl, rfl, rfl⟩ := h
  rfl

theorem Store.SameEvents.consistent {st st' : Store} (h : st.SameEvents st')
    (hc : st.Consistent) : st'.Consistent := by
  obtain ⟨_, _, _, _, _, _⟩ := st
  obtain ⟨_, _, _, _, _, _⟩ := st'
  obtain ⟨rfl, rfl, rfl⟩ := h
  exact ⟨hc.allRow, hc.uuids, hc.versions, hc.nonempty, hc.origin, hc.own, hc.eventIds,
    hc.allOrigin⟩

/-! ## The tables of a log -/

/-- A link without its stream ids: the origin is named. -/
def Store.linkFacts (st : Store) (l : StreamEventRow) : Uuid × ℕ × Option String × ℕ :=
  (l.eventId, l.streamVersion, (st.streams.find? l.originalStreamId).map (·.streamUuid),
    l.originalStreamVersion)

/-- The event store tables agree up to the choice of the stream ids, which no procedure returns. -/
structure Store.SameTables (st st' : Store) : Prop where
  log : st.log = st'.log
  events : st.events = st'.events
  streams : ∀ u, (st.streamByUuid u).map (·.streamVersion) =
    (st'.streamByUuid u).map (·.streamVersion)
  links : ∀ u s s', st.streamByUuid u = some s → st'.streamByUuid u = some s' →
    (st.links s.streamId).map st.linkFacts = (st'.links s'.streamId).map st'.linkFacts

/-- The columns of the `events` row. -/
def RecordedEvent.toEventRow (e : RecordedEvent) : EventRow where
  eventId := e.eventId
  eventType := e.eventType
  causationId := e.causationId
  correlationId := e.correlationId
  data := e.data
  metadata := e.metadata
  createdAt := e.createdAt

namespace Store.Consistent

variable {st : Store} (hc : st.Consistent)
include hc

theorem events_of_log : st.events.rows = st.log.map RecordedEvent.toEventRow := by
  have hfind : st.events.rows.map (fun e => some e) =
      st.events.rows.map fun e => st.events.find? e.eventId :=
    List.map_congr_left fun e he => (Table.find?_key he).symm
  have hlog : st.log.map (fun e => some e.toEventRow) =
      (st.links 0).map fun l => st.events.find? l.eventId := by
    refine map_filterMap_of_some fun l hl => ?_
    obtain ⟨e, orig, he, -, -, hj⟩ := hc.joinAll_eq hl
    exact ⟨_, hj, he.symm⟩
  have hids : st.events.rows.map (fun e => st.events.find? e.eventId) =
      (st.links 0).map fun l => st.events.find? l.eventId := by
    have h := congrArg (List.map st.events.find?) hc.eventIds
    rwa [List.map_map, List.map_map] at h
  have h : st.events.rows.map some = (st.log.map RecordedEvent.toEventRow).map some := by
    rw [List.map_map, hfind, hids, ← hlog]
    rfl
  exact (Function.Injective.list_map (Option.some_injective _)) h

theorem allLinks_of_log : (st.links 0).map st.linkFacts =
    st.log.map fun e => (e.eventId, e.eventNumber, some e.streamUuid, e.streamVersion) := by
  refine (map_filterMap_of_some fun l hl => ?_).symm
  obtain ⟨e, orig, -, hid, horig, hj⟩ := hc.joinAll_eq hl
  refine ⟨_, hj, ?_⟩
  simp [Store.linkFacts, horig, hid]

theorem links_of_log {s : StreamRow} (hs : s ∈ st.streams.rows) (h0 : s.streamId ≠ 0) :
    (st.links s.streamId).map st.linkFacts = (onStream s.streamUuid st.log).map fun e =>
      (e.eventId, e.streamVersion, some s.streamUuid, e.streamVersion) := by
  have horigin := congrArg (List.map fun p : Uuid × ℕ => (p.1, p.2, some s.streamUuid, p.2))
    (hc.origin s.streamId h0)
  rw [List.map_map, List.map_map] at horigin
  have hlinks : (st.links s.streamId).map st.linkFacts =
      (st.links s.streamId).map fun l =>
        (l.eventId, l.streamVersion, some s.streamUuid, l.streamVersion) := by
    refine List.map_congr_left fun l hl => ?_
    obtain ⟨hl, hls⟩ := Store.mem_links.mp hl
    obtain ⟨ho, hv⟩ := hc.own l hl (hls ▸ h0)
    rw [Store.linkFacts, ho, hv, hls, Table.find?_key hs]
    rfl
  rw [hlinks, hc.onStream_log hs]
  refine horigin.trans (map_filterMap_of_some fun l hl => ?_).symm
  obtain ⟨e, orig, -, hid, -, hj⟩ := hc.joinAll_eq (List.mem_of_mem_filter hl)
  refine ⟨_, hj, ?_⟩
  simp [hid]

theorem streamVersion_of_log {u : String} (hu : u ≠ "$all") :
    (st.streamByUuid u).map (·.streamVersion) =
      if onStream u st.log = [] then none else some (onStream u st.log).length := by
  cases h : st.streamByUuid u with
  | none => rw [if_pos ((hc.streamByUuid_eq_none_iff hu).mp h), Option.map_none]
  | some s =>
    obtain ⟨-, -, -, hver⟩ := hc.of_streamByUuid hu h
    have hne : onStream u st.log ≠ [] := fun hnil => by
      rw [(hc.streamByUuid_eq_none_iff hu).mpr hnil] at h
      cases h
    rw [if_neg hne, Option.map_some, hver]

theorem streamVersion_all : (st.streamByUuid "$all").map (·.streamVersion) = some st.log.length := by
  obtain ⟨h, hall⟩ := hc.allRow
  have hm := hc.streamByUuid_of_mem (Table.mem_of_find? hall)
  rw [hm, Option.map_some, ← hc.all_streamVersion hall]

/-- **The log determines the tables**, up to the stream ids. -/
theorem sameTables {st' : Store} (hc' : st'.Consistent) (hlog : st.log = st'.log) :
    st.SameTables st' := by
  have hstreams : ∀ u, (st.streamByUuid u).map (·.streamVersion) =
      (st'.streamByUuid u).map (·.streamVersion) := by
    intro u
    by_cases hu : u = "$all"
    · subst hu
      rw [hc.streamVersion_all, hc'.streamVersion_all, hlog]
    · rw [hc.streamVersion_of_log hu, hc'.streamVersion_of_log hu, hlog]
  refine ⟨hlog, ?_, hstreams, fun u s s' hs hs' => ?_⟩
  · apply Table.ext
    rw [hc.events_of_log, hc'.events_of_log, hlog]
  · by_cases hu : u = "$all"
    · have h := (hc.streamId_eq_zero_iff (Store.mem_of_streamByUuid hs)).mpr
        ((Store.uuid_of_streamByUuid hs).trans hu)
      have h' := (hc'.streamId_eq_zero_iff (Store.mem_of_streamByUuid hs')).mpr
        ((Store.uuid_of_streamByUuid hs').trans hu)
      rw [h, h', hc.allLinks_of_log, hc'.allLinks_of_log, hlog]
    · obtain ⟨hm, h0, rfl, -⟩ := hc.of_streamByUuid hu hs
      obtain ⟨hm', h0', hu', -⟩ := hc'.of_streamByUuid hu hs'
      rw [hc.links_of_log hm h0, hc'.links_of_log hm' h0', hu', hlog]

end Store.Consistent

/-! ## The reads -/

section Reads

variable {st : Store} (hc : st.Consistent)
include hc

/-- **`read_all` returns the segment of the log that starts at the given event number.** -/
theorem readAll_eq {fromN qty : ℕ} (hq : 0 < qty) :
    readAll (some fromN) (some qty) st = .ok ((st.log.drop (fromN - 1)).take qty) := by
  have hq' : ¬ (qty : ℤ) ≤ 0 := by omega
  have hn : ¬ (fromN : ℤ) < 0 := by omega
  simp only [readAll, if_neg hq', if_neg hn, Int.toNat_natCast]
  exact congrArg _ (page_of_consecutive hc.log_eventNumber fromN qty)

/-- **`read_stream` returns the segment of the stream's events that starts at the given version, and
    fails on a stream without events.** -/
theorem readStream_eq {u : String} (hu : u ≠ "$all") {fromV qty : ℕ} (hq : 0 < qty) :
    readStream (some u) (some fromV) (some qty) st =
      if onStream u st.log = [] then raise .IS003 ("read_stream: stream " ++ u ++ " not found")
      else .ok (((onStream u st.log).drop (fromV - 1)).take qty) := by
  have hq' : ¬ (qty : ℤ) ≤ 0 := by omega
  have hn : ¬ (fromV : ℤ) < 0 := by omega
  simp only [readStream, if_neg hu, if_neg hq', if_neg hn, Int.toNat_natCast]
  cases h : st.streamByUuid u with
  | none => rw [if_pos ((hc.streamByUuid_eq_none_iff hu).mp h)]
  | some s =>
    have hne : onStream u st.log ≠ [] := fun hnil => by
      rw [(hc.streamByUuid_eq_none_iff hu).mpr hnil] at h
      cases h
    obtain ⟨hs, h0, rfl, -⟩ := hc.of_streamByUuid hu h
    rw [if_neg hne]
    dsimp only
    rw [hc.streamRows_eq hs h0, page_of_consecutive (hc.log_streamVersion hs h0)]

end Reads

/-! ## The append -/

section AppendBatch

variable {st : Store} {id : ℕ} {u : String} {row all : StreamRow} {es : List EventRow}
variable (hc : st.Consistent) (hb : st.BatchOk id u row all es)
include hc hb

/-- Both counters before the batch, in terms of the log. -/
theorem batch_bases : row.streamVersion - es.length = (onStream u st.log).length ∧
    all.streamVersion - es.length = st.log.length := by
  constructor
  · cases hb.target with
    | existing hold =>
      obtain ⟨-, -, -, hver⟩ := hc.of_streamByUuid hb.not_all hold
      rw [← hver]
      exact Nat.add_sub_cancel ..
    | fresh _ _ hu =>
      rw [(hc.streamByUuid_eq_none_iff hb.not_all).mp hu]
      exact Nat.sub_self _
  · obtain ⟨old, hold, rfl⟩ := hb.allRow
    rw [← hc.all_streamVersion hold]
    exact Nat.add_sub_cancel ..

theorem joinAll_appendBatch_old {l : StreamEventRow} (hl : l ∈ st.links 0) :
    (st.appendBatch row all es).joinAll l = st.joinAll l := by
  obtain ⟨e, orig, he, -, horig, hj⟩ := hc.joinAll_eq hl
  have hv : eventsViolation ((st.putStream row).putStream all) es _ = none := hb.unique
  have he' : (st.appendBatch row all es).events.find? l.eventId = some e :=
    Table.find?_of_rows_append (addEvents_events hv) he
  have horig' : ∃ o, (st.appendBatch row all es).streams.find? l.originalStreamId = some o ∧
      o.streamUuid = orig.streamUuid := by
    have ho := Table.find?_eq_some_iff.mp horig
    rw [appendBatch_find hc hb, if_neg (hc.allOrigin l hl).1]
    split_ifs with hrow
    · refine ⟨row, rfl, ?_⟩
      rw [hb.target.uuid]
      exact (hb.target.uuid_of_mem ho.1 (ho.2.trans hrow)).symm
    · exact ⟨orig, horig, rfl⟩
  obtain ⟨o, ho, hou⟩ := horig'
  rw [hj]
  simp [Store.joinAll, he', ho, hou]

theorem joinAll_appendBatch_new {e : EventRow × ℕ} (he : e.1 ∈ es) (en sv : ℕ) :
    (st.appendBatch row all es).joinAll ⟨e.1.eventId, 0, en, row.streamId, sv⟩ =
      some (e.1.recorded en u sv) := by
  have hv : eventsViolation ((st.putStream row).putStream all) es _ = none := hb.unique
  have he' : (st.appendBatch row all es).events.find? e.1.eventId = some e.1 :=
    Table.find?_of_mem (by
      rw [Store.appendBatch, addEvents_events hv]
      exact List.mem_append_right _ he) rfl
  simp [Store.joinAll, he', appendBatch_find hc hb, row_streamId_ne hc hb, hb.target.uuid]

/-- **A batch extends the log.** -/
theorem log_appendBatch :
    (st.appendBatch row all es).log = st.log ++ recordBatch st.log u es := by
  obtain ⟨hsv, hen⟩ := batch_bases hc hb
  rw [Store.log, Store.allRows, appendBatch_links hc hb, if_pos rfl, List.filterMap_append,
    hsv, hen]
  congr 1
  · exact List.filterMap_congr fun l hl => joinAll_appendBatch_old hc hb hl
  · rw [allLinks, List.filterMap_map, recordBatch, ← List.filterMap_eq_map]
    refine List.filterMap_congr fun e he => ?_
    exact joinAll_appendBatch_new hc hb (List.fst_mem_of_mem_zipIdx he) _ _

end AppendBatch

end Instructed
