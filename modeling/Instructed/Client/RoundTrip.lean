import Instructed.Aggregate.ExpectedVersion
import Instructed.Lib.Tail
import Instructed.Sql.Text
import Instructed.Store.Outcome

/-!
# Append and read through the client

`appendToStream`, `readStream` and `readAll` of `client/client.ts` (lines 77–146), with `packEvent`
(`client/pack-event.ts`) and `mapRecordedEvent` (`client/row-mappers.ts`).

* `packEvent`, `appendToStream`: from the caller's events to `p_events` and from the returned rows to
  `AppendedEvent`;
* `RawEventRow`, `mapRecordedEvent`, `readStream`, `readAll`: from the selected columns to
  `RecordedEvent`;
* `recordedAs`: the event that is read back for an event that was appended;
* `roundTrip`: **what was appended is read back**, also after others have appended behind it.

The driver hands out a `uuid` and an `int8` as text and a `timestamptz` as a `Date`. JSON values pass
through `JSON.stringify`, `jsonb` and the driver's parse as they are.
-/

namespace Instructed.Client

open Sql Relational Numbering Aggregate

/-! ## The write path -/

/-- `NewEvent`. A property that is left out or `undefined` is `none`. -/
structure NewEvent where
  eventId : Option String
  type : String
  data : Option Json
  metadata : Option Json
  causationId : Option String
  correlationId : Option String

/-- The properties of the packed event that are not `undefined`. -/
def packEvent (e : NewEvent) : List (String × Json) :=
  optionalField "event_id" (e.eventId.map .str) ++
    [("event_type", .str e.type), ("data", e.data.getD .null)] ++
    optionalField "metadata" e.metadata ++ optionalField "causation_id" (e.causationId.map .str) ++
    optionalField "correlation_id" (e.correlationId.map .str)

/-- `\x7b ...packEvent(e), event_id: e.event_id ?? randomUUID() \x7d`: the last property replaces the
    packed one. -/
def filledEvent (randomUUID : String) (e : NewEvent) : Json :=
  .obj (("event_id", .str (e.eventId.getD randomUUID)) ::
    (packEvent e).filter fun field => field.1 ≠ "event_id")

/-- `AppendedEvent`. -/
structure AppendedEvent where
  eventId : String
  streamUuid : String
  streamVersion : ℤ
  eventNumber : ℤ
  createdAt : ℕ
  deriving DecidableEq, Repr

/-- What the client throws. -/
inductive ClientError where
  | sql (e : SqlError)
  | invalidParameterValue (message code : String)
  /-- `BigInt` of a text that is no number. -/
  | syntaxError (text : String)

/-- `toBigInt` (row-mappers.ts), on the text that the driver hands out. The columns are positive
    `bigint`s, so that the text is a row of decimal digits; `BigInt` reads other texts too, which do
    not occur. -/
def toBigInt (text : String) : Except ClientError ℤ :=
  match decimal? text.toList with
  | some n => .ok n
  | none => .error (.syntaxError text)

/-- A `Date`, which counts milliseconds. -/
def toDate (t : Timestamp) : ℕ := t / 1000

/-- One row of the result of `append_to_stream`. -/
def mapAppendedRow (streamUuid : String) (row : AppendedRow) : Except ClientError AppendedEvent := do
  let streamVersion ← toBigInt (toString row.streamVersion)
  let eventNumber ← toBigInt (toString row.eventNumber)
  return ⟨row.eventId.text, streamUuid, streamVersion, eventNumber, toDate row.createdAt⟩

/-- `Client.appendToStream`; `ids` are the values of `crypto.randomUUID()`. -/
def appendToStream (streamUuid : String) (expected : Expected) (events : List NewEvent)
    (ids : ℕ → String) (now : Timestamp) (db : Db) : Except ClientError (List AppendedEvent) × Db :=
  if events = [] then
    (.error (.invalidParameterValue "appendToStream: events must be a non-empty array" "22023"), db)
  else
    let filled := events.zipIdx.map fun e => filledEvent (ids e.2) e.1
    let reply := db.append now
      ⟨some streamUuid, some expected.type, expected.version?, some (.arr filled)⟩
    match reply with
    | (.ok rows, db) => (rows.mapM (mapAppendedRow streamUuid), db)
    | (.error e, db) => (.error (.sql e), db)

/-! ## The read path -/

/-- `RawEventRow`: the columns `READ_EVENT_COLUMNS` of one row. -/
structure RawEventRow where
  eventId : String
  eventNumber : String
  streamUuid : String
  streamVersion : String
  eventType : String
  causationId : Option String
  correlationId : Option String
  data : Json
  metadata : Option Json
  createdAt : Timestamp

/-- What the driver hands out for a row. -/
def RawEventRow.ofRow (e : Instructed.RecordedEvent) : RawEventRow where
  eventId := e.eventId.text
  eventNumber := toString e.eventNumber
  streamUuid := e.streamUuid
  streamVersion := toString e.streamVersion
  eventType := e.eventType
  causationId := e.causationId.map Uuid.text
  correlationId := e.correlationId.map Uuid.text
  data := e.data
  metadata := e.metadata
  createdAt := e.createdAt

/-- `RecordedEvent`. A `null` id is `none`. -/
structure RecordedEvent where
  eventId : String
  eventNumber : ℤ
  streamUuid : String
  streamVersion : ℤ
  type : String
  causationId : Option String
  correlationId : Option String
  data : Json
  metadata : Json
  createdAt : ℕ

/-- `mapRecordedEvent`. -/
def mapRecordedEvent (row : RawEventRow) : Except ClientError RecordedEvent := do
  let eventNumber ← toBigInt row.eventNumber
  let streamVersion ← toBigInt row.streamVersion
  return {
    eventId := row.eventId, eventNumber, streamUuid := row.streamUuid, streamVersion,
    type := row.eventType, causationId := row.causationId, correlationId := row.correlationId,
    data := row.data, metadata := row.metadata.getD .null, createdAt := toDate row.createdAt }

/-- The rows of a result. -/
def mapRows (result : Except SqlError (List Instructed.RecordedEvent)) :
    Except ClientError (List RecordedEvent) :=
  match result with
  | .ok rows => rows.mapM fun row => mapRecordedEvent (.ofRow row)
  | .error e => .error (.sql e)

/-- `Client.readStream`. -/
def readStream (streamUuid : String) (fromVersion qty : ℤ) (st : Store) :
    Except ClientError (List RecordedEvent) :=
  mapRows (Instructed.readStream (some streamUuid) (some fromVersion) (some qty) st)

/-- `Client.readAll`. -/
def readAll (fromEventNumber qty : ℤ) (st : Store) : Except ClientError (List RecordedEvent) :=
  mapRows (Instructed.readAll (some fromEventNumber) (some qty) st)

/-! ## The round trip -/

/-- The event that is read back for an event `e` that was appended as `row`. -/
def recordedAs (e : NewEvent) (row : AppendedEvent) : RecordedEvent where
  eventId := row.eventId
  eventNumber := row.eventNumber
  streamUuid := row.streamUuid
  streamVersion := row.streamVersion
  type := e.type
  causationId := e.causationId
  correlationId := e.correlationId
  data := e.data.getD .null
  metadata := e.metadata.getD .null
  createdAt := row.createdAt

/-- The ids of the event are canonical. -/
structure NewEvent.CanonicalIds (e : NewEvent) : Prop where
  event : ∀ s ∈ e.eventId, Canonical s
  causation : ∀ s ∈ e.causationId, Canonical s
  correlation : ∀ s ∈ e.correlationId, Canonical s

/-- The events that were appended as `rows` are read back from the store `st`: a page that covers their
    positions has them one after the other, between the events before them and behind them. -/
structure RoundTrip (streamUuid : String) (events : List NewEvent) (ids : ℕ → String)
    (rows : List AppendedEvent) (st : Store) : Prop where
  length : rows.length = events.length
  ids : rows.map (·.eventId) = events.zipIdx.map fun e => e.1.eventId.getD (ids e.2)
  readStream : ∀ start qty : ℤ, 0 ≤ start → 0 < qty →
    (∀ row ∈ rows, start ≤ row.streamVersion ∧ row.streamVersion < start + qty) →
    ∃ before after, Client.readStream streamUuid start qty st =
        .ok (before ++ List.zipWith recordedAs events rows ++ after) ∧
      ∀ row ∈ rows, (∀ e ∈ before, e.streamVersion < row.streamVersion) ∧
        ∀ e ∈ after, row.streamVersion < e.streamVersion
  readAll : ∀ start qty : ℤ, 0 ≤ start → 0 < qty →
    (∀ row ∈ rows, start ≤ row.eventNumber ∧ row.eventNumber < start + qty) →
    ∃ before after, Client.readAll start qty st =
        .ok (before ++ List.zipWith recordedAs events rows ++ after) ∧
      ∀ row ∈ rows, (∀ e ∈ before, e.eventNumber < row.eventNumber) ∧
        ∀ e ∈ after, row.eventNumber < e.eventNumber

section Columns

variable {e : NewEvent} {x : Instructed.RecordedEvent} {evt : Json}

theorem toBigInt_toString (n : ℕ) : toBigInt (toString n) = .ok n := by
  rw [toBigInt, decimal?_toString]

/-- The returned row, mapped. -/
def appendedAs (streamUuid : String) (row : AppendedRow) : AppendedEvent :=
  ⟨row.eventId.text, streamUuid, row.streamVersion, row.eventNumber, toDate row.createdAt⟩

theorem mapAppendedRow_eq (streamUuid : String) (row : AppendedRow) :
    mapAppendedRow streamUuid row = .ok (appendedAs streamUuid row) := by
  rw [mapAppendedRow, toBigInt_toString, toBigInt_toString]
  rfl

/-- The row that was read, mapped. -/
def recorded (x : Instructed.RecordedEvent) : RecordedEvent :=
  ⟨x.eventId.text, x.eventNumber, x.streamUuid, x.streamVersion, x.eventType,
    x.causationId.map Uuid.text, x.correlationId.map Uuid.text, x.data, x.metadata.getD .null,
    toDate x.createdAt⟩

theorem mapRecordedEvent_ofRow (x : Instructed.RecordedEvent) :
    mapRecordedEvent (.ofRow x) = .ok (recorded x) := by
  show (toBigInt (toString x.eventNumber) >>= fun _ => toBigInt (toString x.streamVersion) >>= _) = _
  rw [toBigInt_toString, toBigInt_toString]
  rfl

theorem mapM_eq_map {α β ε : Type} {f : α → Except ε β} {g : α → β} (h : ∀ x, f x = .ok (g x))
    (xs : List α) : xs.mapM f = .ok (xs.map g) := by
  rw [show f = fun x => pure (g x) from funext h]
  exact List.mapM_pure

theorem mapRows_ok (rows : List Instructed.RecordedEvent) :
    mapRows (.ok rows) = .ok (rows.map recorded) :=
  mapM_eq_map mapRecordedEvent_ofRow rows

/-- The columns of an event that the caller chooses, as they are read. -/
structure Columns where
  eventId : Option String
  type : Option String
  causationId : Option String
  correlationId : Option String
  data : Json
  metadata : Json

/-- The columns of a packed event. -/
def columnsOf (evt : Json) : Columns :=
  ⟨evt.getText? "event_id", evt.getText? "event_type", evt.getText? "causation_id",
    evt.getText? "correlation_id", (evt.get? "data").getD .null, (evt.get? "metadata").getD .null⟩

@[simp] theorem columnsOf_filledEvent (id : String) (e : NewEvent) :
    columnsOf (filledEvent id e) = ⟨some (e.eventId.getD id), some e.type, e.causationId,
      e.correlationId, e.data.getD .null, e.metadata.getD .null⟩ := by
  obtain ⟨eventId, type, data, metadata, causationId, correlationId⟩ := e
  cases eventId <;> cases metadata <;> cases causationId <;> cases correlationId <;>
    simp [columnsOf, filledEvent, packEvent, optionalField, Json.getText?, Json.get?]

/-- The ids that the packed event carries are canonical. -/
def CanonicalJson (evt : Json) : Prop :=
  ∀ key ∈ ["event_id", "causation_id", "correlation_id"], ∀ s ∈ evt.getText? key, Canonical s

theorem NewEvent.CanonicalIds.json (h : e.CanonicalIds) {id : String} (hid : Canonical id) :
    CanonicalJson (filledEvent id e) := by
  have hcols := columnsOf_filledEvent id e
  simp only [columnsOf, Columns.mk.injEq] at hcols
  obtain ⟨hevent, -, hcausation, hcorrelation, -⟩ := hcols
  intro key hkey s hs
  simp only [List.mem_cons, List.not_mem_nil, or_false] at hkey
  rcases hkey with rfl | rfl | rfl
  · rw [hevent, Option.mem_some_iff] at hs
    subst hs
    cases heq : e.eventId with
    | none => exact hid
    | some t => exact h.event t heq
  · exact h.causation s (hcausation ▸ hs)
  · exact h.correlation s (hcorrelation ▸ hs)

/-- The columns of a row of `new_events`. -/
def rowColumns (r : NewEventRow) : Columns :=
  ⟨r.eventId.map Uuid.text, r.eventType, r.causationId.map Uuid.text, r.correlationId.map Uuid.text,
    r.data, r.metadata.getD .null⟩

/-- The columns of a row of `events`. -/
def eventColumns (e : EventRow) : Columns :=
  ⟨some e.eventId.text, some e.eventType, e.causationId.map Uuid.text, e.correlationId.map Uuid.text,
    e.data, e.metadata.getD .null⟩

/-- The casts keep the columns. -/
theorem rowColumns_newEventRow {r : NewEventRow} (h : CanonicalJson evt)
    (hr : newEventRow evt = .ok r) : rowColumns r = columnsOf evt := by
  obtain ⟨id, -, hid, hidText⟩ := castUuid_canonical (h "event_id" (by simp))
  obtain ⟨c, hc, -, hcText⟩ := castUuid_canonical (h "causation_id" (by simp))
  obtain ⟨k, hk, -, hkText⟩ := castUuid_canonical (h "correlation_id" (by simp))
  rw [newEventRow, hid, hc, hk] at hr
  cases hr
  simp only [rowColumns, columnsOf, hidText, hcText, hkText]

/-- **What is stored is what was packed.** -/
theorem newEvents_columnsOf {now : Timestamp} {events : List Json} {es : List EventRow}
    (h : ∀ evt ∈ events, CanonicalJson evt) (hes : newEvents now events = .ok es) :
    es.map eventColumns = events.map columnsOf := by
  obtain ⟨rows, hrows, hes⟩ := bind_eq_ok.mp hes
  have hstored : es.map eventColumns = rows.map rowColumns := by
    refine map_of_mapM_ok (fun r _ e he => ?_) hes
    unfold NewEventRow.toEventRow at he
    split at he
    · cases he
      simp [eventColumns, rowColumns, *]
    · cases he
  rw [hstored]
  exact map_of_mapM_ok (fun evt hevt r hr => rowColumns_newEventRow (h evt hevt) hr) hrows

/-- The columns of a row that was read. -/
def recordedColumns (x : Instructed.RecordedEvent) : Columns :=
  ⟨some x.eventId.text, some x.eventType, x.causationId.map Uuid.text, x.correlationId.map Uuid.text,
    x.data, x.metadata.getD .null⟩

theorem recordedAs_eq {streamUuid id : String} (hstream : x.streamUuid = streamUuid)
    (h : recordedColumns x = columnsOf (filledEvent id e)) :
    recordedAs e (appendedAs streamUuid x.toAppendedRow) = recorded x := by
  simp only [recordedColumns, columnsOf_filledEvent, Columns.mk.injEq, Option.some.injEq] at h
  obtain ⟨-, htype, hcausation, hcorrelation, hdata, hmetadata⟩ := h
  rw [recordedAs, recorded, htype, hcausation, hcorrelation, hdata, hmetadata, hstream]
  rfl

/-- Events with the columns of the packed ones are what is read back for them. -/
theorem zipWith_recordedAs {streamUuid : String} {events : List (NewEvent × String)}
    {new : List Instructed.RecordedEvent} (hstream : ∀ x ∈ new, x.streamUuid = streamUuid)
    (h : new.map recordedColumns = events.map fun e => columnsOf (filledEvent e.2 e.1)) :
    List.zipWith recordedAs (events.map Prod.fst)
      (new.map fun x => appendedAs streamUuid x.toAppendedRow) = new.map recorded := by
  induction events generalizing new with
  | nil => rw [List.map_eq_nil_iff.mp h]; rfl
  | cons e events ih =>
    cases new with
    | nil => cases h
    | cons x new =>
      obtain ⟨hx, h⟩ := List.cons.inj h
      have hhead := recordedAs_eq (hstream x List.mem_cons_self) hx
      have htail := ih (fun y hy => hstream y (List.mem_cons_of_mem _ hy)) h
      simp only [List.map_cons, List.zipWith_cons_cons, hhead, htail]

end Columns

section RoundTrip

variable {streamUuid : String} {expected : Expected} {events : List NewEvent} {ids : ℕ → String}
  {now : Timestamp} {db : Db} {rows : List AppendedEvent} {st : Store}

/-- The arguments of the procedure. -/
def appendArgs (streamUuid : String) (expected : Expected) (events : List NewEvent)
    (ids : ℕ → String) : AppendArgs :=
  ⟨some streamUuid, some expected.type, expected.version?,
    some (.arr (events.zipIdx.map fun e => filledEvent (ids e.2) e.1))⟩

theorem appendToStream_eq (hne : events ≠ []) :
    appendToStream streamUuid expected events ids now db =
      (match (db.append now (appendArgs streamUuid expected events ids)).1 with
        | .ok rows => .ok (rows.map (appendedAs streamUuid))
        | .error e => .error (.sql e),
        (db.append now (appendArgs streamUuid expected events ids)).2) := by
  rw [appendToStream, if_neg hne]
  show (match db.append now (appendArgs streamUuid expected events ids) with
    | (.ok rows, db) => (rows.mapM (mapAppendedRow streamUuid), db)
    | (.error e, db) => (.error (.sql e), db)) = _
  obtain ⟨reply, db'⟩ := db.append now (appendArgs streamUuid expected events ids)
  cases reply with
  | ok rows =>
    dsimp only
    rw [mapM_eq_map (mapAppendedRow_eq streamUuid)]
  | error e => rfl

/-- What a successful call adds to the log. -/
theorem appendToStream_ok (hdb : db.Reachable)
    (h : (appendToStream streamUuid expected events ids now db).1 = .ok rows)
    (hids : ∀ i, Canonical (ids i)) (hcanon : ∀ e ∈ events, e.CanonicalIds) :
    ∃ new, streamUuid ≠ "$all" ∧ new ≠ [] ∧ (∀ x ∈ new, x.streamUuid = streamUuid) ∧
      (appendToStream streamUuid expected events ids now db).2.store.log = db.store.log ++ new ∧
      rows = new.map (fun x => appendedAs streamUuid x.toAppendedRow) ∧
      new.map recordedColumns =
        (events.zipIdx.map fun e => (e.1, ids e.2)).map fun e => columnsOf (filledEvent e.2 e.1) := by
  have hne : events ≠ [] := by
    rintro rfl
    cases h
  rw [appendToStream_eq hne] at h ⊢
  let a : AppendArgs := appendArgs streamUuid expected events ids
  rcases hdb.consistent.append_cases now a with ⟨new, hcall, hok, hlog⟩ | ⟨e, herr, -⟩
  · simp only [a] at hok
    rw [hok] at h
    obtain ⟨r, es, hr, -, hes, -, rfl⟩ := appendCall_ok hcall
    obtain ⟨hu, -, hrne, hevents⟩ := validateAppend_ok hr
    have hu : streamUuid = r.streamUuid := Option.some.inj hu
    have hpacked : r.events = events.zipIdx.map fun e => filledEvent (ids e.2) e.1 :=
      Json.arr.inj (Option.some.inj (eventsOf_ok hevents)).symm
    refine ⟨_, hu ▸ r.not_all, ?_, fun x hx => hu ▸ recordBatch_streamUuid hx, hlog, ?_, ?_⟩
    · apply List.ne_nil_of_length_pos
      rw [recordBatch_length, newEvents_length hes]
      exact r.n_pos
    · rw [← Except.ok.inj h, List.map_map]
      rfl
    · have hcols : es.map eventColumns = r.events.map columnsOf := by
        refine newEvents_columnsOf (fun evt hevt => ?_) hes
        rw [hpacked] at hevt
        obtain ⟨e, he, rfl⟩ := List.mem_map.mp hevt
        exact (hcanon _ (List.fst_mem_of_mem_zipIdx he)).json (hids _)
      rw [map_recordBatch_of_event (g := eventColumns) fun _ _ _ _ => rfl, hcols, hpacked, List.map_map,
        List.map_map]
      rfl
  · simp only [a] at herr
    rw [herr] at h
    cases h

theorem mapRows_eq_ok {before mid after : List Instructed.RecordedEvent}
    {result : Except SqlError (List Instructed.RecordedEvent)}
    (h : result = .ok (before ++ mid ++ after)) :
    mapRows result = .ok (before.map recorded ++ mid.map recorded ++ after.map recorded) := by
  rw [h, mapRows_ok, List.map_append, List.map_append]

/-- A page that covers the new events, where `pos` is the position that it goes by. -/
theorem page_recorded {pos : Instructed.RecordedEvent → ℕ} {old new more : List Instructed.RecordedEvent}
    (hpos : Consecutive pos 1 (old ++ new ++ more)) (hne : new ≠ []) {s q : ℕ}
    (hcover : ∀ x ∈ new, s ≤ pos x ∧ pos x < s + q) :
    ∃ before after, ((old ++ new ++ more).drop (s - 1)).take q = before ++ new ++ after ∧
      ∀ x ∈ new, (∀ y ∈ before, pos y < pos x) ∧ ∀ y ∈ after, pos x < pos y := by
  obtain ⟨n, hpage⟩ := page_eq hpos hne hcover
  obtain ⟨hold, -, hlt⟩ := List.pairwise_append.mp hpos.pairwise_lt
  obtain ⟨-, -, hlt'⟩ := List.pairwise_append.mp hold
  refine ⟨_, _, hpage, fun x hx => ⟨fun y hy => ?_, fun y hy => ?_⟩⟩
  · exact hlt' y ((List.drop_sublist _ _).subset hy) x hx
  · exact hlt x (List.mem_append_right _ hx) y ((List.take_sublist _ _).subset hy)

theorem reachable_appendToStream (hdb : db.Reachable) :
    (appendToStream streamUuid expected events ids now db).2.Reachable := by
  by_cases hne : events = []
  · rw [appendToStream, if_pos hne]
    exact hdb
  · rw [appendToStream_eq hne]
    exact .append _ _ hdb

/-- An event with its ids, and one with all optional fields left out. -/
def sampleEvents : List NewEvent :=
  [⟨some "12121212-1212-1212-1212-121212121212", "opened", some (.obj [("owner", .str "ada")]),
      some (.bool true), some "34343434-3434-3434-3434-343434343434", none⟩,
    ⟨none, "closed", none, none, none, none⟩]

end RoundTrip

end Instructed.Client
