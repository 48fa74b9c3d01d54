import Instructed.Store.Schema

/-!
# `append_to_stream`

`sql/instructed.sql`, lines 607–837, statement by statement:

* `validateAppend`: the input checks, which turn the parameters into an `AppendRequest`;
* `resolveStream`: step (1), one definition for each `insert` / `update` / `select` it consists of;
* `bumpAll`: step (2), the `$all` counter;
* `insertEvents`: steps (3) and (4), the CTE chain with its constraint checks.

A procedure maps the store to its result and the new store, or to the raised error. An error leaves
the store as it was: PostgreSQL rolls the statement back. The identity column draws its value from a
sequence, which is not rolled back. A call is therefore given the value `newStreamId` that `nextval`
returns to it, and `Db` keeps the sequence beside the store.
-/

namespace Instructed

open Sql Relational

/-- The parameters of `append_to_stream` that its body reads. -/
structure AppendArgs where
  streamUuid : Option String
  expectedVersionType : Option String
  expectedVersion : Option ℤ
  events : Option Json

/-- `p_expected_version_type` with its version. -/
inductive ExpectedVersion where
  | any
  | noStream
  | streamExists
  | exact (version : ℕ)
  deriving DecidableEq, Repr

/-- Checked parameters. `events` are the elements of `p_events`; `v_n` is their number. -/
structure AppendRequest where
  streamUuid : String
  expected : ExpectedVersion
  events : List Json
  not_all : streamUuid ≠ "$all"
  events_ne : events ≠ []

/-- `v_n`. -/
def AppendRequest.n (r : AppendRequest) : ℕ := r.events.length

theorem AppendRequest.n_pos (r : AppendRequest) : 0 < r.n :=
  List.length_pos_iff.mpr r.events_ne

/-- One row returned by `append_to_stream`. -/
structure AppendedRow where
  eventId : Uuid
  streamVersion : ℕ
  eventNumber : ℕ
  createdAt : Timestamp
  deriving DecidableEq

/-! ## Input validation (lines 620–683) -/

/-- The checks of `p_expected_version_type` and `p_expected_version` (lines 629–642). -/
def expectedVersionOf (type : Option String) (version : Option ℤ) :
    Except SqlError ExpectedVersion :=
  if type = some "any" then .ok .any
  else if type = some "no_stream" then .ok .noStream
  else if type = some "stream_exists" then .ok .streamExists
  else if type = some "exact" then
    match version with
    | some v =>
      if v < 0 then raise .invalidParameterValue
        "append_to_stream: p_expected_version must be a non-negative integer for 'exact'"
      else .ok (.exact v.toNat)
    | none => raise .invalidParameterValue
        "append_to_stream: p_expected_version must be a non-negative integer for 'exact'"
  else raise .invalidParameterValue
    ("append_to_stream: invalid p_expected_version_type: " ++ type.getD "<null>")

/-- The condition of the per-event shape check (lines 656–664). It is three-valued: an element that
    is an array or a string can satisfy `?`, and then `->` is `NULL`. -/
def misshapen (evt : Json) : Option Bool :=
  sqlOr (some (!evt.hasKey "event_id")) <|
  sqlOr (some (!evt.hasKey "event_type")) <|
  sqlOr (some (!evt.hasKey "data")) <|
  sqlOr (typeofNe (evt.get? "event_type") "string") <|
  typeofNe (evt.get? "event_id") "string"

/-- Lines 643–676: a non-empty array whose elements pass the shape check and carry a UUID. -/
def eventsOf (events : Option Json) : Except SqlError { es : List Json // es ≠ [] } :=
  match events with
  | some (.arr items) =>
    if h : items = [] then raise .invalidParameterValue
      "append_to_stream: p_events must be a non-empty JSON array"
    else if items.any fun evt => misshapen evt = some true then raise .invalidParameterValue
      "append_to_stream: each event must have event_id, event_type, data"
    else if items.any fun evt => (castUuid (evt.getText? "event_id")).isOk = false then
      raise .invalidParameterValue "append_to_stream: malformed event_id (must be UUID)"
    else .ok ⟨items, h⟩
  | _ => raise .invalidParameterValue
      "append_to_stream: p_events must be a non-empty JSON array"

/-- The input checks of `append_to_stream`, in the order of the source. -/
def validateAppend (a : AppendArgs) : Except SqlError AppendRequest :=
  match a.streamUuid with
  | none => raise .invalidParameterValue "append_to_stream: p_stream_uuid is null"
  | some streamUuid =>
    if h : streamUuid = "$all" then
      raise .IS005 "append_to_stream: stream_uuid '$all' is reserved"
    else do
      let expected ← expectedVersionOf a.expectedVersionType a.expectedVersion
      let events ← eventsOf a.events
      return ⟨streamUuid, expected, events.val, h, events.property⟩

theorem expectedVersionOf_sqlstate {type : Option String} {version : Option ℤ} {e : SqlError}
    (h : expectedVersionOf type version = .error e) : e.sqlstate = .invalidParameterValue := by
  unfold expectedVersionOf at h
  split_ifs at h
  · split at h
    · split_ifs at h
      obtain rfl := Except.error.inj h
      rfl
    · obtain rfl := Except.error.inj h
      rfl
  · obtain rfl := Except.error.inj h
    rfl

theorem eventsOf_sqlstate {events : Option Json} {e : SqlError} (h : eventsOf events = .error e) :
    e.sqlstate = .invalidParameterValue := by
  unfold eventsOf at h
  split at h
  · split_ifs at h <;> obtain rfl := Except.error.inj h <;> rfl
  · obtain rfl := Except.error.inj h
    rfl

theorem validateAppend_sqlstate {a : AppendArgs} {e : SqlError} (h : validateAppend a = .error e) :
    e.sqlstate = .invalidParameterValue ∨ e.sqlstate = .IS005 := by
  unfold validateAppend at h
  split at h
  · obtain rfl := Except.error.inj h
    exact Or.inl rfl
  · split_ifs at h
    · obtain rfl := Except.error.inj h
      exact Or.inr rfl
    · rcases bind_eq_error h with h | ⟨_, -, h⟩
      · exact Or.inl (expectedVersionOf_sqlstate h)
      rcases bind_eq_error h with h | ⟨_, -, h⟩
      · exact Or.inl (eventsOf_sqlstate h)
      · cases h

/-- What a successful check of the parameters says about the request. -/
theorem validateAppend_ok {a : AppendArgs} {r : AppendRequest} (h : validateAppend a = .ok r) :
    a.streamUuid = some r.streamUuid ∧
      expectedVersionOf a.expectedVersionType a.expectedVersion = .ok r.expected ∧
      ∃ hne, eventsOf a.events = .ok ⟨r.events, hne⟩ := by
  unfold validateAppend at h
  cases hu : a.streamUuid with
  | none => rw [hu] at h; cases h
  | some u =>
    simp only [hu] at h
    split_ifs at h with hall
    · cases h
    · cases hexp : expectedVersionOf a.expectedVersionType a.expectedVersion with
      | error e => rw [hexp] at h; cases h
      | ok x =>
        cases hev : eventsOf a.events with
        | error e => rw [hexp, hev] at h; cases h
        | ok es =>
          rw [hexp, hev] at h
          cases h
          exact ⟨rfl, rfl, es.property, rfl⟩

/-! ## Step (1): resolve the target stream's row (lines 686–762) -/

/-- The unique constraints of `streams`. -/
inductive StreamsConstraint where
  | streamsPkey
  | streamsStreamUuidKey
  deriving DecidableEq

/-- `insert into streams (stream_uuid, stream_version) values (u, n)`, where the identity column
    drew `id`: the inserted row, or the violated constraint. -/
def insertStream (st : Store) (id : ℕ) (u : String) (n : ℕ) : Except StreamsConstraint StreamRow :=
  if (st.streams.find? id).isSome then .error .streamsPkey
  else if (st.streamByUuid u).isSome then .error .streamsStreamUuidKey
  else .ok ⟨id, u, n⟩

/-- `set stream_version = s.stream_version + n`. -/
def StreamRow.bump (r : StreamRow) (n : ℕ) : StreamRow :=
  { r with streamVersion := r.streamVersion + n }

/-- `'any'`: `insert ... on conflict (stream_uuid) do update` (lines 693–698). The conflict clause
    covers `stream_uuid` only. -/
def upsertStream (st : Store) (id : ℕ) (u : String) (n : ℕ) : Except SqlError StreamRow :=
  match st.streamByUuid u with
  | some r => .ok (r.bump n)
  | none =>
    match insertStream st id u n with
    | .ok r => .ok r
    | .error _ => raise .uniqueViolation
        "duplicate key value violates unique constraint \"streams_pkey\""

/-- `'no_stream'`: `insert` with its exception handler (lines 701–709). -/
def createStream (st : Store) (id : ℕ) (u : String) (n : ℕ) : Except SqlError StreamRow :=
  match insertStream st id u n with
  | .ok r => .ok r
  | .error _ => raise .IS002 ("append_to_stream: stream " ++ u ++ " already exists")

/-- `'exact'` with version 0 and no row seen: `insert` with its exception handler
    (lines 739–748). -/
def createStreamAtZero (st : Store) (id : ℕ) (u : String) (n : ℕ) : Except SqlError StreamRow :=
  match insertStream st id u n with
  | .ok r => .ok r
  | .error _ => raise .IS001
      ("append_to_stream: stream " ++ u ++ " was created concurrently (expected version 0)")

/-- `'exact'` on an existing row: the comparison under the row lock (lines 756–760). -/
def checkVersion (r : StreamRow) (v : ℕ) : Except SqlError StreamRow :=
  if r.streamVersion ≠ v then raise .IS001
    ("append_to_stream: wrong expected version: actual " ++ toString r.streamVersion ++
      ", expected " ++ toString v)
  else .ok r

/-- `'stream_exists'` without a row (lines 716–719). -/
def streamMissing (u : String) : SqlError :=
  ⟨.IS003, "append_to_stream: stream " ++ u ++ " does not exist"⟩

/-- `'exact'` with a positive version and no row (lines 750–753). -/
def streamMissingAt (u : String) (v : ℕ) : SqlError :=
  ⟨.IS001, "append_to_stream: stream " ++ u ++ " does not exist (expected version " ++
    toString v ++ ")"⟩

/-- Step (1): the row of `streams` that the call writes, with the version already bumped. The row
    carries `v_stream_id` and `v_base_sv + v_n`. -/
def resolveStream (st : Store) (id : ℕ) (r : AppendRequest) : Except SqlError StreamRow :=
  match r.expected with
  | .any => upsertStream st id r.streamUuid r.n
  | .noStream => createStream st id r.streamUuid r.n
  | .streamExists =>
    match st.streamByUuid r.streamUuid with
    | none => .error (streamMissing r.streamUuid)
    | some row => .ok (row.bump r.n)
  | .exact v =>
    match st.streamByUuid r.streamUuid with
    | none =>
      if v = 0 then createStreamAtZero st id r.streamUuid r.n
      else .error (streamMissingAt r.streamUuid v)
    | some row => do
      let row ← checkVersion row v
      return row.bump r.n

/-! ## Step (2): the `$all` row (lines 764–770) -/

/-- `update streams set stream_version = stream_version + n where stream_id = 0`. Without the seed
    row `v_base_en` stays `NULL` and the links violate `not null`. -/
def bumpAll (st : Store) (n : ℕ) : Except SqlError StreamRow :=
  match st.streams.find? 0 with
  | some r => .ok (r.bump n)
  | none => raise .notNullViolation "null value in column \"stream_version\""

/-! ## Steps (3) and (4): the events and their links (lines 772–837) -/

/-- A row of the CTE `new_events`, before its columns meet the `not null` constraints. -/
structure NewEventRow where
  eventId : Option Uuid
  eventType : Option String
  causationId : Option Uuid
  correlationId : Option Uuid
  data : Json
  metadata : Option Json

/-- One row of `new_events` (lines 779–787). -/
def newEventRow (evt : Json) : Except SqlError NewEventRow := do
  let eventId ← castUuid (evt.getText? "event_id")
  let causationId ← castUuid (nullifEmpty (evt.getText? "causation_id"))
  let correlationId ← castUuid (nullifEmpty (evt.getText? "correlation_id"))
  return { eventId, eventType := evt.getText? "event_type", causationId, correlationId,
           data := (evt.get? "data").getD .null, metadata := evt.get? "metadata" }

/-- `insert into events`, the `not null` columns: `created_at` defaults to `now()`. -/
def NewEventRow.toEventRow (now : Timestamp) (e : NewEventRow) : Except SqlError EventRow :=
  match e.eventId, e.eventType with
  | some eventId, some eventType =>
    .ok { eventId, eventType, causationId := e.causationId, correlationId := e.correlationId,
          data := e.data, metadata := e.metadata, createdAt := now }
  | _, _ => raise .notNullViolation "null value in column of relation \"events\""

/-- The rows of `events` that the batch inserts, in input order. -/
def newEvents (now : Timestamp) (events : List Json) : Except SqlError (List EventRow) := do
  let rows ← events.mapM newEventRow
  rows.mapM (NewEventRow.toEventRow now)

/-- The casts and the `not null` columns of the inserted rows. -/
theorem newEvents_sqlstate {now : Timestamp} {events : List Json} {e : SqlError}
    (h : newEvents now events = .error e) :
    e.sqlstate = .invalidTextRepresentation ∨ e.sqlstate = .notNullViolation := by
  rcases bind_eq_error h with hrows | ⟨rows, -, hrows⟩
  · obtain ⟨evt, -, hevt⟩ := mapM_eq_error hrows
    left
    rcases bind_eq_error hevt with hid | ⟨_, -, hevt⟩
    · exact castUuid_sqlstate hid
    rcases bind_eq_error hevt with hcausation | ⟨_, -, hevt⟩
    · exact castUuid_sqlstate hcausation
    rcases bind_eq_error hevt with hcorrelation | ⟨_, -, hevt⟩
    · exact castUuid_sqlstate hcorrelation
    · cases hevt
  · obtain ⟨row, -, hrow⟩ := mapM_eq_error hrows
    right
    unfold NewEventRow.toEventRow at hrow
    split at hrow
    · cases hrow
    · obtain rfl := Except.error.inj hrow
      rfl

/-- The CTE `ins_origin` (lines 795–801): the links on the origin stream. -/
def originLinks (streamId baseSv : ℕ) (es : List EventRow) : List StreamEventRow :=
  (es.zipIdx 1).map fun e => ⟨e.1.eventId, streamId, baseSv + e.2, streamId, baseSv + e.2⟩

/-- The CTE `ins_all` (lines 802–808): the links on `$all`. -/
def allLinks (streamId baseSv baseEn : ℕ) (es : List EventRow) : List StreamEventRow :=
  (es.zipIdx 1).map fun e => ⟨e.1.eventId, 0, baseEn + e.2, streamId, baseSv + e.2⟩

/-- The rows that both CTEs insert into `stream_events`. -/
def newLinks (streamId baseSv baseEn : ℕ) (es : List EventRow) : List StreamEventRow :=
  originLinks streamId baseSv es ++ allLinks streamId baseSv baseEn es

/-- The returned rows (lines 809–815). -/
def appendedRows (baseSv baseEn : ℕ) (es : List EventRow) : List AppendedRow :=
  (es.zipIdx 1).map fun e => ⟨e.1.eventId, baseSv + e.2, baseEn + e.2, e.1.createdAt⟩

/-- The unique constraints of `events` and `stream_events`. -/
inductive EventsConstraint where
  | eventsPkey
  | streamEventsPkey
  | streamEventsVersionKey
  deriving DecidableEq

/-- The first unique constraint that inserting the events `es` and the links `ls` violates. The
    source leaves the order of the checks undefined (lines 822–826). -/
def eventsViolation (st : Store) (es : List EventRow) (ls : List StreamEventRow) :
    Option EventsConstraint :=
  if ¬ ((es.map (·.eventId)).Nodup ∧ ∀ e ∈ es, st.events.find? e.eventId = none) then
    some .eventsPkey
  else if ¬ ((ls.map (·.pkey)).Nodup ∧ ∀ l ∈ ls, st.streamEvents.find? l.pkey = none) then
    some .streamEventsPkey
  else if ¬ ((ls.map (·.versionKey)).Nodup ∧
      ∀ l ∈ ls, ∀ x ∈ st.streamEvents.rows, x.versionKey ≠ l.versionKey) then
    some .streamEventsVersionKey
  else none

/-- The handler of the CTE chain (lines 818–835). -/
def EventsConstraint.toError : EventsConstraint → SqlError
  | .eventsPkey | .streamEventsPkey => ⟨.IS004, "append_to_stream: duplicate event_id"⟩
  | .streamEventsVersionKey =>
    ⟨.IS001, "append_to_stream: wrong expected version (concurrent append)"⟩

/-- Add rows to `events` and `stream_events`. -/
def Store.addEvents (st : Store) (es : List EventRow) (ls : List StreamEventRow) : Store :=
  { st with events := st.events.putAll es, streamEvents := st.streamEvents.putAll ls }

/-- The batch of rows that one call inserts. -/
structure EventBatch where
  events : List EventRow
  links : List StreamEventRow
  rows : List AppendedRow

/-- Steps (3) and (4) against the store `st`, where step (1) wrote `row` and step (2) wrote
    `all`. -/
def insertEvents (st : Store) (now : Timestamp) (r : AppendRequest) (row all : StreamRow) :
    Except SqlError EventBatch := do
  let es ← newEvents now r.events
  let baseSv := row.streamVersion - r.n
  let baseEn := all.streamVersion - r.n
  let ls := newLinks row.streamId baseSv baseEn es
  match eventsViolation st es ls with
  | some c => throw c.toError
  | none => return ⟨es, ls, appendedRows baseSv baseEn es⟩

/-! ## The procedure -/

/-- The body of `append_to_stream` after the input checks. -/
def appendRequest (newStreamId : ℕ) (now : Timestamp) (r : AppendRequest) (st : Store) :
    Except SqlError (List AppendedRow × Store) := do
  let row ← resolveStream st newStreamId r
  let st := st.putStream row
  let all ← bumpAll st r.n
  let st := st.putStream all
  let batch ← insertEvents st now r row all
  return (batch.rows, st.addEvents batch.events batch.links)

/-- `append_to_stream`, for a transaction that starts at `now` and whose identity default draws
    `newStreamId`. -/
def appendToStream (newStreamId : ℕ) (now : Timestamp) (a : AppendArgs) (st : Store) :
    Except SqlError (List AppendedRow × Store) := do
  let r ← validateAppend a
  appendRequest newStreamId now r st

/-! ## The identity sequence -/

/-- A database: the tables and the next value of the identity sequence of `streams`. -/
structure Db where
  store : Store
  streamIdSeq : ℕ

/-- After the install script: `setval(..., 1, false)` makes 1 the next value (lines 154–158). -/
def Db.install : Db := ⟨Store.install, 1⟩

/-- Whether the request reaches an `insert into streams`, which draws from the sequence. -/
def AppendRequest.drawsStreamId (r : AppendRequest) (st : Store) : Bool :=
  match r.expected with
  | .any | .noStream => true
  | .streamExists => false
  | .exact v => v = 0 ∧ (st.streamByUuid r.streamUuid).isNone

/-- The sequence after the call, which a failing call advances as well. -/
def Db.nextSeq (db : Db) (a : AppendArgs) : ℕ :=
  match validateAppend a with
  | .ok r => if r.drawsStreamId db.store then db.streamIdSeq + 1 else db.streamIdSeq
  | .error _ => db.streamIdSeq

/-- One call of `append_to_stream` in its own transaction: its outcome and the database after
    it. -/
def Db.append (db : Db) (now : Timestamp) (a : AppendArgs) :
    Except SqlError (List AppendedRow) × Db :=
  match appendToStream db.streamIdSeq now a db.store with
  | .ok (rows, st) => (.ok rows, ⟨st, db.nextSeq a⟩)
  | .error e => (.error e, ⟨db.store, db.nextSeq a⟩)

/-- A sequence of calls, each with the time at which its transaction starts. -/
def Db.appends (db : Db) (calls : List (Timestamp × AppendArgs)) : Db :=
  calls.foldl (fun db c => (db.append c.1 c.2).2) db

end Instructed
