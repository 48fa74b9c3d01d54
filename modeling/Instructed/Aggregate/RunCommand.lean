import Instructed.Lib.System
import Instructed.Store.Refine
import Instructed.Store.Snapshots

/-!
# `runCommand` and `runCommandWithSnapshots`

Concurrent clients that run commands against one aggregate stream
(`sdks/typescript/src/aggregate/run-command.ts`, `snapshots.ts`). A client is a loop of procedure
calls with its own code between them; each call is atomic, and the calls of all clients and other
writers interleave freely.

* `AggregateDefinition`, `NewEvent`, `packEvent`: what the application supplies, and what is sent;
* `Pc`, `step`: `executeCommand` with `loadAggregate`, call by call, and the snapshot write of
  `runCommandWithSnapshots`.

JavaScript values that go through JSON are of an arbitrary type `V`, and so is the state `S`; a
`Codec` stands for `JSON.stringify`, the `jsonb` column and the driver's parse. `World.writes`,
`World.finished` and the numbers of the runs are ghosts.
-/

namespace Instructed.Aggregate

open Sql Relational Transition

/-! ## What the application supplies -/

/-- `NewEvent` (types/event.ts:53–60); an absent property is `none`. -/
structure NewEvent (V : Type) where
  eventId : Option String
  type : String
  data : V
  metadata : Option V
  causationId : Option String
  correlationId : Option String

/-- `DomainEvent` (run-command.ts:70–74). -/
structure DomainEvent (V : Type) where
  type : String
  data : V
  metadata : Option V

/-- What `execute` can throw, as far as the command loop tells apart. -/
inductive Thrown where
  | wrongExpectedVersion
  | other (message : String)

/-- `AggregateDefinition` (run-command.ts:96–157). `execute` returns what `normaliseEvents` (lines
    530–534) makes of its result. -/
structure AggregateDefinition (S C V : Type) where
  type : String
  initialState : S
  execute : S → C → Except Thrown (List (NewEvent V))
  apply : S → DomainEvent V → S
  snapshotPolicy : Option (S → ℕ → ℕ → Bool)
  snapshotModuleVersion : Option String

/-- JSON storage of event payloads and of states. A column that is `NULL` reads as `null`. -/
structure Codec (S V : Type) where
  stringify : V → Json
  parse : Option Json → V
  stateToJson : S → Json
  jsonToState : Json → S

variable {S C V : Type}

/-- `recordedToDomain` of a row of `read_stream` (run-command.ts:521–528). -/
def recordedToDomain (codec : Codec S V) (row : RecordedEvent) : DomainEvent V :=
  ⟨row.eventType, codec.parse (some row.data), some (codec.parse row.metadata)⟩

/-- The event as `runCommandAndApply` folds it (run-command.ts:435–439). -/
def NewEvent.toDomain (e : NewEvent V) : DomainEvent V := ⟨e.type, e.data, e.metadata⟩

/-- The event as it is read back after it was stored. -/
def readBack (codec : Codec S V) (e : DomainEvent V) : DomainEvent V :=
  ⟨e.type, codec.parse (some (codec.stringify e.data)),
    some (codec.parse (e.metadata.map codec.stringify))⟩

/-- Several definitions that run against one stream: the module versions of an aggregate, and the
    commands of each. Definitions with the same module version tag share `initialState` and `apply`;
    states survive JSON storage; `apply` treats an event in memory and the same event read back
    alike. -/
structure Deployment (δ S C V : Type) where
  definition : δ → AggregateDefinition S C V
  codec : Codec S V
  module_eq : ∀ d d', (definition d).snapshotModuleVersion = (definition d').snapshotModuleVersion →
    (definition d).initialState = (definition d').initialState ∧
      (definition d).apply = (definition d').apply
  state_roundTrip : ∀ s, codec.jsonToState (codec.stateToJson s) = s
  apply_readBack : ∀ d s e,
    (definition d).apply s (readBack codec e) = (definition d).apply s e

/-! ## Requests -/

/-- The elements of a packed event that are present. -/
def optionalField (key : String) (value : Option Json) : List (String × Json) :=
  (value.map fun v => (key, v)).toList

/-- `packEvent` (pack-event.ts:9–22), with the event id filled in. -/
def packEvent (codec : Codec S V) (id : String) (e : NewEvent V) : Json :=
  .obj ([("event_id", .str (e.eventId.getD id)), ("event_type", .str e.type),
    ("data", codec.stringify e.data)] ++ optionalField "metadata" (e.metadata.map codec.stringify) ++
    optionalField "causation_id" (e.causationId.map .str) ++
    optionalField "correlation_id" (e.correlationId.map .str))

/-- The defaulting of `causation_id` and `correlation_id` (run-command.ts:326–333). -/
def fillEvent (causationDefault : String) (correlationId : Option String) (e : NewEvent V) :
    NewEvent V :=
  { e with
    causationId := some (e.causationId.getD causationDefault)
    correlationId := e.correlationId.or correlationId }

/-- `client.appendToStream(streamUuid, expected.exact(version), events)` (run-command.ts:335–336);
    `ids` are the values of `crypto.randomUUID()`. -/
def appendArgs (codec : Codec S V) (streamUuid : String) (version : ℕ) (ids : ℕ → String)
    (events : List (NewEvent V)) : AppendArgs where
  streamUuid := some streamUuid
  expectedVersionType := some "exact"
  expectedVersion := some version
  events := some (.arr (events.zipIdx.map fun e => packEvent codec (ids e.2) e.1))

/-- `SNAPSHOT_MODULE_VERSION_KEY` (snapshot-version.ts:27). -/
def snapshotModuleVersionKey : String := "$instructed.snapshot_module_version"

/-- The module version stamped into a snapshot's metadata (snapshots.ts:107–110). -/
def stampVersion (version : Option String) : Option Json :=
  version.map fun v => .obj [(snapshotModuleVersionKey, .str v)]

/-- The module version read from a snapshot's metadata (run-command.ts:478–483). -/
def readVersion (metadata : Option Json) : Option String :=
  match metadata.bind fun m => m.get? snapshotModuleVersionKey with
  | some (.str v) => some v
  | _ => none

/-! ## One client -/

/-- `LOAD_PAGE_SIZE` (run-command.ts:220). -/
def loadPageSize : ℕ := 500

/-- `LoadedAggregate` (run-command.ts:452–457). -/
structure Loaded (S : Type) where
  state : S
  version : ℕ
  eventsSinceSnapshot : ℕ

/-- A command in progress: its arguments, its number, and the attempts begun. -/
structure Run (δ C : Type) where
  number : ℕ
  definition : δ
  command : C
  retryBudget : ℕ
  causationDefault : String
  correlationId : Option String
  /-- `runCommandWithSnapshots` rather than `runCommand`. -/
  withSnapshots : Bool
  attempt : ℕ

/-- The next procedure call of a client. -/
inductive Pc (S V : Type) where
  | readSnapshot
  | readPage (loaded : Loaded S)
  | append (loaded : Loaded S) (filled : List (NewEvent V))
  | recordSnapshot (rows : List AppendedRow) (state : S) (version : ℕ)

/-- How a command ends. -/
inductive Outcome where
  | appended (rows : List AppendedRow)
  | noOp
  | threw

/-- What the code between two calls decides: the next call, or the end of the command. -/
inductive Next (δ S C V : Type) where
  | call (run : Run δ C) (pc : Pc S V)
  | finish (run : Run δ C) (outcome : Outcome)

section Client

variable {δ : Type} (D : Deployment δ S C V) (streamUuid : String)

/-- The definition a run executes. -/
def Run.def (run : Run δ C) : AggregateDefinition S C V := D.definition run.definition

/-- `catch (err)` on a `WrongExpectedVersion` (run-command.ts:341–357): the next attempt, or
    `RetryBudgetExhausted`. -/
def retry (run : Run δ C) : Next δ S C V :=
  if run.retryBudget < run.attempt then .finish run .threw
  else .call { run with attempt := run.attempt + 1 } .readSnapshot

/-- `loadAggregate` is done: run `execute` (run-command.ts:312–336). -/
def afterLoad (run : Run δ C) (loaded : Loaded S) : Next δ S C V :=
  match (run.def D).execute loaded.state run.command with
  | .error .wrongExpectedVersion => retry run
  | .error (.other _) => .finish run .threw
  | .ok [] => .finish run .noOp
  | .ok (e :: es) =>
    .call run (.append loaded ((e :: es).map (fillEvent run.causationDefault run.correlationId)))

/-- The snapshot read of `loadAggregate` (run-command.ts:476–496). -/
def readSnapshotCall (run : Run δ C) (st : Store) : Next δ S C V :=
  let initial : Loaded S := ⟨(run.def D).initialState, 0, 0⟩
  match Instructed.readSnapshot (some streamUuid) st with
  | .ok snap =>
    if readVersion snap.metadata = (run.def D).snapshotModuleVersion then
      .call run (.readPage ⟨D.codec.jsonToState snap.data, snap.sourceVersion, 0⟩)
    else .call run (.readPage initial)
  | .error e =>
    if e.sqlstate = .IS010 then .call run (.readPage initial) else .finish run .threw

/-- The loop over the rows of one page (run-command.ts:510–514). -/
def foldPage (d : AggregateDefinition S C V) (codec : Codec S V) (loaded : Loaded S)
    (page : List RecordedEvent) : Loaded S :=
  page.foldl (fun l row => ⟨d.apply l.state (recordedToDomain codec row), row.streamVersion,
    l.eventsSinceSnapshot + 1⟩) loaded

/-- One page of `loadAggregate` (run-command.ts:501–516). -/
def readPageCall (run : Run δ C) (loaded : Loaded S) (st : Store) : Next δ S C V :=
  match readStream (some streamUuid) (some (loaded.version + 1 : ℕ)) (some loadPageSize) st with
  | .ok page =>
    let loaded := foldPage (run.def D) D.codec loaded page
    if page.length < loadPageSize then afterLoad D run loaded
    else .call run (.readPage loaded)
  | .error e =>
    if e.sqlstate = .IS003 ∧ loaded.version = 0 then afterLoad D run loaded
    else .finish run .threw

/-- After `append_to_stream` returned `rows`: the fold of `runCommandAndApply`
    (run-command.ts:432–447), and the decision of `runCommandWithSnapshots`. -/
def afterAppend (run : Run δ C) (loaded : Loaded S) (filled : List (NewEvent V))
    (rows : List AppendedRow) : Next δ S C V :=
  let state := (filled.map NewEvent.toDomain).foldl (run.def D).apply loaded.state
  let version := (rows.getLast?.map (·.streamVersion)).getD loaded.version
  match (if run.withSnapshots then (run.def D).snapshotPolicy else none) with
  | some shouldSnapshot =>
    if shouldSnapshot state version (loaded.eventsSinceSnapshot + rows.length) then
      .call run (.recordSnapshot rows state version)
    else .finish run (.appended rows)
  | none => .finish run (.appended rows)

/-- After `append_to_stream` raised (run-command.ts:345–351). -/
def afterAppendError (run : Run δ C) (e : SqlError) : Next δ S C V :=
  if e.sqlstate = .IS001 then retry run else .finish run .threw

/-- The snapshot write, whose failure is only logged (snapshots.ts:111–128). -/
def recordSnapshotCall (now : Timestamp) (run : Run δ C) (state : S) (version : ℕ) (st : Store) :
    Store :=
  match Instructed.recordSnapshot now (some streamUuid) (some (run.def D).type) (some version)
    (some (D.codec.stateToJson state)) (stampVersion (run.def D).snapshotModuleVersion) st with
  | .ok st' => st'
  | .error _ => st

end Client

/-! ## The system -/

/-- A successful append: the rows it returned, and for a command the run and the state that was
    passed to `execute`. -/
structure Write (δ S C : Type) where
  author : Option (Run δ C × S)
  rows : List AppendedRow

/-- The database, the clients, and the ghosts: the runs started, the appends that succeeded in their
    order, and the commands that have ended. -/
structure World (ι δ S C V : Type) where
  db : Db
  client : ι → Option (Run δ C × Pc S V)
  started : ℕ
  writes : List (Write δ S C)
  finished : List (Run δ C × Outcome)

/-- What happens next. -/
inductive Op (ι δ C : Type) where
  /-- A client starts a command. -/
  | start (i : ι) (definition : δ) (command : C) (retryBudget : ℕ) (causationDefault : String)
      (correlationId : Option String) (withSnapshots : Bool)
  /-- A client's next call runs, at the given time; `ids` are fresh event ids. -/
  | call (i : ι) (now : Timestamp) (ids : ℕ → String)
  /-- A client's next call fails without having run. -/
  | fail (i : ι)
  /-- Another writer appends, to this stream or to another. -/
  | append (now : Timestamp) (a : AppendArgs)
  | deleteSnapshot (sourceUuid : String)
  /-- Another writer records a snapshot under another key. -/
  | recordSnapshot (now : Timestamp) (sourceUuid sourceType : String) (sourceVersion : ℤ)
      (data : Json) (metadata : Option Json)

section System

variable {ι δ : Type} [DecidableEq ι] (D : Deployment δ S C V) (streamUuid : String)

def World.install : World ι δ S C V := ⟨Db.install, fun _ => none, 0, [], []⟩

variable (w : World ι δ S C V)

/-- Client `i` goes on as its code decides. -/
def World.next (i : ι) : Next δ S C V → World ι δ S C V
  | .call run pc => { w with client := Function.update w.client i (some (run, pc)) }
  | .finish run outcome =>
    { w with
      client := Function.update w.client i none
      finished := w.finished ++ [(run, outcome)] }

def World.setStore (st : Store) : World ι δ S C V := { w with db := { w.db with store := st } }

/-- A call of `append_to_stream`, recorded when it succeeds. -/
def World.append (author : Option (Run δ C × S)) (now : Timestamp) (a : AppendArgs) :
    World ι δ S C V :=
  { w with
    db := (w.db.append now a).2
    writes := match (w.db.append now a).1 with
      | .ok rows => w.writes ++ [⟨author, rows⟩]
      | .error _ => w.writes }

/-- The pending call of client `i`. -/
def World.call (i : ι) (now : Timestamp) (ids : ℕ → String) (run : Run δ C) :
    Pc S V → World ι δ S C V
  | .readSnapshot => w.next i (readSnapshotCall D streamUuid run w.db.store)
  | .readPage loaded => w.next i (readPageCall D streamUuid run loaded w.db.store)
  | .append loaded filled =>
    let a := appendArgs D.codec streamUuid loaded.version ids filled
    (w.append (some (run, loaded.state)) now a).next i <|
      match (w.db.append now a).1 with
      | .ok rows => afterAppend D run loaded filled rows
      | .error e => afterAppendError run e
  | .recordSnapshot rows state version =>
    (w.setStore (recordSnapshotCall D streamUuid now run state version w.db.store)).next i
      (.finish run (.appended rows))

/-- The pending call of client `i` fails. -/
def World.fail (i : ι) (run : Run δ C) : Pc S V → World ι δ S C V
  | .recordSnapshot rows _ _ => w.next i (.finish run (.appended rows))
  | _ => w.next i (.finish run .threw)

/-- One step. -/
def step : Op ι δ C → Option (World ι δ S C V)
  | .start i definition command retryBudget causationDefault correlationId withSnapshots =>
    match w.client i with
    | none => some { w with
        client := Function.update w.client i (some (⟨w.started, definition, command, retryBudget,
          causationDefault, correlationId, withSnapshots, 1⟩, .readSnapshot))
        started := w.started + 1 }
    | some _ => none
  | .call i now ids =>
    match w.client i with
    | some (run, pc) => some (w.call D streamUuid i now ids run pc)
    | none => none
  | .fail i =>
    match w.client i with
    | some (run, pc) => some (w.fail i run pc)
    | none => none
  | .append now a => some (w.append none now a)
  | .deleteSnapshot sourceUuid =>
    match Instructed.deleteSnapshot (some sourceUuid) w.db.store with
    | .ok st => some (w.setStore st)
    | .error _ => some w
  | .recordSnapshot now sourceUuid sourceType sourceVersion data metadata =>
    if sourceUuid = streamUuid then none
    else match Instructed.recordSnapshot now (some sourceUuid) (some sourceType)
      (some sourceVersion) (some data) metadata w.db.store with
    | .ok st => some (w.setStore st)
    | .error _ => some w

/-- Clients of the deployment `D` and the stream `streamUuid`, on a fresh install. -/
def system : System (World ι δ S C V) (Op ι δ C) where
  init w := w = World.install
  step := step D streamUuid

end System

end Instructed.Aggregate
