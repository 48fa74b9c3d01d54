import Instructed.Aggregate.RunCommand
import Instructed.Facade.Registry
import Instructed.Processing.Worker

/-!
# The process manager worker

`workers/pm/pm-substrate.ts` and `workers/pm/pm-worker.ts`: the callbacks that `startPmWorker` and
`startPmSubstrate` give to the processing worker.

* `PmDefinition`: what the application supplies; workers of one process manager may run different
  versions of it;
* `Pc`: `loadState`, the user's `handle` and the loop over its commands, cut at their calls;
* `adapter`: the callbacks, with the map of staged states that they share.

A dispatched command runs as `Aggregate.RunCommand` says. Here it is a call that takes its time: what it
appends and the snapshot it records are operations of the environment, and the input says what it comes
to.
-/

namespace Instructed.Pm

open Sql Relational Transition Routing Processing

/-! ## The definition -/

/-- `DispatchedCommand` (pm-worker.ts:92–98); an explicit one carries its stream. -/
inductive DispatchedCommand (C : Type) where
  | lean (command : C)
  | explicit (streamUuid : String) (command : C)
  deriving DecidableEq

/-- `PmDefinition` (pm-worker.ts:144–169) with `PmWorkerOptions` (lines 181–186), for the versions `δ`
    of a process manager. They share the subscription and the names of the snapshots. -/
structure PmDefinition (δ S C : Type) where
  type : String
  stream : String
  streamName : Option (String → String)
  /-- The `routeFn` of the routing workers. -/
  routeFn : RecordedEvent → RouteOutcome
  initialState : δ → S
  apply : δ → S → RecordedEvent → S
  snapshotModuleVersion : δ → Option String
  /-- A `router` that throws has no result. -/
  router : δ → Option (C → Option (String × String))
  /-- The `streamName` of each registered aggregate type. -/
  aggregates : δ → Option (String → Option (String → String))
  /-- `JSON.stringify` of a state, and what is read back. -/
  stateToJson : S → Json
  jsonToState : Json → S

/-- `StagedWork` (pm-substrate.ts:158–162). -/
structure StagedWork (S : Type) where
  sourceUuid : String
  stagedState : S
  complete : Bool

/-- What the callbacks of one worker share. -/
structure Memory (δ S : Type) where
  version : δ
  staged : String → Option (StagedWork S)

/-- Where `handle` stands. -/
inductive Pc (S C : Type) where
  | readSnapshot
  | rebuild
  /-- In the user's `handle`. -/
  | handle (stagedState : S)
  /-- In `runCommandWithSnapshots` for `command`. -/
  | dispatch (stagedState : S) (complete : Bool) (command : DispatchedCommand C)
      (rest : List (DispatchedCommand C))

/-- What the user's code and the dispatched commands do. -/
structure PmInput (C : Type) where
  /-- The commands and the `complete` flag that the user's `handle` returns, or that it throws. -/
  result : Option (List (DispatchedCommand C) × Bool)
  /-- What `runCommandWithSnapshots` comes to. -/
  outcome : Aggregate.Outcome

/-- What a handler did. -/
inductive PmAct (S C : Type) where
  /-- The user's `handle` was called on the state and returned. -/
  | handled (stagedState : S) (commands : List (DispatchedCommand C)) (complete : Bool)
  | dispatch (command : DispatchedCommand C) (streamUuid : String)
  | dispatched (command : DispatchedCommand C) (outcome : Aggregate.Outcome)

section Definition

variable {δ S C : Type} (P : PmDefinition δ S C)

/-- The definition of the routing workers. -/
def PmDefinition.routing : RoutingDefinition := ⟨P.type, P.stream, P.routeFn⟩

/-- `sourceUuidOf` (pm-substrate.ts:238). -/
def PmDefinition.sourceUuid (partitionKey : String) : String :=
  (P.streamName.getD (prefixType P.type)) partitionKey

/-- `resolveDispatch` (pm-worker.ts:274–306): the stream that the command goes to. -/
def PmDefinition.resolveDispatch (v : δ) : DispatchedCommand C → Option String
  | .explicit streamUuid _ => some streamUuid
  | .lean command => do
    let router ← P.router v
    let aggregates ← P.aggregates v
    let (aggregateType, aggregateId) ← router command
    let streamName ← aggregates aggregateType
    return streamName aggregateId

/-- The key of the map of staged states (pm-substrate.ts:190–192). -/
def stagedKey (item : Item) : String := item.partitionKey ++ ":" ++ toString item.eventNumber

/-! ## `handle` -/

/-- The command loop (pm-worker.ts:245–261), and the end of `handle`, which stages the state
    (pm-substrate.ts:254–258). -/
def dispatchNext (m : Memory δ S) (item : Item) (stagedState : S)
    (complete : Bool) (acts : List (PmAct S C)) :
    List (DispatchedCommand C) → HandlerStep (Pc S C) (Memory δ S) (PmAct S C)
  | [] =>
    let entry : StagedWork S := ⟨P.sourceUuid item.partitionKey, stagedState, complete⟩
    let staged := Function.update m.staged (stagedKey item) (some entry)
    ⟨{ m with staged := staged }, .returned, acts⟩
  | command :: rest =>
    match P.resolveDispatch m.version command with
    | none => ⟨m, .threw, acts⟩
    | some streamUuid => ⟨m, .running (.dispatch stagedState complete command rest),
        acts ++ [.dispatch command streamUuid]⟩

/-- The snapshot that `loadState` reads can be used (pm-substrate.ts:214–217). -/
def PmDefinition.matchesSnapshot (v : δ) (snap : SnapshotRow) : Bool :=
  match snap.data with
  | .null => false
  | _ => decide (Aggregate.readVersion snap.metadata = P.snapshotModuleVersion v)

/-- What a dispatched command may come to: it throws, it appends nothing, or its events are stored. -/
def outcomeAllowed (st : Store) : Aggregate.Outcome → Bool
  | .appended rows =>
    decide (rows ≠ []) && rows.all fun row => row ∈ st.log.map RecordedEvent.toAppendedRow
  | .noOp | .threw => true

/-- `handle` of the substrate (pm-substrate.ts:194–259), with `handle` of `startPmWorker` in it
    (pm-worker.ts:222–262). -/
def handle (m : Memory δ S) (item : Item) (event : RecordedEvent) (pc : Pc S C)
    (x : Input (PmInput C)) (st : Store) :
    HandlerStep (Pc S C) (Memory δ S) (PmAct S C) :=
  let v := m.version
  let running (pc : Pc S C) : HandlerStep (Pc S C) (Memory δ S) (PmAct S C) := ⟨m, .running pc, []⟩
  let threw : HandlerStep (Pc S C) (Memory δ S) (PmAct S C) := ⟨m, .threw, []⟩
  match pc with
  | .readSnapshot =>
    match x.delivery.reply (readSnapshot (some (P.sourceUuid item.partitionKey)) st) with
    | .ok snap =>
      if P.matchesSnapshot v snap then
        running (.handle (P.apply v (P.jsonToState snap.data) event))
      else running .rebuild
    | .error (.raised e) => if e.sqlstate = .IS010 then running .rebuild else threw
    | .error .connection => threw
  | .rebuild =>
    match x.delivery.reply (listPmRebuildEvents (some P.stream) (some P.type)
        (some item.partitionKey) (some item.eventNumber) st) with
    | .ok events => running (.handle (P.apply v (events.foldl (P.apply v) (P.initialState v)) event))
    | .error _ => threw
  | .handle stagedState =>
    match x.handler.result with
    | none => threw
    | some (commands, complete) =>
      dispatchNext P m item stagedState complete [.handled stagedState commands complete] commands
  | .dispatch stagedState complete command rest =>
    if outcomeAllowed st x.handler.outcome then
      match x.handler.outcome with
      | .threw => { threw with acts := [.dispatched command .threw] }
      | outcome =>
        dispatchNext P m item stagedState complete [.dispatched command outcome] rest
    else running pc

/-! ## `complete` -/

/-- `client.completePmInstance` or `client.completeWorkItemPm`, as a call (pm-substrate.ts:271–297). -/
def completeCall (id : String) (v : δ) (item : Item) (event : RecordedEvent) (entry : StagedWork S)
    (now : Timestamp) : Queue.Call :=
  if entry.complete then
    .completePmInstance (some P.stream) (some P.type) (some item.partitionKey)
      (some entry.sourceUuid)
  else .completePm now (itemArgs P.routing id item)
    ⟨some entry.sourceUuid, some P.type, some event.eventNumber,
      some (P.stateToJson entry.stagedState),
      Aggregate.stampVersion (P.snapshotModuleVersion v)⟩

/-- `complete` of the substrate (pm-substrate.ts:260–298). -/
def complete (id : String) (m : Memory δ S) (item : Item) (event : RecordedEvent) :
    Memory δ S × Option (Timestamp → Queue.Call) :=
  match m.staged (stagedKey item) with
  | none => (m, none)
  | some entry =>
    let staged := Function.update m.staged (stagedKey item) none
    ({ m with staged := staged }, some (completeCall P id m.version item event entry))

variable (keys : String → Bool)

/-- The callbacks of `startPmWorker` (pm-worker.ts:203–266). `keys` are the names of the process
    manager's snapshots. -/
def adapter : Adapter (Pc S C) (Memory δ S) (PmInput C) (PmAct S C) where
  start _ _ _ := .readSnapshot
  handle := handle P
  complete := complete P
  owns := keys

end Definition

/-! ## A process manager -/

section Example

/-- A process manager that counts the events of each stream. -/
def samplePm : PmDefinition Unit ℕ String where
  type := "fulfilment"
  stream := "$all"
  streamName := none
  routeFn e := .partition e.streamUuid
  initialState _ := 0
  apply _ n _ := n + 1
  snapshotModuleVersion _ := none
  router _ := none
  aggregates _ := none
  stateToJson n := .int n
  jsonToState
    | .num n => n.unscaled.toNat
    | _ => 0

/-- The names of its snapshots. -/
def sampleKeys : String → Bool := fun sourceUuid => "fulfilment-".toList.isPrefixOf sourceUuid.toList

abbrev SampleOp (C : Type) := Processing.Op (Memory Unit ℕ) (PmInput C)

/-- An append of one event with the given last digit of its id. -/
def sampleEvent {C : Type} (stream digit : String) : SampleOp C :=
  .routing (.queue (.append 1 ⟨some stream, some "any", none, some (.arr [.obj
    [("event_id", .str ("00000000-0000-0000-0000-00000000000" ++ digit)),
      ("event_type", .str "opened"), ("data", .null)]])⟩))

/-- The routing worker `r` routes one event. -/
def sampleRoute {C : Type} : List (SampleOp C) :=
  List.replicate 7 (.routing (.advance "r" 10 .answered))

/-- An event is appended and routed. -/
def sampleRouted {C : Type} : List (SampleOp C) :=
  [sampleEvent "order-1" "1", .routing (.start "r" ⟨10, 5, none⟩)] ++ sampleRoute

/-- What the user's code does when it is not asked. -/
def sampleIdle {C : Type} : PmInput C := ⟨none, .noOp⟩

/-- The worker `id` runs on. -/
def sampleAdvance {C : Type} (id : String) (now : Timestamp) (handler : PmInput C) : SampleOp C :=
  .advance id ⟨now, .answered, fun _ => false, .retryIn, handler⟩

/-- The worker `id` starts, claims a work item and reads its event. -/
def sampleStart {C : Type} (id : String) : List (SampleOp C) :=
  .start id 5 ⟨(), fun _ => none⟩ :: List.replicate 3 (sampleAdvance id 20 sampleIdle)

/-- An attempt of the worker `id`, whose state is rebuilt, up to the first dispatch. -/
def sampleHandled {C : Type} (id : String) (now : Timestamp)
    (result : Option (List (DispatchedCommand C) × Bool)) : List (SampleOp C) :=
  List.replicate 3 (sampleAdvance id now sampleIdle) ++ [sampleAdvance id now ⟨result, .noOp⟩]

end Example

end Instructed.Pm
