import Instructed.Queue.Frame
import Instructed.Store.Read

/-!
# The routing worker

`workers/routing/routing-worker.ts`: the loop of `startRoutingWorker`, cut at its calls of the
database, and `routeOneBatch`, cut at its calls of `routeFn`. Any number of workers serve one
subscription, each under its own worker id, while the rest of the world works on the same database.

* `Phase`, `Worker`: where a worker is, and its flags;
* `Delivery`: a call may be lost on its way, or its reply may be;
* `World.claim`, `World.read`, `World.route`, `World.decide`, `World.commit`, `World.release`: the
  pieces of the loop;
* `step`, `system`: the system. The ghosts `start`, `inspected` and `committed` record the cursor that
  the subscription was created with, the events that `routeFn` was called on, and the events of the
  batches that were committed.
-/

namespace Instructed.Routing

open Sql Relational Transition

/-! ## The definition -/

/-- `RoutingDecision`, or what else may come of a call of `routeFn`. -/
inductive RouteOutcome where
  | ignore
  | partition (key : String)
  /-- The result is neither `"ignore"` nor an object with a string `partitionKey`. -/
  | malformed
  | threw
  deriving DecidableEq, Repr

/-- `StartFrom`. -/
inductive StartFrom where
  | origin
  | current
  | position (n : ℤ)
  deriving DecidableEq, Repr

/-- The text that `claimSubscription` sends. -/
def StartFrom.text : StartFrom → String
  | .origin => "origin"
  | .current => "current"
  | .position n => toString n

/-- `RoutingDefinition`. The workers of a subscription share it, except `startFrom`. -/
structure RoutingDefinition where
  name : String
  stream : String
  routeFn : RecordedEvent → RouteOutcome

/-- `RoutingWorkerOptions`, with the `startFrom` of the worker's definition. -/
structure RoutingWorkerOptions where
  batchSize : ℤ
  leaseSeconds : ℤ
  startFrom : Option StartFrom
  deriving DecidableEq, Repr

/-- `Number(n)` of a `bigint`, as the JSON number that is sent: exact below `2 ^ 53`. -/
structure JsNumber where
  ofBigint : ℕ → ℤ
  exact : ∀ n < 2 ^ 53, ofBigint n = n

/-- The options of `claim_subscription`. -/
def RoutingWorkerOptions.claimOptions (o : RoutingWorkerOptions) : Json :=
  .obj (o.startFrom.map fun s => ("start_from", .str s.text)).toList

/-- `p_decisions`. -/
def decisionsPayload (number : JsNumber) (decisions : List (String × ℕ)) : Json :=
  .arr (decisions.map fun d =>
    .obj [("partition_key", .str d.1), ("event_number", .int (number.ofBigint d.2))])

/-! ## Workers -/

/-- `decisions` and `cursorTo` of `routeOneBatch`, with the events of the batch it has passed. -/
structure Routed where
  seen : List RecordedEvent
  decisions : List (String × ℕ)
  cursorTo : Option ℕ

def Routed.empty : Routed := ⟨[], [], none⟩

/-- After `releaseQuietly`: the next round of the loop, or the end. -/
inductive Next where
  | again
  | stop
  deriving DecidableEq, Repr

/-- Where a worker stands. `lastSeen` is `claimed.lastSeen`. -/
inductive Phase where
  /-- At the head of the loop. -/
  | claim
  | read (lastSeen : ℕ)
  /-- In the `for` loop of `routeOneBatch`. -/
  | route (lastSeen : ℕ) (rest : List RecordedEvent) (routed : Routed)
  /-- Waiting for `routeFn(event)`. -/
  | decide (lastSeen : ℕ) (event : RecordedEvent) (rest : List RecordedEvent) (routed : Routed)
  | commit (lastSeen : ℕ) (routed : Routed) (cursorTo : ℕ)
  | release (next : Next)
  | stopped

structure Worker where
  phase : Phase
  closing : Bool
  aborted : Bool
  holdingLease : Bool
  opts : RoutingWorkerOptions

def Worker.start (opts : RoutingWorkerOptions) : Worker := ⟨.claim, false, false, false, opts⟩

/-- `closing || aborted`. -/
def Worker.ending (wk : Worker) : Bool := wk.closing || wk.aborted

/-! ## Calls -/

/-- The fate of a call. -/
inductive Delivery where
  | answered
  /-- The call is executed, but its caller sees a connection error. -/
  | replyLost
  /-- The call is not executed, and its caller sees a connection error. -/
  | callLost
  deriving DecidableEq, Repr

def Delivery.arrives : Delivery → Bool
  | .callLost => false
  | _ => true

/-- What the caller catches. -/
inductive Failure where
  | raised (e : SqlError)
  | connection
  deriving DecidableEq, Repr

/-- `isLeaseLoss`: `SubscriptionLeaseLost` or `SubscriptionNotFound`. -/
def Failure.isLeaseLoss : Failure → Bool
  | .raised e => e.sqlstate = .IS022 ∨ e.sqlstate = .IS020
  | .connection => false

/-- What the caller sees of the call's result. -/
def Delivery.reply {α : Type} (d : Delivery) (result : Except SqlError α) : Except Failure α :=
  match d with
  | .answered => result.mapError .raised
  | _ => .error .connection

/-! ## The world -/

structure World (κ : Type) where
  queue : Queue.World κ
  workers : String → Option Worker
  start : Option ℕ
  inspected : List ℕ
  committed : List RecordedEvent

section World

variable {κ : Type} [DecidableEq κ]

def World.install : World κ := ⟨Queue.World.install, fun _ => none, none, [], []⟩

def World.store (w : World κ) : Store := w.queue.db.store

def World.setWorker (w : World κ) (id : String) (wk : Option Worker) : World κ :=
  { w with workers := Function.update w.workers id wk }

/-- The database after a call, if the call arrives. -/
def World.call (w : World κ) (d : Delivery) (c : Queue.Call) : World κ :=
  if d.arrives then { w with queue := w.queue.commit (c.run w.store) } else w

variable (D : RoutingDefinition) (number : JsNumber)

/-- The row of the subscription. -/
def RoutingDefinition.row (st : Store) : Option SubscriptionRow :=
  Queue.subscription st D.stream D.name

/-- `client.claimSubscription`, as a call. -/
def RoutingDefinition.claimCall (id : String) (o : RoutingWorkerOptions) (now : Timestamp) :
    Queue.Call :=
  .claimSubscription now (some D.stream) (some D.name) (some id) (some o.leaseSeconds)
    (some o.claimOptions)

/-- Lines 206–243. -/
def World.claim (w : World κ) (id : String) (wk : Worker) (now : Timestamp) (d : Delivery) :
    World κ :=
  if wk.ending then w.setWorker id (some { wk with phase := .release .stop })
  else
    let result := claimSubscription now (some D.stream) (some D.name) (some id)
      (some wk.opts.leaseSeconds) (some wk.opts.claimOptions) w.store
    let w' := w.call d (D.claimCall id wk.opts now)
    let w' := { w' with start := w.start.or ((D.row w'.store).map SubscriptionRow.lastSeen) }
    match d.reply result with
    | .ok (r, _) =>
      match r.result with
      | .claimed => w'.setWorker id
          (some { wk with phase := .read r.lastSeen, holdingLease := true })
      | .alreadyClaimed => w'.setWorker id (some { wk with phase := .claim })
    | .error _ => w'.setWorker id (some { wk with phase := .release .stop })

/-- `readAll` or `readStream`, from the position behind `lastSeen`. -/
def RoutingDefinition.read (lastSeen : ℕ) (o : RoutingWorkerOptions) (st : Store) :
    Except SqlError (List RecordedEvent) :=
  if D.stream = "$all" then readAll (some (lastSeen + 1 : ℕ)) (some o.batchSize) st
  else readStream (some D.stream) (some (lastSeen + 1 : ℕ)) (some o.batchSize) st

/-- Lines 245–278. -/
def World.read (w : World κ) (id : String) (wk : Worker) (lastSeen : ℕ) (d : Delivery) : World κ :=
  if wk.ending then w.setWorker id (some { wk with phase := .release .stop })
  else
    match d.reply (D.read lastSeen wk.opts w.store) with
    | .error _ => w.setWorker id (some { wk with phase := .release .again })
    | .ok [] => w.setWorker id (some { wk with phase := .release .again })
    | .ok (e :: batch) =>
      w.setWorker id (some { wk with phase := .route lastSeen (e :: batch) .empty })

/-- The `for` loop of `routeOneBatch`: its next call of `routeFn`, or its result. -/
def World.route (w : World κ) (id : String) (wk : Worker) (lastSeen : ℕ)
    (rest : List RecordedEvent) (r : Routed) : World κ :=
  match rest with
  | [] =>
    match r.cursorTo with
    | none => w.setWorker id (some { wk with phase := .release .stop })
    | some n => w.setWorker id (some { wk with phase := .commit lastSeen r n })
  | e :: rest =>
    if wk.ending then w.setWorker id (some { wk with phase := .release .stop })
    else
      let w' := { w with inspected := w.inspected ++ [e.eventNumber] }
      w'.setWorker id (some { wk with phase := .decide lastSeen e rest r })

/-- The rest of one iteration, from the result of `routeFn` on. -/
def World.decide (w : World κ) (id : String) (wk : Worker) (lastSeen : ℕ) (e : RecordedEvent)
    (rest : List RecordedEvent) (r : Routed) : World κ :=
  let drop (aborted : Bool) :=
    w.setWorker id (some { wk with phase := .release .stop, aborted := aborted })
  let go (decisions : List (String × ℕ)) :=
    w.setWorker id (some { wk with
      phase := .route lastSeen rest ⟨r.seen ++ [e], decisions, some e.eventNumber⟩ })
  match D.routeFn e with
  | .threw => drop true
  | .malformed => drop (if wk.ending then wk.aborted else true)
  | .ignore => if wk.ending then drop wk.aborted else go r.decisions
  | .partition p => if wk.ending then drop wk.aborted else go (r.decisions ++ [(p, e.eventNumber)])

/-- `client.routeBatch`, as a call. -/
def RoutingDefinition.routeCall (id : String) (r : Routed) (cursorTo : ℕ) : Queue.Call :=
  .routeBatch (some D.stream) (some D.name) (some id) (some cursorTo)
    (some (decisionsPayload number r.decisions))

/-- Lines 293–319. -/
def World.commit (w : World κ) (id : String) (wk : Worker) (r : Routed) (cursorTo : ℕ)
    (d : Delivery) : World κ :=
  let result := routeBatch (some D.stream) (some D.name) (some id) (some cursorTo)
    (some (decisionsPayload number r.decisions)) w.store
  let w' := w.call d (D.routeCall number id r cursorTo)
  let w' := if d.arrives && result.isOk then { w' with committed := w.committed ++ r.seen } else w'
  match d.reply result with
  | .ok _ => w'.setWorker id (some { wk with phase := .release .again })
  | .error f =>
    if f.isLeaseLoss then w'.setWorker id (some { wk with phase := .claim, holdingLease := false })
    else w'.setWorker id (some { wk with phase := .release .again })

/-- `client.releaseSubscription`, as a call. -/
def RoutingDefinition.releaseCall (id : String) : Queue.Call :=
  .releaseSubscription (some D.stream) (some D.name) (some id)

/-- `releaseQuietly`, which ignores the outcome of its call. -/
def World.release (w : World κ) (id : String) (wk : Worker) (next : Next) (d : Delivery) : World κ :=
  let phase := match next with
    | .again => .claim
    | .stop => .stopped
  let w' := if wk.holdingLease then w.call d (D.releaseCall id) else w
  w'.setWorker id (some { wk with phase := phase, holdingLease := false })

/-! ## The system -/

/-- What happens next. -/
inductive Op (κ : Type) where
  /-- Anything else on the database, except routing for this subscription. -/
  | queue (op : Queue.Op κ)
  | start (id : String) (opts : RoutingWorkerOptions)
  /-- `stop()`. -/
  | close (id : String)
  /-- The worker's process ends. -/
  | crash (id : String)
  /-- The worker runs on to the end of its next call. -/
  | advance (id : String) (now : Timestamp) (d : Delivery)

/-- The worker runs on. -/
def World.advance (w : World κ) (id : String) (wk : Worker) (now : Timestamp) (d : Delivery) :
    Option (World κ) :=
  match wk.phase with
  | .claim => some (w.claim D id wk now d)
  | .read lastSeen => some (w.read D id wk lastSeen d)
  | .route lastSeen rest r => some (w.route id wk lastSeen rest r)
  | .decide lastSeen e rest r => some (w.decide D id wk lastSeen e rest r)
  | .commit _ r cursorTo => some (w.commit D number id wk r cursorTo d)
  | .release next => some (w.release D id wk next d)
  | .stopped => none

/-- The operation claims, releases or routes for this subscription. -/
def RoutingDefinition.targets (st : Store) (op : Queue.Op κ) : Bool :=
  match Queue.subscriptionKey st D.stream D.name with
  | some key => op.target st = some key
  | none => false

/-- One step. -/
def step (w : World κ) : Op κ → Option (World κ)
  | .queue op =>
    if D.targets w.store op then none
    else (Queue.step w.queue op).map fun queue => { w with queue := queue }
  | .start id opts =>
    match w.workers id with
    | none => some (w.setWorker id (some (.start opts)))
    | some _ => none
  | .close id =>
    match w.workers id with
    | some wk => some (w.setWorker id (some { wk with closing := true }))
    | none => none
  | .crash id =>
    match w.workers id with
    | some _ => some (w.setWorker id none)
    | none => none
  | .advance id now d =>
    match w.workers id with
    | some wk => w.advance D number id wk now d
    | none => none

/-- The routing workers of one subscription on a fresh install. -/
def system : System (World κ) (Op κ) where
  init w := w = World.install
  step := step D number

end World

/-! ## A run -/

section Example

/-- Numbers that need no rounding. -/
def sampleNumber : JsNumber := ⟨fun n => n, fun _ _ => rfl⟩

/-- Every event goes to the partition of its stream. -/
def sampleDefinition (stream : String) : RoutingDefinition :=
  ⟨"orders", stream, fun e => .partition e.streamUuid⟩

/-- An append of one event with the given last digit of its id. -/
def sampleAppend (stream digit : String) : Op ℕ :=
  .queue (.append 1 ⟨some stream, some "any", none, some (.arr [.obj
    [("event_id", .str ("00000000-0000-0000-0000-00000000000" ++ digit)),
      ("event_type", .str "opened"), ("data", .null)]])⟩)

/-- Worker `b` takes the lease from `a`, and both try to commit the same event. -/
def sampleRun : List (Op ℕ) :=
  let opts : RoutingWorkerOptions := ⟨10, 5, none⟩
  let advance (id : String) (now : Timestamp) : Op ℕ := .advance id now .answered
  [sampleAppend "order-1" "1", .start "a" opts, .start "b" opts] ++
    List.replicate 4 (advance "a" 10) ++ [advance "b" 20] ++ List.replicate 6 (advance "b" 6000000) ++
    [advance "a" 6000001, advance "a" 6000001, sampleAppend "order-2" "2"] ++
    List.replicate 6 (advance "b" 6000002) ++ [.advance "b" 6000003 .replyLost, .crash "b"]

end Example

end Instructed.Routing
