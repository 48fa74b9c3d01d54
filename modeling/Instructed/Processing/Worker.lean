import Instructed.Routing.Worker
import Instructed.Store.Snapshots

/-!
# The processing worker

`workers/processing/processing-worker.ts`: `startProcessingWorker(client, { handle, complete, .. })`,
cut at its calls of the database. Any number of workers compete for the work items of one subscription,
each under its own worker id, while the routing workers of the subscription go on.

* `Adapter`: what the kinds of subscription supply, `handle` and `complete`;
* `Phase`, `Beat`, `Worker`: where the loop and the heartbeat of a worker stand, and its flags;
* `World.claim`, `World.runClaim`, `World.load`, `World.handle`, `World.complete`, `World.settle`: the
  pieces of the loop, with `World.decide` for the error policy;
* `World.beat`: the heartbeat, which runs beside the handler;
* `step`, `system`: the system. The ghosts `acts` and `returned` record what a worker did, and the events
  on which a handler returned.
-/

namespace Instructed.Routing

open Relational

/-- Another state of the table of snapshots. -/
def World.setSnapshots {κ : Type} (w : World κ) (snapshots : Table SnapshotRow.sourceUuid) :
    World κ :=
  { w with queue := { w.queue with db := { w.queue.db with
      store := { w.store with snapshots := snapshots } } } }

end Instructed.Routing

namespace Instructed.Processing

open Sql Relational Transition Routing

/-- The claimed work item that `processOneItem` is called with. -/
structure Item where
  partitionKey : String
  eventNumber : ℤ
  deriving DecidableEq, Repr

/-- What has become of a call of `handle`. -/
inductive Ran (H : Type) where
  | running (h : H)
  | returned
  | threw

/-- What `errorPolicy` decides, or that it throws. -/
inductive Policy where
  | retryIn
  | stop
  | threw
  deriving DecidableEq, Repr

/-- What the environment chooses for a step: the clock, the fate of the call, the rows that other
    transactions have locked, the error policy's decision, and what else the handler asks for. -/
structure Input (I : Type) where
  now : Timestamp
  delivery : Delivery
  locked : WorkItemRow → Bool
  policy : Policy
  handler : I

/-- What a piece of a handler leaves behind. -/
structure HandlerStep (H M A : Type) where
  memory : M
  ran : Ran H
  acts : List A

/-- The callbacks of `startProcessingWorker`. Between two of its calls a handler holds an `H`, and the
    callbacks of one worker share an `M`. -/
structure Adapter (H M I A : Type) where
  start : M → Item → RecordedEvent → H
  /-- `handle` runs on to the end of its next call. -/
  handle : M → Item → RecordedEvent → H → Input I → Store → HandlerStep H M A
  /-- The call that `complete` makes, if it does not throw before. -/
  complete : String → M → Item → RecordedEvent → M × Option (Timestamp → Queue.Call)
  /-- The snapshots that only these callbacks write. -/
  owns : String → Bool

/-! ## Workers -/

/-- Where the loop of a worker stands. -/
inductive Phase (H : Type) where
  /-- At the head of the outer loop. -/
  | claim
  /-- In `claim_work_item`, whose candidate query has taken its snapshot. -/
  | claiming
  | load (item : Item)
  /-- At the head of the loop of `runHandlerWithPolicy`. -/
  | attempt (item : Item) (event : RecordedEvent) (n : ℕ)
  | handle (item : Item) (event : RecordedEvent) (n : ℕ) (h : H)
  /-- The handler threw. -/
  | policy (item : Item) (event : RecordedEvent) (n : ℕ)
  | complete (item : Item) (event : RecordedEvent) (call : Timestamp → Queue.Call)
  /-- In the `finally` of `processOneItem`, waiting for the heartbeat. -/
  | settle (item : Item)
  | stopped

/-- Where `heartbeatForItem` stands. -/
inductive Beat where
  | off
  | sleeping
  | calling
  /-- In the short sleep after an error. -/
  | pausing
  | retrying
  deriving DecidableEq, Repr

/-- What a worker did. -/
inductive Act (A : Type) where
  /-- `extend_work_item_claim` returned IS030 to it. -/
  | lost (item : Item)
  | handler (item : Item) (n : ℕ) (a : A)
  /-- It called `complete`, which made this call. -/
  | completing (item : Item) (call : Timestamp → Queue.Call)

structure Worker (H M A : Type) where
  phase : Phase H
  beat : Beat
  closing : Bool
  aborted : Bool
  leaseSeconds : ℤ
  memory : M
  acts : List (Act A)

/-- The item at hand. -/
def Phase.item? {H : Type} : Phase H → Option Item
  | .load item | .attempt item _ _ | .handle item _ _ _ | .policy item _ _ | .complete item _ _
  | .settle item => some item
  | .claim | .claiming | .stopped => none

section Worker

variable {H M I A : Type}

def Worker.start (leaseSeconds : ℤ) (memory : M) : Worker H M A :=
  ⟨.claim, .off, false, false, leaseSeconds, memory, []⟩

/-- `closing || aborted`. -/
def Worker.ending (wk : Worker H M A) : Bool := wk.closing || wk.aborted

/-- `markAborted`. -/
def Worker.markAborted (wk : Worker H M A) : Worker H M A := { wk with aborted := true }

end Worker

/-! ## The world -/

structure World (H M A : Type) where
  routing : Routing.World String
  workers : String → Option (Worker H M A)
  returned : List (Item × RecordedEvent)

section World

variable {H M I A : Type}

def World.install : World H M A := ⟨Routing.World.install, fun _ => none, []⟩

def World.store (w : World H M A) : Store := w.routing.store

def World.setWorker (w : World H M A) (id : String) (wk : Option (Worker H M A)) : World H M A :=
  { w with workers := Function.update w.workers id wk }

/-- A step of the work queue. -/
def World.queueStep (w : World H M A) (op : Queue.Op String) : Option (World H M A) :=
  (Queue.step w.routing.queue op).map fun queue =>
    { w with routing := { w.routing with queue := queue } }

variable (D : RoutingDefinition) (adapter : Adapter H M I A)

/-- The shared parameters of the calls on the item. -/
def itemArgs (id : String) (item : Item) : ItemArgs :=
  ⟨some D.stream, some D.name, some id, some item.partitionKey, some item.eventNumber⟩

/-- The head of the loop (lines 468–472). -/
def World.claim (w : World H M A) (id : String) (wk : Worker H M A) (d : Delivery) :
    Option (World H M A) :=
  if wk.ending then some (w.setWorker id (some { wk with phase := .stopped }))
  else if d.arrives then
    (w.queueStep (.openClaim id)).map fun w' => w'.setWorker id (some { wk with phase := .claiming })
  else some (w.setWorker id (some { wk with phase := .claim }))

/-- The rest of `client.claimWorkItem` (lines 472–506). An error is followed by the next round. -/
def World.runClaim (w : World H M A) (id : String) (wk : Worker H M A) (x : Input I) :
    Option (World H M A) :=
  (w.routing.queue.snapshots id).bind fun snapshot =>
    let result := claimWorkItem x.now snapshot x.locked (some D.stream) (some D.name) (some id)
      (some wk.leaseSeconds) w.store
    let phase : Phase H := match x.delivery.reply result with
      | .ok (some it, _) => .load ⟨it.partitionKey, it.eventNumber⟩
      | .ok (none, _) | .error _ => .claim
    (w.queueStep (.claimItem id x.now x.locked (some D.stream) (some D.name) (some id)
      (some wk.leaseSeconds))).map fun w' => w'.setWorker id (some { wk with phase := phase })

/-- The read of the payload, and the start of the heartbeat (lines 405–437). -/
def World.load (w : World H M A) (id : String) (wk : Worker H M A) (item : Item) (d : Delivery) :
    World H M A :=
  match d.reply (readAll (some item.eventNumber) (some 1) w.store) with
  | .ok (e :: _) =>
    if (e.eventNumber : ℤ) = item.eventNumber then
      w.setWorker id (some { wk with phase := .attempt item e 1, beat := .sleeping })
    else w.setWorker id (some { wk with phase := .claim })
  | _ => w.setWorker id (some { wk with phase := .claim })

/-- The head of the loop of `runHandlerWithPolicy`. -/
def World.attempt (w : World H M A) (id : String) (wk : Worker H M A) (item : Item)
    (event : RecordedEvent) (n : ℕ) : World H M A :=
  if wk.ending then w.setWorker id (some { wk with phase := .settle item })
  else w.setWorker id
    (some { wk with phase := .handle item event n (adapter.start wk.memory item event) })

/-- The handler runs on. When it returns, `complete` is called at once (lines 356–458). -/
def World.handle (w : World H M A) (id : String) (wk : Worker H M A) (item : Item)
    (event : RecordedEvent) (n : ℕ) (h : H) (x : Input I) : World H M A :=
  let r := adapter.handle wk.memory item event h x w.store
  let wk' := { wk with memory := r.memory, acts := wk.acts ++ r.acts.map (Act.handler item n) }
  match r.ran with
  | .running h' => w.setWorker id (some { wk' with phase := .handle item event n h' })
  | .threw => w.setWorker id (some { wk' with phase := .policy item event n })
  | .returned =>
    let w' := { w with returned := w.returned ++ [(item, event)] }
    let c := adapter.complete id r.memory item event
    match c.2 with
    | some call => w'.setWorker id (some { wk' with
        phase := .complete item event call
        memory := c.1
        acts := wk'.acts ++ [Act.completing item call] })
    | none => w'.setWorker id
        (some { wk'.markAborted with phase := .settle item, memory := c.1 })

/-- The decision of the error policy (lines 366–401). -/
def World.decide (w : World H M A) (id : String) (wk : Worker H M A) (item : Item)
    (event : RecordedEvent) (n : ℕ) : Policy → World H M A
  | .retryIn => w.setWorker id (some { wk with phase := .attempt item event (n + 1) })
  | .stop | .threw => w.setWorker id (some { wk.markAborted with phase := .settle item })

/-- The call of `complete` is executed (lines 438–461). -/
def World.complete (w : World H M A) (id : String) (wk : Worker H M A) (item : Item)
    (call : Timestamp → Queue.Call) (x : Input I) : World H M A :=
  let c := call x.now
  let w' := { w with routing := w.routing.call x.delivery c }
  match x.delivery.reply (c.run w.store) with
  | .ok _ => w'.setWorker id (some { wk with phase := .settle item })
  | .error _ => w'.setWorker id (some { wk.markAborted with phase := .settle item })

/-- The loop goes on when the heartbeat has ended (lines 462–465). -/
def World.settle (w : World H M A) (id : String) (wk : Worker H M A) : Option (World H M A) :=
  if wk.beat = .off then some (w.setWorker id (some { wk with phase := .claim })) else none

/-- The worker runs on to the end of its next call. -/
def World.advance (w : World H M A) (id : String) (wk : Worker H M A) (x : Input I) :
    Option (World H M A) :=
  match wk.phase with
  | .claim => w.claim id wk x.delivery
  | .claiming => w.runClaim D id wk x
  | .load item => some (w.load id wk item x.delivery)
  | .attempt item event n => some (w.attempt adapter id wk item event n)
  | .handle item event n h => some (w.handle adapter id wk item event n h x)
  | .policy item event n => some (w.decide id wk item event n x.policy)
  | .complete item _ call => some (w.complete id wk item call x)
  | .settle _ => w.settle id wk
  | .stopped => none

/-! ### The heartbeat -/

/-- `closing || aborted || itemSignal.aborted`. -/
def Worker.beatEnding (wk : Worker H M A) : Bool :=
  wk.ending || match wk.phase with
    | .settle _ => true
    | _ => false

/-- `client.extendWorkItemClaim`, as a call. -/
def extendCall (id : String) (item : Item) (leaseSeconds : ℤ) (now : Timestamp) : Queue.Call :=
  .extend now (itemArgs D id item) (some leaseSeconds)

/-- The error is `WorkItemLeaseLost`. -/
def isLost : Failure → Bool
  | .raised e => e.sqlstate = .IS030
  | .connection => false

/-- One call of the heartbeat; `again` is where it stands after another error. -/
def World.extend (w : World H M A) (id : String) (wk : Worker H M A) (item : Item) (now : Timestamp)
    (d : Delivery) (again : Worker H M A) : World H M A :=
  let c := extendCall D id item wk.leaseSeconds now
  let w' := { w with routing := w.routing.call d c }
  match d.reply (c.run w.store) with
  | .ok _ => w'.setWorker id (some { wk with beat := .sleeping })
  | .error f =>
    if isLost f then w'.setWorker id
      (some { wk.markAborted with beat := .off, acts := wk.acts ++ [Act.lost item] })
    else w'.setWorker id (some again)

/-- The heartbeat runs on to the end of its next call or sleep. -/
def World.beat (w : World H M A) (id : String) (wk : Worker H M A) (now : Timestamp) (d : Delivery) :
    Option (World H M A) :=
  wk.phase.item?.bind fun item =>
    match wk.beat with
    | .off => none
    | .sleeping => some (w.setWorker id
        (some { wk with beat := if wk.beatEnding then .off else .calling }))
    | .calling => some (w.extend D id wk item now d { wk with beat := .pausing })
    | .pausing => some (w.setWorker id
        (some { wk with beat := if wk.beatEnding then .off else .retrying }))
    | .retrying => some (w.extend D id wk item now d { wk.markAborted with beat := .off })

/-! ## The system -/

/-- What happens next. -/
inductive Op (M I : Type) where
  /-- An append, or a step of a routing worker of the subscription. -/
  | routing (op : Routing.Op String)
  | deleteSnapshot (sourceUuid : String)
  /-- Anyone else records a snapshot, under a key of his own. -/
  | recordSnapshot (now : Timestamp) (sourceUuid sourceType : String) (sourceVersion : ℤ)
      (data : Json) (metadata : Option Json)
  | start (id : String) (leaseSeconds : ℤ) (memory : M)
  /-- `stop()`. -/
  | stop (id : String)
  /-- The worker's process ends. -/
  | crash (id : String)
  | advance (id : String) (x : Input I)
  | beat (id : String) (now : Timestamp) (d : Delivery)

/-- The operation is an append or a step of a routing worker. -/
def admits : Routing.Op String → Bool
  | .queue (.append ..) | .start .. | .close _ | .crash _ | .advance .. => true
  | .queue _ => false

/-- The world without the worker, whose open claim, if any, is rolled back. -/
def World.crash (w : World H M A) (id : String) : World H M A :=
  { w with
    routing := { w.routing with queue := { w.routing.queue with
      snapshots := Function.update w.routing.queue.snapshots id none } }
    workers := Function.update w.workers id none }

variable (number : JsNumber)

/-- One step. -/
def step (w : World H M A) : Op M I → Option (World H M A)
  | .routing op =>
    if admits op then (Routing.step D number w.routing op).map fun routing =>
      { w with routing := routing }
    else none
  | .deleteSnapshot sourceUuid =>
    match Instructed.deleteSnapshot (some sourceUuid) w.store with
    | .ok st => some { w with routing := w.routing.setSnapshots st.snapshots }
    | .error _ => some w
  | .recordSnapshot now sourceUuid sourceType sourceVersion data metadata =>
    if adapter.owns sourceUuid then none
    else match Instructed.recordSnapshot now (some sourceUuid) (some sourceType)
      (some sourceVersion) (some data) metadata w.store with
    | .ok st => some { w with routing := w.routing.setSnapshots st.snapshots }
    | .error _ => some w
  | .start id leaseSeconds memory =>
    match w.workers id with
    | none => some (w.setWorker id (some (.start leaseSeconds memory)))
    | some _ => none
  | .stop id => (w.workers id).map fun wk => w.setWorker id (some { wk with closing := true })
  | .crash id => (w.workers id).map fun _ => w.crash id
  | .advance id x => (w.workers id).bind fun wk => w.advance D adapter id wk x
  | .beat id now d => (w.workers id).bind fun wk => w.beat D id wk now d

/-- The workers of one subscription on a fresh install. -/
def system : System (World H M A) (Op M I) where
  init w := w = World.install
  step := step D adapter number

end World

end Instructed.Processing
