import Instructed.Pm.Dispatch
import Instructed.Processing.Steps

/-!
# A worker that lost its item

The heartbeat learns from IS030 that another worker has taken the item over, and aborts the worker's
signal. The loop over the attempts looks at the signal, but the user's `handle`, the loop over its
commands, the calls of a command and the call of `complete` come without a look at it.

Here the workers of the work queue dispatch their commands call by call, so that the heartbeat may learn
of the loss between any two calls.

* `HandlePc`, `handle`, `adapter`: the callbacks of `startPmWorker`, with `runCommandWithSnapshots` cut at
  its calls as in `Execution`;
* `Op`, `step`, `system`: the workers, and the calls of the commands that they dispatch;
* `startsFor`, `AfterLoss`, `Quiet`: no dispatch, no append and no call of `complete` is started for an
  item that is known to be lost;
* `handleStops`, `callStops`, `Stops`: a handler that runs on after the loss comes to an end before that;
* `call_starts`, `newActs_starts`: what a call, and what one piece of `handle` starts;
* `quiet_iff_stops`: **nothing is started after the loss, as long as and only as long as `Stops` holds**;
* `not_quiet_takeover`: a worker dispatches a command, and appends, for an item that it knows to be lost.
-/

namespace Instructed.LeaseLoss

open Sql Relational Transition Routing Processing History
open Aggregate (Codec ExecutedCommand Loaded Moment NewEvent)
open Dispatch (DispatchedCommand Execution PmWorkerOptions Progress dispatchOptions)

variable {δ T K S C V : Type}

/-! ## The callbacks -/

/-- Where `handle` stands. -/
inductive HandlePc (T S C V : Type) where
  | readSnapshot
  | rebuild
  /-- In the user's `handle`. -/
  | handle (stagedState : T)
  /-- In `runCommandWithSnapshots`, with the commands that are left. -/
  | dispatch (stagedState : T) (complete : Bool) (rest : List (DispatchedCommand S C V))
      (execution : Execution S C V)

/-- What the user's `handle` returns, or that it throws; the value of `crypto.randomUUID()`; and what
    the next call of the running command comes to. -/
structure HandleInput (S C V : Type) where
  result : Option (List (DispatchedCommand S C V) × Bool)
  uuid : String
  progress : Option (Progress S C V)

/-- What a handler starts. -/
inductive HandleAct (C V : Type) where
  | dispatch (streamUuid : String) (command : C)
  | append (streamUuid : String) (events : List (NewEvent V))

/-- The call that a command goes on to, if it is an append. -/
def appendActs (x : Execution S C V) : List (HandleAct C V) :=
  match x.pc with
  | .append _ filled => [.append x.streamUuid filled]
  | _ => []

section Definition

variable (P : Pm.PmDefinition δ T K) (opts : δ → PmWorkerOptions S C V)

/-- The command loop (pm-worker.ts:245–261), and the end of `handle`, which stages the state
    (pm-substrate.ts:254–258). -/
def dispatchNext (m : Pm.Memory δ T) (item : Item) (event : RecordedEvent) (stagedState : T)
    (complete : Bool) (uuid : String) : List (DispatchedCommand S C V) →
    HandlerStep (HandlePc T S C V) (Pm.Memory δ T) (HandleAct C V)
  | [] =>
    let entry : Pm.StagedWork T := ⟨P.sourceUuid item.partitionKey, stagedState, complete⟩
    let staged := Function.update m.staged (Pm.stagedKey item) (some entry)
    ⟨{ m with staged := staged }, .returned, []⟩
  | command :: rest =>
    match (opts m.version).resolveDispatch command with
    | none => ⟨m, .threw, []⟩
    | some (d, streamUuid, command) =>
      let execution := Execution.start d streamUuid command
        (dispatchOptions (Client.recorded event)) uuid
      ⟨m, .running (.dispatch stagedState complete rest execution),
        [.dispatch streamUuid command]⟩

/-- The running command goes on to its next call, or has ended. -/
def goOn (m : Pm.Memory δ T) (item : Item) (event : RecordedEvent) (stagedState : T)
    (complete : Bool) (uuid : String) (rest : List (DispatchedCommand S C V)) :
    Progress S C V → HandlerStep (HandlePc T S C V) (Pm.Memory δ T) (HandleAct C V)
  | .call x => ⟨m, .running (.dispatch stagedState complete rest x), appendActs x⟩
  | .returned => dispatchNext P opts m item event stagedState complete uuid rest
  | .threw => ⟨m, .threw, []⟩

/-- `handle` of the substrate (pm-substrate.ts:194–259), with `handle` of `startPmWorker` in it
    (pm-worker.ts:222–262). While a command runs it waits for the command's next call. -/
def handle (m : Pm.Memory δ T) (item : Item) (event : RecordedEvent) (pc : HandlePc T S C V)
    (x : Input (HandleInput S C V)) (st : Store) :
    HandlerStep (HandlePc T S C V) (Pm.Memory δ T) (HandleAct C V) :=
  let v := m.version
  match pc with
  | .readSnapshot =>
    match x.delivery.reply (readSnapshot (some (P.sourceUuid item.partitionKey)) st) with
    | .ok snap =>
      if P.matchesSnapshot v snap then
        ⟨m, .running (.handle (P.apply v (P.jsonToState snap.data) event)), []⟩
      else ⟨m, .running .rebuild, []⟩
    | .error (.raised e) =>
      if e.sqlstate = .IS010 then ⟨m, .running .rebuild, []⟩ else ⟨m, .threw, []⟩
    | .error .connection => ⟨m, .threw, []⟩
  | .rebuild =>
    match x.delivery.reply (listPmRebuildEvents (some P.stream) (some P.type)
        (some item.partitionKey) (some item.eventNumber) st) with
    | .ok events =>
      ⟨m, .running (.handle (P.apply v (events.foldl (P.apply v) (P.initialState v)) event)), []⟩
    | .error _ => ⟨m, .threw, []⟩
  | .handle stagedState =>
    match x.handler.result with
    | none => ⟨m, .threw, []⟩
    | some (commands, complete) =>
      dispatchNext P opts m item event stagedState complete x.handler.uuid commands
  | .dispatch stagedState complete rest execution =>
    match x.handler.progress with
    | none => ⟨m, .running (.dispatch stagedState complete rest execution), []⟩
    | some progress => goOn P opts m item event stagedState complete x.handler.uuid rest progress

variable (keys : String → Bool)

/-- The callbacks of `startPmWorker`. `keys` are the names of the process manager's snapshots. -/
def adapter : Adapter (HandlePc T S C V) (Pm.Memory δ T) (HandleInput S C V) (HandleAct C V) where
  start _ _ _ := .readSnapshot
  handle := handle P opts
  complete := Pm.complete P
  owns := keys

end Definition

/-! ## The system -/

/-- The workers of the process manager, on their work queue. -/
abbrev World (δ T S C V : Type) :=
  Processing.World (HandlePc T S C V) (Pm.Memory δ T) (HandleAct C V)

/-- What happens next. -/
inductive Op (δ T S C V : Type) where
  | worker (op : Processing.Op (Pm.Memory δ T) (HandleInput S C V))
  /-- The next call of the command that a worker dispatches. -/
  | call (id : String) (now : Timestamp) (ids : ℕ → String) (d : Delivery) (uuid : String)

/-- The step tells what a call comes to. Only the call itself does. -/
def tellsProgress : Processing.Op (Pm.Memory δ T) (HandleInput S C V) → Bool
  | .advance _ x => x.handler.progress.isSome
  | _ => false

section System

variable (codec : Codec S V) (P : Pm.PmDefinition δ T K) (opts : δ → PmWorkerOptions S C V)
  (keys : String → Bool) (number : JsNumber)

def setDb (w : World δ T S C V) (db : Db) : World δ T S C V :=
  { w with routing := { w.routing with queue := { w.routing.queue with db := db } } }

/-- The running command's next call; then the worker runs on. -/
def call (w : World δ T S C V) (id : String) (wk : Worker (HandlePc T S C V) (Pm.Memory δ T)
    (HandleAct C V)) (item : Item) (event : RecordedEvent) (n : ℕ) (pc : HandlePc T S C V)
    (x : Execution S C V) (now : Timestamp) (ids : ℕ → String) (d : Delivery) (uuid : String) :
    World δ T S C V :=
  let r := x.call codec ⟨w.routing.queue.db, now, ids⟩ d
  (setDb w r.2).handle (adapter P opts keys) id wk item event n pc
    ⟨now, d, fun _ => false, .stop, ⟨none, uuid, some r.1⟩⟩

/-- One step. -/
def step (w : World δ T S C V) : Op δ T S C V → Option (World δ T S C V)
  | .worker op =>
    if tellsProgress op then none
    else Processing.step P.routing (adapter P opts keys) number w op
  | .call id now ids d uuid => (w.workers id).bind fun wk =>
    match wk.phase with
    | .handle item event n (.dispatch stagedState complete rest x) =>
      some (call codec P opts keys w id wk item event n (.dispatch stagedState complete rest x) x now
        ids d uuid)
    | _ => none

/-- The workers on a fresh install. -/
def system : System (World δ T S C V) (Op δ T S C V) where
  init w := w = Processing.World.install
  step := step codec P opts keys number

end System

/-! ## After the loss -/

/-- The worker knows that it lost the item. -/
def lostItem (item : Item) (acts : List (Act (HandleAct C V))) : Bool :=
  acts.any fun
    | .lost item' => decide (item' = item)
    | _ => false

/-- The act starts a dispatch, an append or a call of `complete` for the item. -/
def startsFor (item : Item) : Act (HandleAct C V) → Bool
  | .handler item' _ (.dispatch ..) => decide (item' = item)
  | .handler item' _ (.append ..) => decide (item' = item)
  | .completing item' _ => decide (item' = item)
  | .lost _ => false

/-- The act starts nothing for an item that was known to be lost. -/
def AfterLoss (before : List (Act (HandleAct C V))) (a : Act (HandleAct C V)) : Prop :=
  ∀ item, startsFor item a = true → lostItem item before = false

/-- No worker ever started anything for an item that it knew to be lost. -/
def Quiet (w : World δ T S C V) : Prop :=
  ∀ id wk, w.workers id = some wk → Justified AfterLoss wk.acts

section Stops

variable (codec : Codec S V) (opts : δ → PmWorkerOptions S C V)

/-- The command loop ends in a throw: there is a next command, and it cannot be resolved. -/
def unresolved (v : δ) : List (DispatchedCommand S C V) → Bool
  | [] => false
  | command :: _ => ((opts v).resolveDispatch command).isNone

/-- The user's `handle` throws, or its first command cannot be resolved. -/
def handleStops (v : δ) (result : Option (List (DispatchedCommand S C V) × Bool)) :
    HandlePc T S C V → Bool
  | .handle _ =>
    match result with
    | none => true
    | some (commands, _) => unresolved opts v commands
  | _ => true

/-- The aggregate as `loadAggregate` returns it after this page, if it is the last one
    (run-command.ts:458–528). -/
def lastPage (x : Execution S C V) (loaded : Loaded S) (m : Moment) (d : Delivery) :
    Option (Loaded S) :=
  match d.reply (readStream (some x.streamUuid) (some (loaded.version + 1 : ℕ))
      (some Aggregate.loadPageSize) m.db.store) with
  | .ok page =>
    if page.length < Aggregate.loadPageSize then
      some (Aggregate.foldPage x.definition codec loaded page)
    else none
  | .error (.raised e) => if e.sqlstate = .IS003 ∧ loaded.version = 0 then some loaded else none
  | .error .connection => none

/-- The command does not go on to an append with this call, nor the loop to its next command or to the
    end of `handle`. -/
def executionStops (v : δ) (rest : List (DispatchedCommand S C V)) (x : Execution S C V) (m : Moment)
    (d : Delivery) : Bool :=
  match x.pc with
  | .readSnapshot => true
  | .readPage loaded =>
    match lastPage codec x loaded m d with
    | none => true
    | some loaded =>
      match x.definition.execute loaded.state x.command with
      | .error _ => true
      | .ok [] => unresolved opts v rest
      | .ok (_ :: _) => false
  | .append loaded filled =>
    match d.reply (m.db.append m.now
        (Aggregate.commandArgs codec x.streamUuid x.opts loaded m.ids filled)).1 with
    | .error _ => true
    | .ok rows =>
      let ran := (⟨rows, loaded, filled, false⟩ : ExecutedCommand S V).ran x.definition
      ran.asksFor x.definition || unresolved opts v rest
  | .recordSnapshot .. => unresolved opts v rest

/-- The same of a worker that may be in no command. -/
def callStops (v : δ) (m : Moment) (d : Delivery) : HandlePc T S C V → Bool
  | .dispatch _ _ rest x => executionStops codec opts v rest x m d
  | _ => true

/-- What the worker is in the middle of stops, if its item is known to be lost. -/
def StopsIn (wk : Worker (HandlePc T S C V) (Pm.Memory δ T) (HandleAct C V))
    (stops : HandlePc T S C V → Bool) : Phase (HandlePc T S C V) → Prop
  | .handle item _ _ pc => lostItem item wk.acts = true → stops pc = true
  | _ => True

/-- A handler that runs on after the worker has learned the loss of its item stops. -/
def Stops (w : World δ T S C V) : Op δ T S C V → Prop
  | .worker (.advance id x) => ∀ wk ∈ w.workers id,
      StopsIn wk (handleStops opts wk.memory.version x.handler.result) wk.phase
  | .worker _ => True
  | .call id now ids d _ => ∀ wk ∈ w.workers id,
      StopsIn wk (callStops codec opts wk.memory.version ⟨w.routing.queue.db, now, ids⟩ d) wk.phase

end Stops

section Lemmas

variable {codec : Codec S V} {P : Pm.PmDefinition δ T K} {opts : δ → PmWorkerOptions S C V}
  {id : String} {item : Item} {event : RecordedEvent} {n : ℕ} {pc : HandlePc T S C V}
  {x : Input (HandleInput S C V)} {acts new : List (Act (HandleAct C V))} {w w' : World δ T S C V}
  {wk wk' : Worker (HandlePc T S C V) (Pm.Memory δ T) (HandleAct C V)} {keys : String → Bool}
  {number : JsNumber}

/-! ## What a call starts -/

/-- The progress starts an append, a dispatch, or the call of `complete`. -/
def progressStarts (opts : δ → PmWorkerOptions S C V) (v : δ)
    (rest : List (DispatchedCommand S C V)) : Progress S C V → Bool
  | .call x => !(appendActs x).isEmpty
  | .returned => !unresolved opts v rest
  | .threw => false

/-- Another attempt begins with the snapshot. -/
theorem caught_starts (v : δ) (rest : List (DispatchedCommand S C V)) (x : Execution S C V)
    (e : Aggregate.CommandError) : progressStarts opts v rest (x.caught e) = false := by
  unfold Execution.caught
  split_ifs
  · cases x.left <;> rfl
  · rfl

theorem failed_starts (v : δ) (rest : List (DispatchedCommand S C V)) (x : Execution S C V)
    (f : Failure) : progressStarts opts v rest (x.failed f) = false := by
  cases f with
  | raised e => exact caught_starts v rest x _
  | connection => rfl

/-- `execute` is run on what was loaded. -/
theorem loaded_starts (v : δ) (rest : List (DispatchedCommand S C V)) (x : Execution S C V)
    (loaded : Loaded S) : progressStarts opts v rest (x.loaded loaded) =
      !(match x.definition.execute loaded.state x.command with
        | .error _ => true
        | .ok [] => unresolved opts v rest
        | .ok (_ :: _) => false) := by
  unfold Execution.loaded
  cases x.definition.execute loaded.state x.command with
  | error t => exact caught_starts v rest x _
  | ok events => cases events <;> rfl

/-- **What a call of a command starts.** -/
theorem call_starts (v : δ) (rest : List (DispatchedCommand S C V)) (x : Execution S C V) (m : Moment)
    (d : Delivery) : progressStarts opts v rest (x.call codec m d).1 =
      !executionStops codec opts v rest x m d := by
  unfold Execution.call executionStops
  cases x.pc with
  | readSnapshot =>
    dsimp only
    cases d.reply (Aggregate.baseline x.definition codec x.streamUuid m.db.store) with
    | ok loaded => rfl
    | error f => exact failed_starts v rest x f
  | readPage loaded =>
    dsimp only [lastPage]
    cases d.reply (readStream (some x.streamUuid) (some (loaded.version + 1 : ℕ))
        (some Aggregate.loadPageSize) m.db.store) with
    | ok page =>
      dsimp only
      split_ifs
      · exact loaded_starts v rest x _
      · rfl
    | error f =>
      cases f with
      | raised e =>
        dsimp only
        split_ifs
        · exact loaded_starts v rest x _
        · exact caught_starts v rest x _
      | connection => rfl
  | append loaded filled =>
    dsimp only
    cases d.reply (m.db.append m.now
        (Aggregate.commandArgs codec x.streamUuid x.opts loaded m.ids filled)).1 with
    | ok rows =>
      simp only [Execution.appended]
      split_ifs with hasks
      · rw [hasks]
        rfl
      · rw [Bool.eq_false_of_not_eq_true hasks]
        rfl
    | error f => exact failed_starts v rest x f
  | recordSnapshot rows state version =>
    dsimp only
    cases x.recordSnapshot codec m.now state version m.db.store <;> rfl

/-! ## What a piece of `handle` starts -/

/-- What a worker does in one piece of `handle`, and in the call of `complete` that may follow. -/
def newActs (P : Pm.PmDefinition δ T K) (opts : δ → PmWorkerOptions S C V) (id : String)
    (m : Pm.Memory δ T) (item : Item) (event : RecordedEvent) (n : ℕ) (pc : HandlePc T S C V)
    (x : Input (HandleInput S C V)) (st : Store) : List (Act (HandleAct C V)) :=
  let r := handle P opts m item event pc x st
  r.acts.map (Act.handler item n) ++
    match r.ran with
    | .returned => ((Pm.complete P id r.memory item event).2.map (Act.completing item)).toList
    | _ => []

/-- A step of a handler starts something, or lets `complete` be called. -/
def stepStarts (r : HandlerStep (HandlePc T S C V) (Pm.Memory δ T) (HandleAct C V)) : Bool :=
  !r.acts.isEmpty || match r.ran with
    | .returned => true
    | _ => false

/-- The command loop starts the next dispatch, or the call of `complete`, unless it throws. -/
theorem dispatchNext_starts (m : Pm.Memory δ T) (item : Item) (event : RecordedEvent) (stagedState : T)
    (complete : Bool) (uuid : String) (commands : List (DispatchedCommand S C V)) :
    stepStarts (dispatchNext P opts m item event stagedState complete uuid commands) =
      !unresolved opts m.version commands := by
  cases commands with
  | nil => rfl
  | cons command rest =>
    simp only [dispatchNext, unresolved]
    cases (opts m.version).resolveDispatch command <;> rfl

theorem goOn_starts (m : Pm.Memory δ T) (item : Item) (event : RecordedEvent) (stagedState : T)
    (complete : Bool) (uuid : String) (rest : List (DispatchedCommand S C V))
    (progress : Progress S C V) :
    stepStarts (goOn P opts m item event stagedState complete uuid rest progress) =
      progressStarts opts m.version rest progress := by
  cases progress with
  | call x => exact Bool.or_false _
  | returned => exact dispatchNext_starts m item event stagedState complete uuid rest
  | threw => rfl

/-- What the input makes one piece of `handle` start. -/
def inputStarts (opts : δ → PmWorkerOptions S C V) (v : δ) (x : HandleInput S C V) :
    HandlePc T S C V → Bool
  | .dispatch _ _ rest _ => x.progress.any (progressStarts opts v rest)
  | pc => !handleStops opts v x.result pc

theorem handle_starts (m : Pm.Memory δ T) (item : Item) (event : RecordedEvent)
    (pc : HandlePc T S C V) (x : Input (HandleInput S C V)) (st : Store) :
    stepStarts (handle P opts m item event pc x st) = inputStarts opts m.version x.handler pc := by
  cases pc with
  | readSnapshot =>
    simp only [handle]
    split
    · split_ifs <;> rfl
    · split_ifs <;> rfl
    · rfl
  | rebuild =>
    simp only [handle]
    split <;> rfl
  | handle s =>
    simp only [handle, inputStarts, handleStops]
    cases x.handler.result with
    | none => rfl
    | some result => exact dispatchNext_starts m item event s result.2 _ result.1
  | dispatch s b rest execution =>
    simp only [handle, inputStarts]
    cases x.handler.progress with
    | none => rfl
    | some progress => exact goOn_starts m item event s b _ rest progress

/-- A handler that returns has staged a state. -/
theorem dispatchNext_staged {m : Pm.Memory δ T} {item : Item} {event : RecordedEvent} {stagedState : T}
    {complete : Bool} {uuid : String} {commands : List (DispatchedCommand S C V)}
    (h : (dispatchNext P opts m item event stagedState complete uuid commands).ran = .returned) :
    ∃ entry, (dispatchNext P opts m item event stagedState complete uuid commands).memory.staged
      (Pm.stagedKey item) = some entry := by
  cases commands with
  | nil => exact ⟨_, Function.update_self ..⟩
  | cons command rest =>
    simp only [dispatchNext] at h
    split at h <;> cases h

theorem handle_staged {m : Pm.Memory δ T} {st : Store}
    (h : (handle P opts m item event pc x st).ran = .returned) :
    ∃ entry, (handle P opts m item event pc x st).memory.staged (Pm.stagedKey item) = some entry := by
  cases pc with
  | readSnapshot =>
    simp only [handle] at h
    split at h
    · split_ifs at h
    · split_ifs at h
    · cases h
  | rebuild =>
    simp only [handle] at h
    split at h <;> cases h
  | handle s =>
    simp only [handle] at h ⊢
    cases hresult : x.handler.result with
    | none =>
      rw [hresult] at h
      cases h
    | some result =>
      rw [hresult] at h
      exact dispatchNext_staged h
  | dispatch s b rest execution =>
    simp only [handle] at h ⊢
    cases hprogress : x.handler.progress with
    | none =>
      rw [hprogress] at h
      cases h
    | some progress =>
      rw [hprogress] at h
      cases progress with
      | call x => cases h
      | returned => exact dispatchNext_staged h
      | threw => cases h

/-- **What one piece of `handle` starts.** -/
theorem newActs_starts (id : String) (m : Pm.Memory δ T) (item : Item) (event : RecordedEvent) (n : ℕ)
    (pc : HandlePc T S C V) (x : Input (HandleInput S C V)) (st : Store) :
    (newActs P opts id m item event n pc x st).any (startsFor item) =
      inputStarts opts m.version x.handler pc := by
  have hacts : ∀ acts : List (HandleAct C V),
      (acts.map (Act.handler item n)).any (startsFor item) = !acts.isEmpty := by
    intro acts
    cases acts with
    | nil => rfl
    | cons a acts => cases a <;> simp [startsFor]
  rw [← handle_starts m item event pc x st, newActs, stepStarts, List.any_append, hacts]
  congr 1
  cases hran : (handle P opts m item event pc x st).ran with
  | returned =>
    obtain ⟨entry, hentry⟩ := handle_staged hran
    obtain ⟨staged, heq⟩ := Pm.complete_of_staged (P := P) id event hentry
    simp [heq, startsFor]
  | running _ => rfl
  | threw => rfl

/-- The acts of a piece of `handle` concern its item, and none of them is a loss. -/
theorem newActs_item (id : String) (m : Pm.Memory δ T) (item : Item) (event : RecordedEvent) (n : ℕ)
    (pc : HandlePc T S C V) (x : Input (HandleInput S C V)) (st : Store) :
    (∀ a ∈ newActs P opts id m item event n pc x st,
      ∀ item', startsFor item' a = true → item' = item) ∧
      ∀ item', lostItem item' (newActs P opts id m item event n pc x st) = false := by
  have hmem : ∀ a ∈ newActs P opts id m item event n pc x st,
      (∃ act, a = .handler item n act) ∨ ∃ call, a = .completing item call := by
    intro a ha
    rcases List.mem_append.mp ha with ha | ha
    · obtain ⟨act, -, rfl⟩ := List.mem_map.mp ha
      exact Or.inl ⟨act, rfl⟩
    · split at ha
      · obtain ⟨call, -, rfl⟩ := Option.map_eq_some_iff.mp (Option.mem_toList.mp ha)
        exact Or.inr ⟨call, rfl⟩
      · cases ha
  constructor
  · intro a ha item' hstarts
    rcases hmem a ha with ⟨act, rfl⟩ | ⟨call, rfl⟩
    · cases act <;> exact (of_decide_eq_true hstarts).symm
    · exact (of_decide_eq_true hstarts).symm
  · intro item'
    rw [lostItem, List.any_eq_false]
    intro a ha
    rcases hmem a ha with ⟨act, rfl⟩ | ⟨call, rfl⟩ <;> simp

/-- The worker after one piece of `handle`. -/
theorem handle_worker (w : World δ T S C V) (id : String)
    (wk : Worker (HandlePc T S C V) (Pm.Memory δ T) (HandleAct C V)) (item : Item)
    (event : RecordedEvent) (n : ℕ) (pc : HandlePc T S C V) (x : Input (HandleInput S C V)) :
    ∃ wk', (w.handle (adapter P opts keys) id wk item event n pc x).workers =
        Function.update w.workers id (some wk') ∧
      wk'.acts = wk.acts ++ newActs P opts id wk.memory item event n pc x w.store := by
  unfold World.handle newActs
  simp only [adapter]
  generalize handle P opts wk.memory item event pc x w.store = r
  obtain ⟨m, ran, acts⟩ := r
  cases ran with
  | running pc' => exact ⟨_, rfl, by simp⟩
  | threw => exact ⟨_, rfl, by simp⟩
  | returned =>
    cases hcall : (Pm.complete P id m item event).2 with
    | some call => exact ⟨_, rfl, by simp⟩
    | none => exact ⟨_, rfl, by simp [Worker.markAborted]⟩

/-- A turn outside `handle` adds at most a loss. -/
theorem turn_acts {routing : Routing.World String} {returned : List (Item × RecordedEvent)}
    (hphase : ∀ item e n pc, wk.phase ≠ .handle item e n pc)
    (ht : Turn P.routing (adapter P opts keys) w id wk routing wk' returned) :
    wk'.acts = wk.acts ∨ ∃ item, wk'.acts = wk.acts ++ [.lost item] := by
  cases ht with
  | ran hp _ _ => exact absurd hp (hphase _ _ _ _)
  | threw hp _ _ => exact absurd hp (hphase _ _ _ _)
  | returned hp _ _ _ => exact absurd hp (hphase _ _ _ _)
  | broken hp _ _ _ => exact absurd hp (hphase _ _ _ _)
  | lost _ _ _ => exact Or.inr ⟨_, rfl⟩
  | _ => exact Or.inl rfl

/-! ## The result -/

/-- The history grows by acts that concern one item, none of which is a loss. -/
theorem justified_append_iff (hacts : Justified AfterLoss acts)
    (hnew : ∀ a ∈ new, ∀ item', startsFor item' a = true → item' = item)
    (hlost : ∀ item', lostItem item' new = false) :
    Justified AfterLoss (acts ++ new) ↔
      (lostItem item acts = true → new.any (startsFor item) = false) := by
  rw [Justified.append_iff, and_iff_right hacts]
  have hbefore : ∀ before, before <+: new → ∀ item', lostItem item' (acts ++ before) =
      lostItem item' acts := by
    rintro before ⟨after, rfl⟩ item'
    have hnone := hlost item'
    rw [lostItem, List.any_append, Bool.or_eq_false_iff] at hnone
    rw [lostItem, List.any_append, hnone.1, Bool.or_false, lostItem]
  constructor
  · intro hj hl
    rw [List.any_eq_false]
    intro a ha hstarts
    obtain ⟨before, after, rfl⟩ := List.append_of_mem ha
    have hfree := hj before a after rfl item hstarts
    rw [hbefore before (List.prefix_append ..)] at hfree
    rw [hl] at hfree
    cases hfree
  · intro himp before a after heq item' hstarts
    have hmem : a ∈ new := heq ▸ List.mem_append_right _ List.mem_cons_self
    obtain rfl := hnew a hmem item' hstarts
    rw [hbefore before (heq ▸ List.prefix_append ..)]
    by_contra hl
    have hnone := himp (Bool.eq_true_of_not_eq_false hl)
    rw [List.any_eq_false] at hnone
    exact hnone a hmem hstarts

/-- The world in which one worker has gone on. -/
theorem quiet_update_iff (hq : Quiet w) (h : w'.workers = Function.update w.workers id (some wk')) :
    Quiet w' ↔ Justified AfterLoss wk'.acts := by
  constructor
  · intro hq'
    apply hq' id wk'
    rw [h, Function.update_self]
  · intro hj i x hx
    rw [h, Function.update_apply] at hx
    split_ifs at hx
    · cases hx
      exact hj
    · exact hq i x hx

theorem quiet_of_lost (hq : Quiet w) (hwk : w.workers id = some wk)
    (h : w'.workers = Function.update w.workers id (some wk'))
    (hacts : wk'.acts = wk.acts ∨ ∃ item, wk'.acts = wk.acts ++ [.lost item]) : Quiet w' := by
  refine (quiet_update_iff hq h).mpr ?_
  rcases hacts with heq | ⟨item, heq⟩
  · exact heq ▸ hq id wk hwk
  · rw [heq]
    refine (hq id wk hwk).snoc fun item' hstarts => ?_
    cases hstarts

/-- A piece of `handle` keeps the world quiet exactly if it starts nothing after a loss. -/
theorem handle_quiet_iff (hq : Quiet w) (hwk : w.workers id = some wk)
    (x : Input (HandleInput S C V)) :
    Quiet (w.handle (adapter P opts keys) id wk item event n pc x) ↔
      (lostItem item wk.acts = true → inputStarts opts wk.memory.version x.handler pc = false) := by
  obtain ⟨wk', hworkers, hacts⟩ : ∃ wk', (w.handle (adapter P opts keys) id wk item event n pc
      x).workers = Function.update w.workers id (some wk') ∧ _ := handle_worker w id wk item event n pc x
  obtain ⟨hitem, hlost⟩ : (∀ a ∈ newActs P opts id wk.memory item event n pc x w.store, _) ∧ _ :=
    newActs_item id wk.memory item event n pc x w.store
  rw [quiet_update_iff hq hworkers, hacts, justified_append_iff (hq id wk hwk) hitem hlost,
    newActs_starts]

/-- A worker runs on, other than by a call of its command. -/
theorem advance_quiet_iff (hq : Quiet w) (hwk : w.workers id = some wk)
    (hprogress : x.handler.progress = none)
    (h : w.advance P.routing (adapter P opts keys) id wk x = some w') :
    StopsIn wk (handleStops opts wk.memory.version x.handler.result) wk.phase ↔ Quiet w' := by
  unfold StopsIn
  split
  · rename_i item e n pc hphase
    simp only [Processing.World.advance, hphase, Option.some.injEq] at h
    rw [← h, handle_quiet_iff hq hwk]
    cases pc <;> simp [inputStarts, handleStops, hprogress]
  · rename_i hphase
    obtain ⟨routing, wk', returned, ht, rfl⟩ := advance_turns h
    exact iff_of_true trivial
      (quiet_of_lost hq hwk rfl (turn_acts (fun item e n pc h => hphase item e n pc h) ht))

/-- The running command's next call. -/
theorem call_quiet_iff (hq : Quiet w) (hwk : w.workers id = some wk) {s : T} {b : Bool}
    {rest : List (DispatchedCommand S C V)} {x : Execution S C V} (now : Timestamp)
    (ids : ℕ → String) (d : Delivery) (uuid : String) :
    Quiet (call codec P opts keys w id wk item event n (.dispatch s b rest x) x now ids d uuid) ↔
      (lostItem item wk.acts = true → executionStops codec opts wk.memory.version rest x
        ⟨w.routing.queue.db, now, ids⟩ d = true) := by
  have hq' : Quiet (setDb w (x.call codec ⟨w.routing.queue.db, now, ids⟩ d).2) := hq
  refine (handle_quiet_iff hq' hwk _).trans ?_
  simp only [inputStarts, Option.any_some, call_starts, Bool.not_eq_false']

/-- **A step keeps the world quiet exactly if it is as `Stops` says.** -/
theorem step_quiet_iff (hq : Quiet w) {op : Op δ T S C V}
    (hstep : step codec P opts keys number w op = some w') : Stops codec opts w op ↔ Quiet w' := by
  cases op with
  | call id now ids d uuid =>
    obtain ⟨wk, hwk, hcall⟩ := Option.bind_eq_some_iff.mp hstep
    have hstops : Stops codec opts w (.call id now ids d uuid) ↔ StopsIn wk
        (callStops codec opts wk.memory.version ⟨w.routing.queue.db, now, ids⟩ d) wk.phase := by
      simp [Stops, hwk]
    rw [hstops]
    split at hcall
    · rename_i item event n s b rest x hphase
      obtain rfl := Option.some.inj hcall
      rw [call_quiet_iff hq hwk, hphase]
      rfl
    · cases hcall
  | worker op =>
    simp only [step] at hstep
    split_ifs at hstep with htells
    cases op with
    | advance id x =>
      obtain ⟨wk, hwk, hadvance⟩ := Option.bind_eq_some_iff.mp hstep
      have hstops : Stops codec opts w (.worker (.advance id x)) ↔
          StopsIn wk (handleStops opts wk.memory.version x.handler.result) wk.phase := by
        simp [Stops, hwk]
      have hprogress : x.handler.progress = none := by
        simpa [tellsProgress] using htells
      rw [hstops]
      exact advance_quiet_iff hq hwk hprogress hadvance
    | beat id now d =>
      obtain ⟨wk, hwk, hbeat⟩ := Option.bind_eq_some_iff.mp hstep
      obtain ⟨wk', hworkers, hacts⟩ := beat_acts hbeat
      exact iff_of_true trivial (quiet_of_lost hq hwk hworkers hacts)
    | stop id =>
      obtain ⟨wk, hwk, rfl⟩ := Option.map_eq_some_iff.mp hstep
      exact iff_of_true trivial (quiet_of_lost hq hwk rfl (Or.inl rfl))
    | start id leaseSeconds memory =>
      simp only [Processing.step] at hstep
      split at hstep
      · obtain rfl := Option.some.inj hstep
        exact iff_of_true trivial ((quiet_update_iff hq rfl).mpr .nil)
      · cases hstep
    | crash id =>
      obtain ⟨wk, hwk, rfl⟩ := Option.map_eq_some_iff.mp hstep
      refine iff_of_true trivial fun i x hx => ?_
      simp only [World.crash, Function.update_apply] at hx
      split_ifs at hx
      exact hq i x hx
    | routing op =>
      simp only [Processing.step] at hstep
      split_ifs at hstep
      obtain ⟨routing, -, rfl⟩ := Option.map_eq_some_iff.mp hstep
      exact iff_of_true trivial hq
    | deleteSnapshot sourceUuid =>
      obtain rfl := Option.some.inj hstep
      exact iff_of_true trivial hq
    | recordSnapshot now sourceUuid sourceType sourceVersion data metadata =>
      simp only [Processing.step] at hstep
      split_ifs at hstep
      split at hstep
      · obtain rfl := Option.some.inj hstep
        exact iff_of_true trivial hq
      · obtain rfl := Option.some.inj hstep
        exact iff_of_true trivial hq

/-- **Nothing is started for an item that is known to be lost**, in every run in which a handler that
    runs on after the loss stops; and the first step of another kind starts something. -/
theorem quiet_iff_stops (hw : ReachableWhen (system codec P opts keys number) (Stops codec opts) w) :
    Quiet w ∧ ∀ op w', (system codec P opts keys number).step w op = some w' →
      (Stops codec opts w op ↔ Quiet w') := by
  have hq : Quiet w := by
    refine hw.invariant ?_ fun s op s' hq hC hstep => (step_quiet_iff hq hstep).mp hC
    rintro _ rfl id wk hwk
    cases hwk
  exact ⟨hq, fun op w' hstep => step_quiet_iff hq hstep⟩

end Lemmas

/-! ## Runs -/

section Example

instance (wk : Worker (HandlePc T S C V) (Pm.Memory δ T) (HandleAct C V))
    (stops : HandlePc T S C V → Bool) :
    (phase : Phase (HandlePc T S C V)) → Decidable (StopsIn wk stops phase)
  | .handle item _ _ pc => inferInstanceAs (Decidable
      (lostItem item wk.acts = true → stops pc = true))
  | .claim | .claiming | .load _ | .attempt .. | .policy .. | .complete .. | .settle _ | .stopped =>
    isTrue trivial

instance (codec : Codec S V) (opts : δ → PmWorkerOptions S C V) (w : World δ T S C V) :
    (op : Op δ T S C V) → Decidable (Stops codec opts w op)
  | .worker (.advance id x) => inferInstanceAs (Decidable (∀ wk ∈ w.workers id,
      StopsIn wk (handleStops opts wk.memory.version x.handler.result) wk.phase))
  | .worker (.routing _) | .worker (.deleteSnapshot _) | .worker (.recordSnapshot ..)
  | .worker (.start ..) | .worker (.stop _) | .worker (.crash _) | .worker (.beat ..) => isTrue trivial
  | .call id now ids d _ => inferInstanceAs (Decidable (∀ wk ∈ w.workers id,
      StopsIn wk (callStops codec opts wk.memory.version ⟨w.routing.queue.db, now, ids⟩ d) wk.phase))

/-- Opens the account of its stream, once. -/
def sampleAccount : Aggregate.AggregateDefinition ℕ Unit Json where
  type := "account"
  initialState := 0
  execute n _ :=
    if n = 0 then .ok [⟨none, "opened", .null, none, none, none⟩] else .error (.other "opened")
  apply n _ := n + 1
  snapshotPolicy := none
  snapshotModuleVersion := none

abbrev SampleOp := Op Unit ℕ ℕ Unit Json

def sampleOptions : Unit → PmWorkerOptions ℕ Unit Json := fun _ => ⟨none, none⟩

/-- The system of the sample process manager. -/
abbrev sampleSystem :=
  system Aggregate.eventCodec Pm.samplePm sampleOptions Pm.sampleKeys sampleNumber

/-- The worker `id` runs on; `commands` is what its `handle` returns, if it is asked. -/
def sampleAdvance (id : String) (now : Timestamp) (commands : List (DispatchedCommand ℕ Unit Json)) :
    SampleOp :=
  .worker (.advance id ⟨now, .answered, fun _ => false, .retryIn, ⟨some (commands, false), "", none⟩⟩)

/-- The next call of the command of `id`. -/
def sampleCall (id : String) (now : Timestamp) : SampleOp :=
  .call id now (fun _ => "00000000-0000-0000-0000-000000000009") .answered ""

/-- An event is appended to `stream`; its id ends in `digit`. -/
def sampleAppend (stream digit : String) : SampleOp :=
  .worker (.routing (.queue (.append 1 ⟨some stream, some "any", none, some (.arr [.obj
    [("event_id", .str ("00000000-0000-0000-0000-00000000000" ++ digit)), ("event_type", .str "opened"),
      ("data", .null)]])⟩)))

/-- One event is routed; `a` claims it and gets to the user's `handle`. -/
def sampleClaimed : List SampleOp :=
  [sampleAppend "order-1" "1", .worker (.routing (.start "r" ⟨10, 5, none⟩))] ++
    List.replicate 7 (.worker (.routing (.advance "r" 10 .answered))) ++
    .worker (.start "a" 5 ⟨(), fun _ => none⟩) :: List.replicate 6 (sampleAdvance "a" 20 [])

/-- Worker `b` takes the item over, and `a` learns it. -/
def sampleLoss : List SampleOp :=
  .worker (.start "b" 5 ⟨(), fun _ => none⟩) :: List.replicate 2 (sampleAdvance "b" 6000000 []) ++
    List.replicate 2 (.worker (.beat "a" 6000001 .answered))

/-- The command for the stream `cart-1`. -/
def sampleCommand : DispatchedCommand ℕ Unit Json := .explicit "cart-1" sampleAccount ()

/-- The command runs while the item is taken over. Its stream has been opened meanwhile, so `execute`
    throws after the loss. -/
def sampleStopped : List SampleOp :=
  sampleClaimed ++ [sampleAppend "cart-1" "2", sampleAdvance "a" 30 [sampleCommand]] ++ sampleLoss ++
    List.replicate 2 (sampleCall "a" 6000002)

theorem quiet_iff_stops_sampleStopped : ∃ w wk,
    sampleSystem.runWhen (Stops Aggregate.eventCodec sampleOptions) Processing.World.install
        sampleStopped = some w ∧
      w.workers "a" = some wk ∧ lostItem ⟨"order-1", 1⟩ wk.acts = true ∧
      wk.acts.countP (startsFor ⟨"order-1", 1⟩) = 1 ∧ Quiet w := by
  have hrun : (sampleSystem.runWhen (Stops Aggregate.eventCodec sampleOptions) Processing.World.install
      sampleStopped).bind (fun w => (w.workers "a").map fun wk =>
        (lostItem ⟨"order-1", 1⟩ wk.acts, wk.acts.countP (startsFor ⟨"order-1", 1⟩))) =
          some (true, 1) := by decide +kernel
  obtain ⟨w, hw, hworker⟩ := Option.bind_eq_some_iff.mp hrun
  obtain ⟨wk, hwk, heq⟩ := Option.map_eq_some_iff.mp hworker
  obtain ⟨hlost, hcount⟩ := Prod.mk.inj heq
  exact ⟨w, wk, hw, hwk, hlost, hcount, (quiet_iff_stops (.runWhen (.init rfl) hw)).1⟩

/-- The user's `handle` returns a command after the loss. It is dispatched, its event is appended, and
    `complete` is called. -/
def sampleTakeover : List SampleOp :=
  sampleClaimed ++ sampleLoss ++
    sampleAdvance "a" 6000002 [sampleCommand] :: List.replicate 3 (sampleCall "a" 6000003)

theorem not_quiet_takeover : ∃ w wk,
    sampleSystem.run Processing.World.install sampleTakeover = some w ∧ w.workers "a" = some wk ∧
      wk.acts.countP (startsFor ⟨"order-1", 1⟩) = 3 ∧
      w.store.log.map (·.streamUuid) = ["order-1", "cart-1"] ∧ ¬ Quiet w := by
  have hrun : (sampleSystem.run Processing.World.install sampleTakeover).bind (fun w =>
      (w.workers "a").map fun wk => (lostItem ⟨"order-1", 1⟩ (wk.acts.take 1) &&
        (wk.acts.drop 1).head?.any (startsFor ⟨"order-1", 1⟩),
          wk.acts.countP (startsFor ⟨"order-1", 1⟩), w.store.log.map (·.streamUuid))) =
      some (true, 3, ["order-1", "cart-1"]) := by decide +kernel
  obtain ⟨w, hw, hworker⟩ := Option.bind_eq_some_iff.mp hrun
  obtain ⟨wk, hwk, heq⟩ := Option.map_eq_some_iff.mp hworker
  obtain ⟨hacts, hcount, hlog⟩ := by simpa only [Prod.mk.injEq] using heq
  obtain ⟨hlost, hstarts⟩ := Bool.and_eq_true_iff.mp hacts
  obtain ⟨a, hhead, hstarts⟩ := (Option.any_eq_true _ _).mp hstarts
  obtain ⟨after, hafter⟩ := List.head?_eq_some_iff.mp hhead
  refine ⟨w, wk, hw, hwk, hcount, hlog, fun hq => ?_⟩
  have hsplit : wk.acts = wk.acts.take 1 ++ a :: after := by
    rw [← hafter, List.take_append_drop]
  have hfree := hq "a" wk hwk _ a after hsplit _ hstarts
  rw [hlost] at hfree
  cases hfree

end Example

end Instructed.LeaseLoss
