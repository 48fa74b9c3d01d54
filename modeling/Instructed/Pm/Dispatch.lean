import Instructed.Aggregate.EveryN
import Instructed.Client.RoundTrip
import Instructed.Pm.Steps

/-!
# Dispatched commands

The loop of `startPmWorker` over the commands of one event (pm-worker.ts:198–262), with
`runCommandWithSnapshots` cut at its calls, for the workers of any number of process managers. What one
process manager appends, another handles.

* `PmWorkerOptions.resolveDispatch`, `dispatchOptions`: where a command goes, and its ids;
* `Execution`, `Execution.call`: a command in progress, and its next call;
* `runs_executeCommand`: its calls, one after the other, are those of `executeCommand`;
* `Handler`, `World`, `step`: the workers, beside everything else that happens on the database;
* `handle_of_phase`: **whatever the work queue makes a worker handle, it can handle here.**

Any worker may begin on any event at any time, so a run here need not keep to the claims, the retries and
the redeliveries of the work queue. `World.dispatched` is a ghost.
-/

namespace Instructed.Dispatch

open Sql Relational Transition
open Aggregate (CommandError Codec ExecutedCommand Loaded NewEvent Pc RanCommand
  RunCommandOptions)
open Routing (Delivery Failure)

variable {S C V : Type}

/-! ## Commands -/

/-- `DispatchedCommand`; an explicit one carries its aggregate and its stream. -/
inductive DispatchedCommand (S C V : Type) where
  | lean (command : C)
  | explicit (streamUuid : String) (aggregate : Aggregate.AggregateDefinition S C V) (command : C)

/-- The fields of `PmWorkerOptions` for the lean form. A `router` that throws has no result; `aggregates`
    has each definition with its `streamName`. -/
structure PmWorkerOptions (S C V : Type) where
  router : Option (C → Option (String × String))
  aggregates : Option (String → Option (Aggregate.AggregateDefinition S C V × Option (String → String)))

/-- `resolveDispatch`, which may throw. -/
def PmWorkerOptions.resolveDispatch (opts : PmWorkerOptions S C V) :
    DispatchedCommand S C V → Option (Aggregate.AggregateDefinition S C V × String × C)
  | .explicit streamUuid aggregate command => some (aggregate, streamUuid, command)
  | .lean command => do
    let router ← opts.router
    let aggregates ← opts.aggregates
    let (aggregateType, aggregateId) ← router command
    let (d, streamName) ← aggregates aggregateType
    return (d, (streamName.getD (prefixType d.type)) aggregateId, command)

/-- The options of a command that is dispatched on `event`. -/
def dispatchOptions (event : Client.RecordedEvent) : RunCommandOptions where
  retryBudget := none
  expectedVersion := none
  commandId := none
  causationId := some event.eventId
  correlationId := event.correlationId

/-- `runCommandWithSnapshots` before its next call. `uuid` is the value of `crypto.randomUUID()`, and
    `left` retries remain. -/
structure Execution (S C V : Type) where
  definition : Aggregate.AggregateDefinition S C V
  streamUuid : String
  command : C
  opts : RunCommandOptions
  uuid : String
  left : ℕ
  pc : Pc S V

/-- What comes of a call. -/
inductive Progress (S C V : Type) where
  | call (x : Execution S C V)
  | returned
  | threw

def Execution.start (d : Aggregate.AggregateDefinition S C V) (streamUuid : String) (command : C)
    (opts : RunCommandOptions) (uuid : String) : Execution S C V :=
  ⟨d, streamUuid, command, opts, uuid, opts.retryBudget.getD Aggregate.defaultRetryBudget,
    .readSnapshot⟩

section Execution

variable (codec : Codec S V) (x : Execution S C V)

/-- `catch (err)`. -/
def Execution.caught (e : CommandError) : Progress S C V :=
  if e.isWrongExpectedVersion ∧ x.opts.expectedVersion = none then
    match x.left with
    | 0 => .threw
    | left + 1 => .call { x with left := left, pc := .readSnapshot }
  else .threw

/-- A call failed. -/
def Execution.failed : Failure → Progress S C V
  | .raised e => x.caught (.sql e)
  | .connection => .threw

/-- `loadAggregate` is done. -/
def Execution.loaded (loaded : Loaded S) : Progress S C V :=
  match x.definition.execute loaded.state x.command with
  | .error t => x.caught (.thrown t)
  | .ok [] => .returned
  | .ok (e :: es) =>
    .call { x with pc := .append loaded ((e :: es).map (x.opts.fill x.uuid)) }

/-- The append returned `rows`. -/
def Execution.appended (loaded : Loaded S) (filled : List (NewEvent V)) (rows : List AppendedRow) :
    Progress S C V :=
  let r := (⟨rows, loaded, filled, false⟩ : ExecutedCommand S V).ran x.definition
  if r.asksFor x.definition then .call { x with pc := .recordSnapshot rows r.state r.version }
  else .returned

/-- `client.recordSnapshot`. -/
def Execution.recordSnapshot (now : Timestamp) (state : S) (version : ℕ) (st : Store) :
    Except SqlError Store :=
  Instructed.recordSnapshot now (some x.streamUuid) (some x.definition.type) (some version)
    (some (codec.stateToJson state)) (Aggregate.stampVersion x.definition.snapshotModuleVersion) st

/-- The next call of the command, which finds `m` and whose fate is `d`. -/
def Execution.call (m : Aggregate.Moment) (d : Delivery) : Progress S C V × Db :=
  match x.pc with
  | .readSnapshot =>
    match d.reply (Aggregate.baseline x.definition codec x.streamUuid m.db.store) with
    | .ok loaded => (.call { x with pc := .readPage loaded }, m.db)
    | .error f => (x.failed f, m.db)
  | .readPage loaded =>
    match d.reply (readStream (some x.streamUuid) (some (loaded.version + 1 : ℕ))
        (some Aggregate.loadPageSize) m.db.store) with
    | .ok page =>
      let loaded := Aggregate.foldPage x.definition codec loaded page
      if page.length < Aggregate.loadPageSize then (x.loaded loaded, m.db)
      else (.call { x with pc := .readPage loaded }, m.db)
    | .error (.raised e) =>
      if e.sqlstate = .IS003 ∧ loaded.version = 0 then (x.loaded loaded, m.db)
      else (x.caught (.sql e), m.db)
    | .error .connection => (.threw, m.db)
  | .append loaded filled =>
    let result := m.db.append m.now
      (Aggregate.commandArgs codec x.streamUuid x.opts loaded m.ids filled)
    let db := if d.arrives then result.2 else m.db
    match d.reply result.1 with
    | .ok rows => (x.appended loaded filled rows, db)
    | .error f => (x.failed f, db)
  | .recordSnapshot _ state version =>
    match x.recordSnapshot codec m.now state version m.db.store with
    | .ok st => (.returned, if d.arrives then { m.db with store := st } else m.db)
    | .error _ => (.returned, m.db)

end Execution

/-! ## The calls, one after the other -/

section Runs

variable (codec : Codec S V)

/-- The command has come to the end of `runCommandAndApply`. -/
def Progress.ran : Progress S C V → Bool
  | .call x =>
    match x.pc with
    | .recordSnapshot .. => true
    | _ => false
  | .returned | .threw => true

/-- The calls of a command, each of which is answered, up to the end of `runCommandAndApply`. -/
def Execution.runs (x : Execution S C V) :
    List Aggregate.Moment → Option (Progress S C V × Db × List Aggregate.Moment)
  | [] => none
  | m :: ms =>
    let r := x.call codec m .answered
    if r.1.ran then some (r.1, r.2, ms)
    else match r.1 with
      | .call x => x.runs ms
      | _ => none

/-- The calls that come after a call. -/
def Progress.runs (p : Progress S C V) (db : Db) (ms : List Aggregate.Moment) :
    Option (Progress S C V × Db × List Aggregate.Moment) :=
  if p.ran then some (p, db, ms)
  else match p with
    | .call x => x.runs codec ms
    | _ => none

/-- `executeCommand` has returned. -/
def Execution.ended (x : Execution S C V) (r : ExecutedCommand S V) : Progress S C V :=
  if r.noOp then .returned else x.appended r.loaded r.filled r.appended

/-- The calls come to the reply, but for the number of retries that are left. -/
def Execution.ComesTo (x : Execution S C V)
    (result : Option (Progress S C V × Db × List Aggregate.Moment)) :
    Aggregate.Reply (ExecutedCommand S V) → Prop
  | none => result = none
  | some (.ok r, db, rest) => ∃ left, result = some (({ x with left := left }).ended r, db, rest)
  | some (.error _, db, rest) => result = some (.threw, db, rest)

variable {codec} {x : Execution S C V} {m : Aggregate.Moment} {ms rest : List Aggregate.Moment}
  {loaded final : Loaded S} {db : Db}

theorem runs_cons (m : Aggregate.Moment) (ms : List Aggregate.Moment) : x.runs codec (m :: ms) =
    (x.call codec m .answered).1.runs codec (x.call codec m .answered).2 ms := rfl

theorem runs_ended (r : ExecutedCommand S V) (db : Db) (ms : List Aggregate.Moment) :
    (x.ended r).runs codec db ms = some (x.ended r, db, ms) := by
  refine if_pos ?_
  unfold Execution.ended Execution.appended
  dsimp only
  split_ifs <;> rfl

/-- The loop of `loadAggregate`. -/
theorem runs_loadPages (hpc : x.pc = .readPage loaded) : x.runs codec ms =
    (Aggregate.loadPages x.definition codec x.streamUuid loaded ms).bind fun reply =>
      match reply with
      | (.ok final, db, rest) => (x.loaded final).runs codec db rest
      | (.error e, db, rest) => (x.caught e).runs codec db rest := by
  induction ms generalizing x loaded with
  | nil => rfl
  | cons m ms ih =>
    rw [runs_cons, Aggregate.loadPages, Execution.call, hpc]
    dsimp only
    cases hread : readStream (some x.streamUuid) (some (loaded.version + 1 : ℕ))
        (some Aggregate.loadPageSize) m.db.store with
    | error e =>
      simp only [Delivery.reply, Except.mapError]
      split_ifs <;> rfl
    | ok page =>
      simp only [Delivery.reply, Except.mapError]
      split_ifs
      · rfl
      · exact ih rfl

/-- The `try` block. -/
theorem runs_attempt (hpc : x.pc = .readSnapshot) : x.runs codec ms =
    (Aggregate.attempt x.definition codec x.streamUuid x.command x.opts x.uuid ms).bind fun reply =>
      match reply with
      | (.ok r, db, rest) => some (x.ended r, db, rest)
      | (.error e, db, rest) => (x.caught e).runs codec db rest := by
  cases ms with
  | nil => rfl
  | cons m ms =>
    rw [runs_cons, Aggregate.attempt, Aggregate.loadAggregate, Execution.call, hpc]
    dsimp only
    cases Aggregate.baseline x.definition codec x.streamUuid m.db.store with
    | error e => rfl
    | ok base =>
      show ({ x with pc := .readPage base } : Execution S C V).runs codec ms = _
      rw [runs_loadPages rfl]
      dsimp only
      cases hload : Aggregate.loadPages x.definition codec x.streamUuid base ms with
      | none => rfl
      | some reply =>
        obtain ⟨result, db, rest⟩ := reply
        cases result with
        | error e => rfl
        | ok loaded =>
          simp only [Option.bind_some]
          show (x.loaded loaded).runs codec db rest = _
          unfold Execution.loaded
          cases hexec : x.definition.execute loaded.state x.command with
          | error t => rfl
          | ok events =>
            cases events with
            | nil => rfl
            | cons e es =>
              dsimp only
              cases rest with
              | nil => rfl
              | cons m rest =>
                show ({ x with pc := .append loaded ((e :: es).map (x.opts.fill x.uuid)) } :
                  Execution S C V).runs codec (m :: rest) = _
                rw [runs_cons, Execution.call]
                dsimp only
                generalize m.db.append m.now (Aggregate.commandArgs codec x.streamUuid x.opts loaded
                  m.ids ((e :: es).map (x.opts.fill x.uuid))) = result
                obtain ⟨reply, db'⟩ := result
                cases reply with
                | error e => rfl
                | ok rows => exact runs_ended (x := x) ⟨rows, loaded, _, false⟩ db' rest

/-- The attempts; `left` is what the induction is on. -/
theorem runs_attempts (hpc : x.pc = .readSnapshot) : x.ComesTo (x.runs codec ms)
    (Aggregate.attempts x.definition codec x.streamUuid x.command x.opts x.uuid x.left ms) := by
  induction hleft : x.left generalizing x ms with
  | zero =>
    rw [Aggregate.attempts, runs_attempt hpc]
    cases hattempt : Aggregate.attempt x.definition codec x.streamUuid x.command x.opts x.uuid ms with
    | none => rfl
    | some reply =>
      obtain ⟨result, db, rest⟩ := reply
      cases result with
      | ok r => exact ⟨x.left, rfl⟩
      | error e =>
        simp only [Option.bind_some, Execution.caught, hleft]
        split_ifs <;> rfl
  | succ left ih =>
    rw [Aggregate.attempts, runs_attempt hpc]
    cases hattempt : Aggregate.attempt x.definition codec x.streamUuid x.command x.opts x.uuid ms with
    | none => rfl
    | some reply =>
      obtain ⟨result, db, rest⟩ := reply
      cases result with
      | ok r => exact ⟨x.left, rfl⟩
      | error e =>
        simp only [Option.bind_some, Execution.caught, hleft]
        split_ifs
        · exact ih (x := { x with left := left, pc := .readSnapshot }) rfl rfl
        · rfl

/-- **The calls of a command are those of `executeCommand`.** -/
theorem runs_executeCommand (d : Aggregate.AggregateDefinition S C V) (streamUuid : String)
    (command : C) (o : RunCommandOptions) (uuid : String) :
    (Execution.start d streamUuid command o uuid).ComesTo
      ((Execution.start d streamUuid command o uuid).runs codec ms)
      (Aggregate.executeCommand d codec streamUuid command o uuid ms) :=
  runs_attempts rfl

end Runs

/-! ## Workers -/

/-- A `handle` of `startPmWorker` in progress: the commands that are left, and the one that runs. -/
structure Handler (S C V : Type) where
  event : Client.RecordedEvent
  rest : List (DispatchedCommand S C V)
  execution : Option (Execution S C V)

/-- The database with its work queue, and the workers. `dispatched` has every event that a dispatched
    command appended, behind the event that was being handled. -/
structure World (κ S C V : Type) where
  queue : Queue.World κ
  handlers : κ → Option (Handler S C V)
  dispatched : List (Client.RecordedEvent × Client.RecordedEvent)

/-- What happens next. -/
inductive Op (κ S C V : Type) where
  /-- Anyone appends, or runs a procedure of the work queue. -/
  | queue (op : Queue.Op κ)
  | deleteSnapshot (sourceUuid : String)
  | recordSnapshot (now : Timestamp) (sourceUuid sourceType : String) (sourceVersion : ℤ)
      (data : Json) (metadata : Option Json)
  /-- A worker reads the event `n`, and the user's `handle` returns the commands. -/
  | handle (i : κ) (n : ℤ) (commands : List (DispatchedCommand S C V))
  /-- The head of the loop over the commands. -/
  | dispatch (i : κ) (uuid : String)
  /-- The running command's next call. -/
  | call (i : κ) (now : Timestamp) (ids : ℕ → String) (d : Delivery)
  /-- The worker's process ends. -/
  | crash (i : κ)

section World

variable {κ : Type} [DecidableEq κ]

def World.install : World κ S C V := ⟨Queue.World.install, fun _ => none, []⟩

def World.store (w : World κ S C V) : Store := w.queue.db.store

/-- The events, as they are read. -/
def World.log (w : World κ S C V) : List Client.RecordedEvent := w.store.log.map Client.recorded

def World.setHandler (w : World κ S C V) (i : κ) (h : Option (Handler S C V)) : World κ S C V :=
  { w with handlers := Function.update w.handlers i h }

def World.setDb (w : World κ S C V) (db : Db) : World κ S C V :=
  { w with queue := { w.queue with db := db } }

/-- The read of the event, and the call of the user's `handle`. -/
def World.handle (w : World κ S C V) (i : κ) (n : ℤ) (commands : List (DispatchedCommand S C V)) :
    Option (World κ S C V) :=
  match Client.readAll n 1 w.store with
  | .ok (event :: _) =>
    if event.eventNumber = n then some (w.setHandler i (some ⟨event, commands, none⟩)) else none
  | _ => none

/-- The loop goes on to its next command, or ends. -/
def World.dispatch (opts : PmWorkerOptions S C V) (w : World κ S C V) (i : κ) (h : Handler S C V)
    (uuid : String) : World κ S C V :=
  match h.rest with
  | [] => w.setHandler i none
  | c :: rest =>
    match opts.resolveDispatch c with
    | none => w.setHandler i none
    | some (d, streamUuid, command) => w.setHandler i (some
        ⟨h.event, rest, some (.start d streamUuid command (dispatchOptions h.event) uuid)⟩)

/-- The worker goes on as the call decides. -/
def World.progress (w : World κ S C V) (i : κ) (h : Handler S C V) : Progress S C V → World κ S C V
  | .call x => w.setHandler i (some { h with execution := some x })
  | .returned => w.setHandler i (some { h with execution := none })
  | .threw => w.setHandler i none

/-- A call of the running command, with the events that it appends. -/
def World.call (codec : Codec S V) (w : World κ S C V) (i : κ) (h : Handler S C V)
    (x : Execution S C V) (now : Timestamp) (ids : ℕ → String) (d : Delivery) : World κ S C V :=
  let (progress, db) := x.call codec ⟨w.queue.db, now, ids⟩ d
  let new := db.store.log.drop w.store.log.length
  let w := { w.setDb db with
    dispatched := w.dispatched ++ new.map fun e => (h.event, Client.recorded e) }
  w.progress i h progress

variable (codec : Codec S V) (opts : κ → PmWorkerOptions S C V)

/-- One step. -/
def step (w : World κ S C V) : Op κ S C V → Option (World κ S C V)
  | .queue op => (Queue.step w.queue op).map fun queue => { w with queue := queue }
  | .deleteSnapshot sourceUuid =>
    match Instructed.deleteSnapshot (some sourceUuid) w.store with
    | .ok st => some (w.setDb { w.queue.db with store := st })
    | .error _ => some w
  | .recordSnapshot now sourceUuid sourceType sourceVersion data metadata =>
    match Instructed.recordSnapshot now (some sourceUuid) (some sourceType) (some sourceVersion)
      (some data) metadata w.store with
    | .ok st => some (w.setDb { w.queue.db with store := st })
    | .error _ => some w
  | .handle i n commands =>
    match w.handlers i with
    | none => w.handle i n commands
    | some _ => none
  | .dispatch i uuid =>
    match w.handlers i with
    | some ⟨event, rest, none⟩ => some (w.dispatch (opts i) i ⟨event, rest, none⟩ uuid)
    | _ => none
  | .call i now ids d =>
    match w.handlers i with
    | some ⟨event, rest, some x⟩ => some (w.call codec i ⟨event, rest, some x⟩ x now ids d)
    | _ => none
  | .crash i => (w.handlers i).map fun _ => w.setHandler i none

/-- The workers on a fresh install. -/
def system : System (World κ S C V) (Op κ S C V) where
  init w := w = World.install
  step := step codec opts

end World

/-! ## The work queue -/

section Queue

variable {κ : Type} [DecidableEq κ] {codec : Codec S V} {opts : κ → PmWorkerOptions S C V}
  {w : World κ S C V} {i : κ} {x : RecordedEvent}

/-- The read of an event finds it. -/
theorem readAll_of_mem {st : Store} (hc : st.Consistent) (hx : x ∈ st.log) :
    Client.readAll x.eventNumber 1 st = .ok [Client.recorded x] := by
  obtain ⟨before, after, hlog⟩ := List.append_of_mem hx
  have hnumber := hc.log_eventNumber
  rw [hlog, Numbering.Consecutive.append_iff, Numbering.Consecutive.cons_iff] at hnumber
  have hdrop : st.log.drop (x.eventNumber - 1) = x :: after := by
    rw [hlog, hnumber.2.1, Nat.add_sub_cancel_left]
    exact List.drop_left
  have hread : readAll (some (x.eventNumber : ℤ)) (some (1 : ℕ)) st = _ :=
    readAll_eq hc Nat.one_pos
  show Client.mapRows (readAll (some (x.eventNumber : ℤ)) (some (1 : ℕ)) st) = _
  rw [hread, hdrop, Client.mapRows_ok]
  rfl

/-- **A worker of a process manager handles what an idle worker here can handle.** -/
theorem handle_of_phase {δ T K : Type} {P : Pm.PmDefinition δ T K} {keys : String → Bool}
    {number : Routing.JsNumber} {v : Processing.World (Pm.Pc T K) (Pm.Memory δ T) (Pm.PmAct T K)}
    {id : String} {wk : Processing.Worker (Pm.Pc T K) (Pm.Memory δ T) (Pm.PmAct T K)}
    {item : Processing.Item} (hv : Reachable (Processing.system P.routing (Pm.adapter P keys) number) v)
    (hwk : v.workers id = some wk) (hphase : wk.phase.event? = some (item, x))
    (hdb : w.queue.db = v.routing.queue.db) (hidle : w.handlers i = none)
    (commands : List (DispatchedCommand S C V)) :
    step codec opts w (.handle i item.eventNumber commands) =
      some (w.setHandler i (some ⟨Client.recorded x, commands, none⟩)) := by
  have hcalls := Pm.adapter_untargeted (P := P) keys
  have hc := (Processing.grounded_of_reachable hcalls hv).consistent.store
  have hread := readAll_of_mem hc (Processing.phase_mem_log hcalls hv hwk item x hphase)
  have hnumber := Processing.phase_event hv hwk item x hphase
  have hstore : w.store = v.routing.queue.db.store := congrArg Db.store hdb
  rw [← hnumber]
  unfold step
  dsimp only
  rw [hidle]
  dsimp only
  rw [World.handle, hstore, hread]
  exact if_pos rfl

end Queue

end Instructed.Dispatch
