import Instructed.Processing.Worker
import Instructed.Routing.ExactlyOnce

/-!
# The steps of the processing workers

What a step can do, said once.

* `Turn`: what the loop or the heartbeat of one worker does in one step, guards included;
* `step_cases`: **a step belongs to the routing workers, to the table of snapshots, to the life of a
  worker, or is a turn of one worker**;
* `workers_invariant`: what every turn keeps of the worker that takes it, every worker has.
-/

namespace Instructed.Processing

open Sql Relational Transition Routing

section Steps

variable {H M I A : Type} (D : RoutingDefinition) (adapter : Adapter H M I A)

/-- One turn of the worker `id`: the database and the routing workers, the worker, and the events on
    which its handler returned, after it. -/
inductive Turn (w : World H M A) (id : String) (wk : Worker H M A) :
    Routing.World String → Worker H M A → List (Item × RecordedEvent) → Prop
  | closing : Turn w id wk w.routing { wk with closing := true } []
  /-- The outer loop ends. -/
  | stopped : wk.phase = .claim → wk.ending = true →
      Turn w id wk w.routing { wk with phase := .stopped } []
  /-- The claim was lost on its way. -/
  | unclaimed : wk.phase = .claim → Turn w id wk w.routing { wk with phase := .claim } []
  | opened {queue : Queue.World String} : wk.phase = .claim → wk.ending = false →
      Queue.step w.routing.queue (.openClaim id) = some queue →
      Turn w id wk { w.routing with queue := queue } { wk with phase := .claiming } []
  /-- A claim that hands out nothing, or whose reply is an error. -/
  | empty {x : Input I} {queue : Queue.World String} : wk.phase = .claiming →
      Queue.step w.routing.queue (.claimItem id x.now x.locked (some D.stream) (some D.name) (some id)
        (some wk.leaseSeconds)) = some queue →
      Turn w id wk { w.routing with queue := queue } { wk with phase := .claim } []
  | claimed {x : Input I} {snapshot st : Store} {it : ClaimedItem} {queue : Queue.World String} :
      wk.phase = .claiming → w.routing.queue.snapshots id = some snapshot →
      claimWorkItem x.now snapshot x.locked (some D.stream) (some D.name) (some id)
        (some wk.leaseSeconds) w.store = .ok (some it, st) →
      Queue.step w.routing.queue (.claimItem id x.now x.locked (some D.stream) (some D.name) (some id)
        (some wk.leaseSeconds)) = some queue →
      Turn w id wk { w.routing with queue := queue }
        { wk with phase := .load ⟨it.partitionKey, it.eventNumber⟩ } []
  /-- The payload could not be read. -/
  | unread {item : Item} : wk.phase = .load item →
      Turn w id wk w.routing { wk with phase := .claim } []
  | loaded {item : Item} {e : RecordedEvent} {es : List RecordedEvent} : wk.phase = .load item →
      readAll (some item.eventNumber) (some 1) w.store = .ok (e :: es) →
      (e.eventNumber : ℤ) = item.eventNumber →
      Turn w id wk w.routing { wk with phase := .attempt item e 1, beat := .sleeping } []
  | gaveUp {item : Item} {e : RecordedEvent} {n : ℕ} : wk.phase = .attempt item e n →
      wk.ending = true → Turn w id wk w.routing { wk with phase := .settle item } []
  | began {item : Item} {e : RecordedEvent} {n : ℕ} : wk.phase = .attempt item e n →
      wk.ending = false → Turn w id wk w.routing
        { wk with phase := .handle item e n (adapter.start wk.memory item e) } []
  | ran {item : Item} {e : RecordedEvent} {n : ℕ} {h h' : H} {x : Input I} {r : HandlerStep H M A} :
      wk.phase = .handle item e n h → adapter.handle wk.memory item e h x w.store = r →
      r.ran = .running h' → Turn w id wk w.routing { wk with
        phase := .handle item e n h'
        memory := r.memory
        acts := wk.acts ++ r.acts.map (Act.handler item n) } []
  | threw {item : Item} {e : RecordedEvent} {n : ℕ} {h : H} {x : Input I} {r : HandlerStep H M A} :
      wk.phase = .handle item e n h → adapter.handle wk.memory item e h x w.store = r →
      r.ran = .threw → Turn w id wk w.routing { wk with
        phase := .policy item e n
        memory := r.memory
        acts := wk.acts ++ r.acts.map (Act.handler item n) } []
  /-- The handler returned, and `complete` makes its call. -/
  | returned {item : Item} {e : RecordedEvent} {n : ℕ} {h : H} {x : Input I} {r : HandlerStep H M A}
      {m : M} {call : Timestamp → Queue.Call} :
      wk.phase = .handle item e n h → adapter.handle wk.memory item e h x w.store = r →
      r.ran = .returned → adapter.complete id r.memory item e = (m, some call) →
      Turn w id wk w.routing { wk with
        phase := .complete item e call
        memory := m
        acts := wk.acts ++ r.acts.map (Act.handler item n) ++ [Act.completing item call] } [(item, e)]
  /-- The handler returned, and `complete` threw. -/
  | broken {item : Item} {e : RecordedEvent} {n : ℕ} {h : H} {x : Input I} {r : HandlerStep H M A}
      {m : M} :
      wk.phase = .handle item e n h → adapter.handle wk.memory item e h x w.store = r →
      r.ran = .returned → adapter.complete id r.memory item e = (m, none) →
      Turn w id wk w.routing { wk with
        phase := .settle item
        aborted := true
        memory := m
        acts := wk.acts ++ r.acts.map (Act.handler item n) } [(item, e)]
  | retry {item : Item} {e : RecordedEvent} {n : ℕ} : wk.phase = .policy item e n →
      Turn w id wk w.routing { wk with phase := .attempt item e (n + 1) } []
  | quit {item : Item} {e : RecordedEvent} {n : ℕ} : wk.phase = .policy item e n →
      Turn w id wk w.routing { wk with phase := .settle item, aborted := true } []
  | completed {item : Item} {e : RecordedEvent} {call : Timestamp → Queue.Call} {x : Input I}
      {r : Store × List Queue.Event} :
      wk.phase = .complete item e call → x.delivery = .answered → (call x.now).run w.store = .ok r →
      Turn w id wk (w.routing.call x.delivery (call x.now)) { wk with phase := .settle item } []
  /-- The call of `complete` failed, or its reply was lost. -/
  | refused {item : Item} {e : RecordedEvent} {call : Timestamp → Queue.Call} {x : Input I} :
      wk.phase = .complete item e call →
      Turn w id wk (w.routing.call x.delivery (call x.now))
        { wk with phase := .settle item, aborted := true } []
  | settled {item : Item} : wk.phase = .settle item → wk.beat = .off →
      Turn w id wk w.routing { wk with phase := .claim } []
  /-- The heartbeat sleeps, or ends. -/
  | beat {item : Item} {b : Beat} : wk.phase.item? = some item →
      Turn w id wk w.routing { wk with beat := b } []
  | extended {item : Item} {now : Timestamp} {d : Delivery} {b : Beat} {aborted : Bool} :
      wk.phase.item? = some item → (wk.aborted = true → aborted = true) →
      Turn w id wk (w.routing.call d (extendCall D id item wk.leaseSeconds now))
        { wk with beat := b, aborted := aborted } []
  /-- The heartbeat learns that the item is lost. -/
  | lost {item : Item} {now : Timestamp} {e : SqlError} : wk.phase.item? = some item →
      (extendCall D id item wk.leaseSeconds now).run w.store = .error e → e.sqlstate = .IS030 →
      Turn w id wk w.routing
        { wk with beat := .off, aborted := true, acts := wk.acts ++ [Act.lost item] } []

variable {D adapter} {w w' : World H M A} {id : String} {wk : Worker H M A}

/-- The world after a turn. -/
def World.afterTurn (w : World H M A) (id : String) (routing : Routing.World String)
    (wk : Worker H M A) (returned : List (Item × RecordedEvent)) : World H M A :=
  ⟨routing, Function.update w.workers id (some wk), w.returned ++ returned⟩

theorem afterTurn_nil (w : World H M A) (id : String) (routing : Routing.World String)
    (wk : Worker H M A) :
    w.afterTurn id routing wk [] = ({ w with routing := routing } : World H M A).setWorker id
      (some wk) := by
  rw [World.afterTurn, List.append_nil]
  rfl

/-- `w'` is the world after some turn of the worker. -/
def Turns (D : RoutingDefinition) (adapter : Adapter H M I A) (w : World H M A) (id : String)
    (wk : Worker H M A) (w' : World H M A) : Prop :=
  ∃ routing wk' returned, Turn D adapter w id wk routing wk' returned ∧
    w' = w.afterTurn id routing wk' returned

theorem Turn.turns {routing : Routing.World String} {wk' : Worker H M A}
    (h : Turn D adapter w id wk routing wk' []) :
    Turns D adapter w id wk (({ w with routing := routing } : World H M A).setWorker id (some wk')) :=
  ⟨routing, wk', [], h, (afterTurn_nil ..).symm⟩

theorem runClaim_turns {x : Input I} (hphase : wk.phase = .claiming)
    (h : w.runClaim D id wk x = some w') : Turns D adapter w id wk w' := by
  obtain ⟨snapshot, hsnapshot, h⟩ := Option.bind_eq_some_iff.mp h
  obtain ⟨w₁, hqueue, rfl⟩ := Option.map_eq_some_iff.mp h
  obtain ⟨queue, hstep, rfl⟩ := Option.map_eq_some_iff.mp hqueue
  dsimp only
  cases hreply : x.delivery.reply (claimWorkItem x.now snapshot x.locked (some D.stream)
      (some D.name) (some id) (some wk.leaseSeconds) w.store) with
  | error f => exact (Turn.empty hphase hstep).turns
  | ok r =>
    obtain ⟨item, st⟩ := r
    cases item with
    | none => exact (Turn.empty hphase hstep).turns
    | some it =>
      have hclaim := (Delivery.reply_ok hreply).2
      exact (Turn.claimed hphase hsnapshot hclaim hstep).turns

theorem load_turns {item : Item} (hphase : wk.phase = .load item) (d : Delivery) :
    Turns D adapter w id wk (w.load id wk item d) := by
  unfold World.load
  split
  · rename_i e es hreply
    split_ifs with hnumber
    · exact (Turn.loaded hphase (Delivery.reply_ok hreply).2 hnumber).turns
    · exact (Turn.unread hphase).turns
  · exact (Turn.unread hphase).turns

theorem handle_turns {item : Item} {e : RecordedEvent} {n : ℕ} {h : H}
    (hphase : wk.phase = .handle item e n h) (x : Input I) :
    Turns D adapter w id wk (w.handle adapter id wk item e n h x) := by
  unfold World.handle
  dsimp only
  split
  · rename_i h' hran
    exact (Turn.ran hphase rfl hran).turns
  · rename_i hran
    exact (Turn.threw hphase rfl hran).turns
  · rename_i hran
    split
    · rename_i call hcall
      exact ⟨_, _, _, Turn.returned hphase rfl hran (Prod.ext rfl hcall), rfl⟩
    · rename_i hcall
      exact ⟨_, _, _, Turn.broken hphase rfl hran (Prod.ext rfl hcall), rfl⟩

theorem complete_turns {item : Item} {e : RecordedEvent} {call : Timestamp → Queue.Call}
    (hphase : wk.phase = .complete item e call) (x : Input I) :
    Turns D adapter w id wk (w.complete id wk item call x) := by
  unfold World.complete
  dsimp only
  split
  · rename_i r hreply
    obtain ⟨hd, hrun⟩ := Delivery.reply_ok hreply
    exact (Turn.completed hphase hd hrun).turns
  · exact (Turn.refused hphase).turns

theorem advance_turns {x : Input I} (h : w.advance D adapter id wk x = some w') :
    Turns D adapter w id wk w' := by
  unfold World.advance at h
  split at h
  · rename_i hphase
    unfold World.claim at h
    split_ifs at h with hending harrives
    · obtain rfl := Option.some.inj h
      exact (Turn.stopped hphase hending).turns
    · obtain ⟨w₁, hqueue, rfl⟩ := Option.map_eq_some_iff.mp h
      obtain ⟨queue, hstep, rfl⟩ := Option.map_eq_some_iff.mp hqueue
      exact (Turn.opened hphase (Bool.eq_false_of_not_eq_true hending) hstep).turns
    · obtain rfl := Option.some.inj h
      exact (Turn.unclaimed hphase).turns
  · rename_i hphase
    exact runClaim_turns hphase h
  · rename_i item hphase
    obtain rfl := Option.some.inj h
    exact load_turns hphase _
  · rename_i item e n hphase
    obtain rfl := Option.some.inj h
    unfold World.attempt
    split_ifs with hending
    · exact (Turn.gaveUp hphase hending).turns
    · exact (Turn.began hphase (Bool.eq_false_of_not_eq_true hending)).turns
  · rename_i hphase
    obtain rfl := Option.some.inj h
    exact handle_turns hphase x
  · rename_i hphase
    obtain rfl := Option.some.inj h
    unfold World.decide
    split
    · exact (Turn.retry hphase).turns
    · exact (Turn.quit hphase).turns
    · exact (Turn.quit hphase).turns
  · rename_i hphase
    obtain rfl := Option.some.inj h
    exact complete_turns hphase x
  · rename_i hphase
    unfold World.settle at h
    split_ifs at h with hbeat
    obtain rfl := Option.some.inj h
    exact (Turn.settled hphase hbeat).turns
  · cases h

theorem extend_turns {item : Item} {now : Timestamp} {d : Delivery} {again : Worker H M A}
    {b : Beat} {aborted : Bool} (hitem : wk.phase.item? = some item)
    (hagain : again = { wk with beat := b, aborted := aborted })
    (haborted : wk.aborted = true → aborted = true) :
    Turns D adapter w id wk (w.extend D id wk item now d again) := by
  subst hagain
  unfold World.extend
  dsimp only
  split
  · exact (Turn.extended hitem fun h => h).turns
  · rename_i f hreply
    split_ifs with hlost
    · cases d with
      | answered =>
        cases hrun : (extendCall D id item wk.leaseSeconds now).run w.store with
        | ok r =>
          rw [hrun] at hreply
          cases hreply
        | error e =>
          rw [hrun] at hreply
          obtain rfl := Except.error.inj hreply
          rw [Routing.World.call_of_error hrun]
          exact (Turn.lost hitem hrun (by simpa [isLost] using hlost)).turns
      | replyLost =>
        obtain rfl := Except.error.inj hreply
        cases hlost
      | callLost =>
        obtain rfl := Except.error.inj hreply
        cases hlost
    · exact (Turn.extended hitem haborted).turns

theorem beat_turns {now : Timestamp} {d : Delivery} (h : w.beat D id wk now d = some w') :
    Turns D adapter w id wk w' := by
  obtain ⟨item, hitem, h⟩ := Option.bind_eq_some_iff.mp h
  split at h
  · cases h
  · obtain rfl := Option.some.inj h
    exact (Turn.beat hitem).turns
  · obtain rfl := Option.some.inj h
    exact extend_turns hitem rfl fun h => h
  · obtain rfl := Option.some.inj h
    exact (Turn.beat hitem).turns
  · obtain rfl := Option.some.inj h
    exact extend_turns hitem rfl fun _ => rfl

/-- The heartbeat adds at most a loss to what the worker did. -/
theorem beat_acts {now : Timestamp} {d : Delivery} (h : w.beat D id wk now d = some w') :
    ∃ wk', w'.workers = Function.update w.workers id (some wk') ∧
      (wk'.acts = wk.acts ∨ ∃ item, wk'.acts = wk.acts ++ [Act.lost item]) := by
  have hextend : ∀ {item : Item} {again : Worker H M A}, again.acts = wk.acts →
      ∃ wk', (w.extend D id wk item now d again).workers = Function.update w.workers id (some wk') ∧
        (wk'.acts = wk.acts ∨ ∃ item, wk'.acts = wk.acts ++ [Act.lost item]) := by
    intro item again hagain
    unfold World.extend
    dsimp only
    split
    · exact ⟨_, rfl, Or.inl rfl⟩
    · split_ifs
      · exact ⟨_, rfl, Or.inr ⟨item, rfl⟩⟩
      · exact ⟨again, rfl, Or.inl hagain⟩
  obtain ⟨item, -, h⟩ := Option.bind_eq_some_iff.mp h
  split at h
  · cases h
  · obtain rfl := Option.some.inj h
    exact ⟨_, rfl, Or.inl rfl⟩
  · obtain rfl := Option.some.inj h
    exact hextend rfl
  · obtain rfl := Option.some.inj h
    exact ⟨_, rfl, Or.inl rfl⟩
  · obtain rfl := Option.some.inj h
    exact hextend rfl

variable {number : JsNumber}

/-- The steps. -/
inductive StepBy (D : RoutingDefinition) (adapter : Adapter H M I A) (number : JsNumber)
    (w : World H M A) : World H M A → Prop
  | routing {op : Routing.Op String} {routing : Routing.World String} : admits op = true →
      Routing.step D number w.routing op = some routing →
      StepBy D adapter number w { w with routing := routing }
  /-- The snapshots of the handlers were at most deleted. -/
  | snapshots {snapshots : Table SnapshotRow.sourceUuid} :
      (∀ u row, adapter.owns u = true → snapshots.find? u = some row →
        w.store.snapshots.find? u = some row) →
      StepBy D adapter number w { w with routing := w.routing.setSnapshots snapshots }
  | started {id : String} {leaseSeconds : ℤ} {memory : M} : w.workers id = none →
      StepBy D adapter number w (w.setWorker id (some (.start leaseSeconds memory)))
  | crashed {id : String} {wk : Worker H M A} : w.workers id = some wk →
      StepBy D adapter number w (w.crash id)
  | turn {id : String} {wk : Worker H M A} {w' : World H M A} : w.workers id = some wk →
      Turns D adapter w id wk w' → StepBy D adapter number w w'

theorem step_cases {op : Op M I} (h : step D adapter number w op = some w') :
    StepBy D adapter number w w' := by
  have hsame : StepBy D adapter number w w := by
    have hself : StepBy D adapter number w
        { w with routing := w.routing.setSnapshots w.store.snapshots } :=
      .snapshots fun _ _ _ hrow => hrow
    exact hself
  cases op with
  | routing op =>
    simp only [step] at h
    split_ifs at h with hadmits
    obtain ⟨routing, hstep, rfl⟩ := Option.map_eq_some_iff.mp h
    exact .routing hadmits hstep
  | deleteSnapshot sourceUuid =>
    obtain rfl := Option.some.inj h
    refine .snapshots fun u row _ hrow => ?_
    change (w.store.snapshots.deleteWhere _).find? u = some row at hrow
    rw [Table.find?_deleteWhere, Option.filter_eq_some_iff] at hrow
    exact hrow.1
  | recordSnapshot now sourceUuid sourceType sourceVersion data metadata =>
    simp only [step] at h
    split_ifs at h with howns
    split at h
    · rename_i st hst
      obtain rfl := Option.some.inj h
      obtain ⟨u', t, v, d, hu', -, -, -, -, rfl⟩ := recordSnapshot_ok hst
      cases hu'
      refine .snapshots fun u row hu hrow => ?_
      change (w.store.snapshots.put _).find? u = some row at hrow
      rw [Table.find?_put, if_neg (fun heq => howns (by rw [show sourceUuid = u from heq]; exact hu))]
        at hrow
      exact hrow
    · obtain rfl := Option.some.inj h
      exact hsame
  | start id leaseSeconds memory =>
    simp only [step] at h
    split at h
    · rename_i hnone
      obtain rfl := Option.some.inj h
      exact .started hnone
    · cases h
  | stop id =>
    obtain ⟨wk, hwk, rfl⟩ := Option.map_eq_some_iff.mp h
    exact .turn hwk (Turn.closing (D := D)).turns
  | crash id =>
    obtain ⟨wk, hwk, rfl⟩ := Option.map_eq_some_iff.mp h
    exact .crashed hwk
  | advance id x =>
    obtain ⟨wk, hwk, h⟩ := Option.bind_eq_some_iff.mp h
    exact .turn hwk (advance_turns h)
  | beat id now d =>
    obtain ⟨wk, hwk, h⟩ := Option.bind_eq_some_iff.mp h
    exact .turn hwk (beat_turns h)

/-- What holds of every new worker, what every turn gives the worker that takes it, and what no step
    takes from a worker, holds of every worker. -/
theorem workers_invariant_after {C : World H M A → Op M I → Prop}
    {P : World H M A → String → Worker H M A → Prop}
    (hstart : ∀ w id leaseSeconds memory, P w id (.start leaseSeconds memory))
    (hturn : ∀ w op id wk routing wk' returned, ReachableWhen (system D adapter number) C w →
      step D adapter number w op = some (w.afterTurn id routing wk' returned) →
      w.workers id = some wk → P w id wk → Turn D adapter w id wk routing wk' returned →
      P (w.afterTurn id routing wk' returned) id wk')
    (hkept : ∀ w op w', ReachableWhen (system D adapter number) C w →
      step D adapter number w op = some w' → ∀ id wk, P w id wk → P w' id wk)
    (hw : ReachableWhen (system D adapter number) C w) :
    ∀ id wk, w.workers id = some wk → P w id wk := by
  refine hw.invariant_of_reachable (P := fun w => ∀ id wk, w.workers id = some wk → P w id wk) ?_
    fun s op s' hs ih _ hstep => ?_
  · rintro _ rfl id wk hwk
    cases hwk
  · intro i wk hwk
    have hold : s.workers i = some wk → P s' i wk := fun hwk =>
      hkept s op s' hs hstep i wk (ih i wk hwk)
    cases step_cases hstep with
    | routing _ _ => exact hold hwk
    | snapshots _ => exact hold hwk
    | started _ =>
      simp only [World.setWorker, Function.update_apply] at hwk
      split_ifs at hwk
      · cases hwk
        exact hstart ..
      · exact hold hwk
    | crashed _ =>
      simp only [World.crash, Function.update_apply] at hwk
      split_ifs at hwk
      exact hold hwk
    | turn hid hturns =>
      obtain ⟨routing, wk', returned, ht, rfl⟩ := hturns
      have hafter := hwk
      simp only [World.afterTurn, Function.update_apply] at hafter
      split_ifs at hafter with heq
      · cases hafter
        subst heq
        exact hturn s op _ _ _ _ _ hs hstep hid (ih _ _ hid) ht
      · exact hold hafter

/-- As `workers_invariant_after`, for what a turn gives its worker in the world before it. -/
theorem workers_invariant_of_world {C : World H M A → Op M I → Prop}
    {P : World H M A → String → Worker H M A → Prop}
    (hstart : ∀ w id leaseSeconds memory, P w id (.start leaseSeconds memory))
    (hturn : ∀ w id wk routing wk' returned, ReachableWhen (system D adapter number) C w →
      w.workers id = some wk → P w id wk → Turn D adapter w id wk routing wk' returned → P w id wk')
    (hkept : ∀ w op w', ReachableWhen (system D adapter number) C w →
      step D adapter number w op = some w' → ∀ id wk, P w id wk → P w' id wk)
    (hw : ReachableWhen (system D adapter number) C w) :
    ∀ id wk, w.workers id = some wk → P w id wk :=
  workers_invariant_after hstart
    (fun w op id wk routing wk' returned hr hstep hwk hp ht =>
      hkept w op _ hr hstep id wk' (hturn w id wk routing wk' returned hr hwk hp ht)) hkept hw

/-- **What every turn keeps of the worker that takes it, every worker has.** -/
theorem workers_invariant {C : World H M A → Op M I → Prop} {P : String → Worker H M A → Prop}
    (hstart : ∀ id leaseSeconds memory, P id (.start leaseSeconds memory))
    (hturn : ∀ w id wk routing wk' returned, P id wk →
      Turn D adapter w id wk routing wk' returned → P id wk')
    (hw : ReachableWhen (system D adapter number) C w) :
    ∀ id wk, w.workers id = some wk → P id wk :=
  workers_invariant_of_world (P := fun _ => P) (fun _ => hstart)
    (fun w id wk routing wk' returned _ _ => hturn w id wk routing wk' returned)
    (fun _ _ _ _ _ _ _ h => h) hw

end Steps

end Instructed.Processing
