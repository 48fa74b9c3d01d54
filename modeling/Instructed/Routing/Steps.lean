import Instructed.Routing.Worker

/-!
# The steps of the routing workers

What a step can do, said once.

* `Move`: what one worker does in one step, guards included;
* `step_cases`: **a step is one of the work queue, starts or ends a worker, or is a move of one
  worker**;
* `step_queue`: for the work queue, a step is one of its own, or nothing.
-/

namespace Instructed.Routing

open Sql Relational Transition

/-- The cursor that the worker claimed, until its batch is committed or dropped. -/
def Phase.lastSeen? : Phase → Option ℕ
  | .read lastSeen | .route lastSeen _ _ | .decide lastSeen _ _ _ | .commit lastSeen _ _ =>
    some lastSeen
  | _ => none

section Calls

theorem Delivery.reply_ok {α : Type} {d : Delivery} {result : Except SqlError α} {a : α}
    (h : d.reply result = .ok a) : d = .answered ∧ result = .ok a := by
  cases d with
  | answered =>
    cases result with
    | ok _ => exact ⟨rfl, congrArg Except.ok (Except.ok.inj h)⟩
    | error _ => cases h
  | _ => cases h

variable {κ : Type} {w : World κ} {d : Delivery} {c : Queue.Call}

theorem World.call_of_error {e : SqlError} (h : c.run w.store = .error e) : w.call d c = w := by
  rw [World.call, h]
  split_ifs <;> rfl

theorem World.call_of_lost (h : d.arrives = false) : w.call d c = w := by
  rw [World.call, h]
  rfl

theorem World.call_of_ok {r : Store × List Queue.Event} (harrives : d.arrives = true)
    (h : c.run w.store = .ok r) :
    w.call d c = { w with queue := w.queue.commit (.ok r) } := by
  rw [World.call, harrives, h]
  rfl

theorem World.call_workers (w : World κ) (d : Delivery) (c : Queue.Call) :
    (w.call d c).workers = w.workers := by
  unfold World.call
  split_ifs <;> rfl

theorem World.call_queue [DecidableEq κ] (w : World κ) (d : Delivery) (c : Queue.Call) :
    (w.call d c).queue = w.queue ∨ Queue.step w.queue (.call c) = some (w.call d c).queue := by
  unfold World.call
  split_ifs
  · exact Or.inr rfl
  · exact Or.inl rfl

end Calls

section Steps

variable {κ : Type} (D : RoutingDefinition) (number : JsNumber)

/-- The world after the call of a claim. -/
def World.afterClaim (w : World κ) (id : String) (o : RoutingWorkerOptions) (now : Timestamp)
    (d : Delivery) : World κ :=
  let w' := w.call d (D.claimCall id o now)
  { w' with start := w.start.or ((D.row w'.store).map SubscriptionRow.lastSeen) }

/-- One move of the worker `id`: the world and the worker after it. -/
inductive Move (w : World κ) (id : String) (wk : Worker) : World κ → Worker → Prop
  | closing : Move w id wk w { wk with closing := true }
  /-- The worker drops its batch, or has none. -/
  | dropped {wk' : Worker} : wk'.phase.lastSeen? = none → Move w id wk w wk'
  | claimed {now : Timestamp} {r : ClaimResult} {st : Store} : wk.phase = .claim →
      claimSubscription now (some D.stream) (some D.name) (some id) (some wk.opts.leaseSeconds)
        (some wk.opts.claimOptions) w.store = .ok (r, st) → r.result = .claimed →
      Move w id wk (w.afterClaim D id wk.opts now .answered)
        { wk with phase := .read r.lastSeen, holdingLease := true }
  | unclaimed {now : Timestamp} {d : Delivery} {wk' : Worker} : wk.phase = .claim →
      wk'.phase.lastSeen? = none →
      Move w id wk (w.afterClaim D id wk.opts now d) wk'
  | read {lastSeen : ℕ} {e : RecordedEvent} {batch : List RecordedEvent} : wk.phase = .read lastSeen →
      D.read lastSeen wk.opts w.store = .ok (e :: batch) →
      Move w id wk w { wk with phase := .route lastSeen (e :: batch) .empty }
  | inspected {lastSeen : ℕ} {e : RecordedEvent} {rest : List RecordedEvent} {r : Routed} :
      wk.phase = .route lastSeen (e :: rest) r →
      Move w id wk { w with inspected := w.inspected ++ [e.eventNumber] }
        { wk with phase := .decide lastSeen e rest r }
  | ignored {lastSeen : ℕ} {e : RecordedEvent} {rest : List RecordedEvent} {r : Routed} :
      wk.phase = .decide lastSeen e rest r → D.routeFn e = .ignore →
      Move w id wk w { wk with
        phase := .route lastSeen rest ⟨r.seen ++ [e], r.decisions, some e.eventNumber⟩ }
  | partitioned {lastSeen : ℕ} {e : RecordedEvent} {rest : List RecordedEvent} {r : Routed}
      {p : String} : wk.phase = .decide lastSeen e rest r → D.routeFn e = .partition p →
      Move w id wk w { wk with
        phase := .route lastSeen rest
          ⟨r.seen ++ [e], r.decisions ++ [(p, e.eventNumber)], some e.eventNumber⟩ }
  | batched {lastSeen n : ℕ} {r : Routed} : wk.phase = .route lastSeen [] r → r.cursorTo = some n →
      Move w id wk w { wk with phase := .commit lastSeen r n }
  | committed {lastSeen n : ℕ} {r : Routed} {d : Delivery} {res : (ℕ × ℕ) × Store} {wk' : Worker} :
      wk.phase = .commit lastSeen r n → d.arrives = true →
      routeBatch (some D.stream) (some D.name) (some id) (some n)
        (some (decisionsPayload number r.decisions)) w.store = .ok res →
      wk'.phase.lastSeen? = none →
      Move w id wk { w.call d (D.routeCall number id r n) with committed := w.committed ++ r.seen } wk'
  | released {d : Delivery} {wk' : Worker} : wk'.phase.lastSeen? = none →
      Move w id wk (w.call d (D.releaseCall id)) wk'

/-- The steps. -/
inductive StepMove [DecidableEq κ] (w : World κ) (op : Op κ) : World κ → Prop
  | queue {q : Queue.Op κ} {queue : Queue.World κ} : op = .queue q → D.targets w.store q = false →
      Queue.step w.queue q = some queue → StepMove w op { w with queue := queue }
  | started {id : String} {opts : RoutingWorkerOptions} : w.workers id = none →
      StepMove w op (w.setWorker id (some (.start opts)))
  | crashed {id : String} : StepMove w op (w.setWorker id none)
  | moved {id : String} {wk wk' : Worker} {x : World κ} : w.workers id = some wk →
      Move D number w id wk x wk' → StepMove w op (x.setWorker id (some wk'))

variable {D number} {w w' x : World κ} {op : Op κ} {id : String} {wk wk' : Worker}

/-- `w'` is the world after some move of the worker. -/
def Moved (D : RoutingDefinition) (number : JsNumber) (w : World κ) (id : String) (wk : Worker)
    (w' : World κ) : Prop :=
  ∃ x wk', Move D number w id wk x wk' ∧ w' = x.setWorker id (some wk')

theorem Move.moved (h : Move D number w id wk x wk') :
    Moved D number w id wk (x.setWorker id (some wk')) :=
  ⟨x, wk', h, rfl⟩

theorem claim_moved (hphase : wk.phase = .claim) (now : Timestamp) (d : Delivery) :
    Moved D number w id wk (w.claim D id wk now d) := by
  unfold World.claim
  split_ifs
  · exact (Move.dropped rfl).moved
  · dsimp only
    split
    · rename_i r st hreply
      obtain ⟨rfl, hclaim⟩ := Delivery.reply_ok hreply
      split
      · rename_i hresult
        exact (Move.claimed hphase hclaim hresult).moved
      · exact (Move.unclaimed hphase rfl).moved
    · exact (Move.unclaimed hphase rfl).moved

theorem read_moved {lastSeen : ℕ} (hphase : wk.phase = .read lastSeen) (d : Delivery) :
    Moved D number w id wk (w.read D id wk lastSeen d) := by
  unfold World.read
  split_ifs
  · exact (Move.dropped rfl).moved
  · split
    · exact (Move.dropped rfl).moved
    · exact (Move.dropped rfl).moved
    · rename_i hreply
      exact (Move.read hphase (Delivery.reply_ok hreply).2).moved

theorem route_moved {lastSeen : ℕ} {rest : List RecordedEvent} {r : Routed}
    (hphase : wk.phase = .route lastSeen rest r) :
    Moved D number w id wk (w.route id wk lastSeen rest r) := by
  unfold World.route
  split
  · split
    · exact (Move.dropped rfl).moved
    · rename_i hcursor
      exact (Move.batched hphase hcursor).moved
  · split_ifs
    · exact (Move.dropped rfl).moved
    · exact (Move.inspected hphase).moved

theorem decide_moved {lastSeen : ℕ} {e : RecordedEvent} {rest : List RecordedEvent} {r : Routed}
    (hphase : wk.phase = .decide lastSeen e rest r) :
    Moved D number w id wk (w.decide D id wk lastSeen e rest r) := by
  unfold World.decide
  dsimp only
  split
  · exact (Move.dropped rfl).moved
  · exact (Move.dropped rfl).moved
  · rename_i hroute
    split_ifs
    · exact (Move.dropped rfl).moved
    · exact (Move.ignored hphase hroute).moved
  · rename_i hroute
    split_ifs
    · exact (Move.dropped rfl).moved
    · exact (Move.partitioned hphase hroute).moved

theorem commit_moved {lastSeen n : ℕ} {r : Routed} (hphase : wk.phase = .commit lastSeen r n)
    (d : Delivery) : Moved D number w id wk (w.commit D number id wk r n d) := by
  have hmoved : ∀ wk' : Worker, wk'.phase.lastSeen? = none →
      Moved D number w id wk ((if (d.arrives && (routeBatch (some D.stream) (some D.name)
          (some id) (some n) (some (decisionsPayload number r.decisions)) w.store).isOk) = true
        then { w.call d (D.routeCall number id r n) with committed := w.committed ++ r.seen }
        else w.call d (D.routeCall number id r n)).setWorker id (some wk')) := by
    intro wk' hnone
    cases hres : routeBatch (some D.stream) (some D.name) (some id) (some n)
        (some (decisionsPayload number r.decisions)) w.store with
    | ok res =>
      cases harrives : d.arrives with
      | true => exact (Move.committed hphase harrives hres hnone).moved
      | false =>
        rw [World.call_of_lost harrives]
        exact (Move.dropped hnone).moved
    | error e =>
      have hrun : (D.routeCall number id r n).run w.store = .error e := by
        rw [RoutingDefinition.routeCall, Queue.Call.run, hres]
        rfl
      rw [World.call_of_error hrun, Except.isOk, Except.toBool, Bool.and_false]
      exact (Move.dropped hnone).moved
  unfold World.commit
  dsimp only
  split
  · exact hmoved _ rfl
  · rename_i f _
    by_cases hlost : f.isLeaseLoss = true
    · rw [if_pos hlost]
      exact hmoved _ rfl
    · rw [if_neg hlost]
      exact hmoved _ rfl

theorem release_moved (next : Next) (d : Delivery) :
    Moved D number w id wk (w.release D id wk next d) := by
  unfold World.release
  dsimp only
  cases next
  all_goals
    split_ifs
    · exact (Move.released rfl).moved
    · exact (Move.dropped rfl).moved

theorem advance_moved {now : Timestamp} {d : Delivery}
    (h : w.advance D number id wk now d = some w') : Moved D number w id wk w' := by
  unfold World.advance at h
  split at h
  all_goals rename_i hphase
  · exact Option.some.inj h ▸ claim_moved hphase now d
  · exact Option.some.inj h ▸ read_moved hphase d
  · exact Option.some.inj h ▸ route_moved hphase
  · exact Option.some.inj h ▸ decide_moved hphase
  · exact Option.some.inj h ▸ commit_moved hphase d
  · exact Option.some.inj h ▸ release_moved _ d
  · cases h

/-- A move of a worker leaves the other workers alone. -/
theorem Move.workers (h : Move D number w id wk x wk') : x.workers = w.workers := by
  cases h with
  | claimed _ _ _ => exact w.call_workers _ _
  | unclaimed _ _ => exact w.call_workers _ _
  | committed _ _ _ _ => exact w.call_workers _ _
  | released _ => exact w.call_workers _ _
  | _ => rfl

variable [DecidableEq κ]

theorem step_cases (h : step D number w op = some w') : StepMove D number w op w' := by
  cases op with
  | queue op =>
    simp only [step] at h
    split_ifs at h with htargets
    obtain ⟨queue, hqueue, rfl⟩ := Option.map_eq_some_iff.mp h
    exact .queue rfl (Bool.eq_false_of_not_eq_true htargets) hqueue
  | start id opts =>
    simp only [step] at h
    split at h
    · rename_i hnone
      exact Option.some.inj h ▸ .started hnone
    · cases h
  | close id =>
    simp only [step] at h
    split at h
    · rename_i hwk
      exact Option.some.inj h ▸ .moved hwk .closing
    · cases h
  | crash id =>
    simp only [step] at h
    split at h
    · exact Option.some.inj h ▸ .crashed
    · cases h
  | advance id now d =>
    simp only [step] at h
    split at h
    · rename_i hwk
      obtain ⟨x, wk', hmove, rfl⟩ := advance_moved h
      exact .moved hwk hmove
    · cases h

/-- What a move does to the work queue. -/
theorem Move.queue (h : Move D number w id wk x wk') :
    x.queue = w.queue ∨ ∃ op, Queue.step w.queue op = some x.queue := by
  have hcall : ∀ d c, (w.call d c).queue = w.queue ∨
      ∃ op, Queue.step w.queue op = some (w.call d c).queue := fun d c =>
    (w.call_queue d c).imp_right fun h => ⟨_, h⟩
  cases h with
  | claimed _ _ _ => exact hcall _ _
  | unclaimed _ _ => exact hcall _ _
  | committed _ _ _ _ => exact hcall _ _
  | released _ => exact hcall _ _
  | _ => exact Or.inl rfl

/-- **A step of the routing system is a step of the work queue, or leaves it alone.** -/
theorem step_queue (h : step D number w op = some w') :
    w'.queue = w.queue ∨ ∃ q, Queue.step w.queue q = some w'.queue := by
  cases step_cases h with
  | queue _ _ hqueue => exact Or.inr ⟨_, hqueue⟩
  | started _ => exact Or.inl rfl
  | crashed => exact Or.inl rfl
  | moved _ hmove => exact hmove.queue

end Steps

end Instructed.Routing
