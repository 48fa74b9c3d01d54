import Instructed.Processing.Steps
import Instructed.Queue.Accounted
import Instructed.Routing.CaughtUp

/-!
# Processing beside routing

The processing workers claim, extend and complete work items, which routing does not mind.

* `Adapter.Untargeted`: the calls of `complete` neither claim nor release a subscription, nor route;
* `RoutingBy`, `step_routing`: **for the routing workers, a step is one of their own, one of the work
  queue, a change of the table of snapshots, or the rollback of a claim that was open**;
* `grounded_of_reachable`, `step_log`: the database stays in order, and the log only grows;
* `Effect`, `step_effect`: **what a step does to the tables**;
* `phase_event`: the event at hand is the one that the work item names.
-/

namespace Instructed.Processing

open Sql Relational Transition Routing

section Invariant

variable {H M I A : Type} {D : RoutingDefinition} {adapter : Adapter H M I A} {number : JsNumber}
  {w w' : World H M A} {id : String} {wk : Worker H M A}

/-- The calls of `complete` neither claim nor release a subscription, nor route for one. -/
def Adapter.Untargeted (adapter : Adapter H M I A) : Prop :=
  ∀ id m item e m' call, adapter.complete id m item e = (m', some call) →
    ∀ now st, Queue.Call.target st (call now) = none

/-- What a step does to the database and the routing workers. -/
inductive RoutingBy (D : RoutingDefinition) (number : JsNumber) (r : Routing.World String) :
    Routing.World String → Prop
  | same : RoutingBy D number r r
  | step {op : Routing.Op String} {r' : Routing.World String} :
      Routing.step D number r op = some r' → RoutingBy D number r r'
  | snapshots {snapshots : Table SnapshotRow.sourceUuid} :
      RoutingBy D number r (r.setSnapshots snapshots)
  /-- The open claim of a worker that crashed is rolled back. -/
  | rolledBack {id : String} : RoutingBy D number r { r with queue := { r.queue with
      snapshots := Function.update r.queue.snapshots id none } }

section RoutingBy

variable {r r' : Routing.World String}

theorem setSnapshots_sameEvents (r : Routing.World String) (snapshots : Table SnapshotRow.sourceUuid) :
    r.store.SameEvents (r.setSnapshots snapshots).store :=
  ⟨rfl, rfl, rfl⟩

theorem routing_queue {op : Queue.Op String} {queue : Queue.World String}
    (htarget : op.target r.store = none) (h : Queue.step r.queue op = some queue) :
    RoutingBy D number r { r with queue := queue } := by
  have htargets : D.targets r.store op = false := by
    unfold RoutingDefinition.targets
    split
    · simp [htarget]
    · rfl
  have hstep : Routing.step D number r (.queue op) = some { r with queue := queue } := by
    rw [Routing.step, htargets, h]
    rfl
  exact .step hstep

theorem routing_call {c : Queue.Call} (htarget : c.target r.store = none) (d : Delivery) :
    RoutingBy D number r (r.call d c) := by
  unfold Routing.World.call
  split_ifs
  · have htarget' : (Queue.Op.call c : Queue.Op String).target r.store = none := htarget
    exact routing_queue htarget' rfl
  · exact .same

theorem RoutingBy.grounded (h : RoutingBy D number r r') (hg : Queue.Grounded r.queue) :
    Queue.Grounded r'.queue := by
  cases h with
  | same => exact hg
  | step h => exact Routing.step_grounded hg h
  | snapshots =>
    obtain ⟨⟨hstore, hpos, hseq⟩, ⟨⟨hholder, howned, hkeyed, htracked⟩, honce⟩, hstreams⟩ := hg
    exact ⟨⟨(setSnapshots_sameEvents r _).consistent hstore, hpos, hseq⟩,
      ⟨⟨hholder, howned, hkeyed, htracked⟩, honce⟩, hstreams⟩
  | rolledBack => exact ⟨hg.consistent, ⟨hg.history.tracked, hg.history.once⟩, hg.streams⟩

/-- The log only grows. -/
theorem RoutingBy.log (h : RoutingBy D number r r') (hg : Queue.Grounded r.queue) :
    r.store.log <+: r'.store.log := by
  cases h with
  | same => exact List.prefix_refl _
  | step h => exact Routing.step_log hg h
  | @snapshots snapshots =>
    rw [(setSnapshots_sameEvents r snapshots).log]
  | rolledBack => exact List.prefix_refl _

/-- The invariant of routing from `$all`. -/
theorem RoutingBy.inv (h : RoutingBy D number r r') (hD : D.stream = "$all") (hinv : Inv D r)
    (hbound : r.store.log.length < 2 ^ 53) : Inv D r' := by
  have hg := h.grounded hinv.grounded
  cases h with
  | same => exact hinv
  | step h => exact hinv.step hbound (Or.inl hD) h
  | snapshots =>
    refine ⟨hg, hinv.phases, hinv.held, hinv.fresh, fun row hrow => ?_⟩
    obtain ⟨start, hstart, hp⟩ := hinv.progress row hrow
    exact ⟨start, hstart, hp.taken, hp.le, hp.tail, hp.all, hp.inspected, hp.items, hp.inserted⟩
  | rolledBack => exact ⟨hg, hinv.phases, hinv.held, hinv.fresh, hinv.progress⟩

theorem RoutingBy.settled {target : ℕ} (h : RoutingBy D number r r') (hD : D.stream = "$all")
    (hinv : Inv D r) (hbound : r.store.log.length < 2 ^ 53) (hs : Settled D target r) :
    Settled D target r' := by
  have hinv' := h.inv hD hinv hbound
  cases h with
  | step h => exact hs.step hinv hinv' hD h
  | _ => exact hs

theorem RoutingBy.decided (h : RoutingBy D number r r') (hd : Decided D r) : Decided D r' := by
  cases h with
  | step h => exact hd.step h
  | _ => exact ⟨hd.committed, hd.passed⟩

theorem RoutingBy.accounted (h : RoutingBy D number r r')
    (ha : Queue.Accounted r.store r.queue.events) : Queue.Accounted r'.store r'.queue.events := by
  cases h with
  | step h =>
    rcases Routing.step_queue h with heq | ⟨q, hq⟩
    · rw [Routing.World.store, heq]
      exact ha
    · exact ha.step hq
  | _ => exact ha

/-- A subscription stays, and its cursor never falls. -/
theorem RoutingBy.lastSeen_le (h : RoutingBy D number r r') (hg : Queue.Grounded r.queue)
    {row : SubscriptionRow} (hrow : D.row r.store = some row) :
    ∃ row', D.row r'.store = some row' ∧ row'.pkey = row.pkey ∧ row.lastSeen ≤ row'.lastSeen := by
  cases h with
  | step h => exact Routing.step_lastSeen_le hg h hrow
  | _ => exact ⟨row, hrow, rfl, le_rfl⟩

end RoutingBy

/-- The parameters of the calls on an item name its row. -/
theorem named_itemArgs (D : RoutingDefinition) (id : String) (item : Item) (st : Store) :
    Queue.named (itemArgs D id item) st = (Queue.subscriptionKey st D.stream D.name).map fun key =>
      (id, key, item.partitionKey, item.eventNumber) := by
  simp only [Queue.named, itemArgs, Queue.subscriptionKey, Option.bind_eq_bind, Option.bind_some]
  cases st.streamByUuid D.stream <;> rfl

/-- Who may complete the item holds its row. -/
theorem held_itemArgs {proc : String} {item : Item} {st : Store} {r : ItemRef} {key : Queue.Key}
    {row : WorkItemRow} (h : Held proc (itemArgs D id item) st r key row) :
    some row.subscription = Queue.subscriptionKey st D.stream D.name ∧
      row.partitionKey = item.partitionKey ∧ row.eventNumber = item.eventNumber ∧
      row.claimedBy = some id := by
  have hnamed := Queue.named_of_check h.check h.key_eq
  rw [named_itemArgs] at hnamed
  obtain ⟨sub, hsub, heq⟩ := Option.map_eq_some_iff.mp hnamed
  obtain ⟨rfl, rfl⟩ := Prod.mk.inj heq
  have hkey := Table.key_of_find? h.find
  simp only [WorkItemRow.pkey, Prod.mk.injEq] at hkey
  obtain ⟨rfl, hp, hn⟩ := hkey
  exact ⟨hsub.symm, hp, hn, h.holder⟩

/-- What a turn does to the database and the routing workers. -/
theorem Turn.routing {routing : Routing.World String} {wk' : Worker H M A}
    {returned : List (Item × RecordedEvent)}
    (hcall : ∀ item e call, wk.phase = .complete item e call →
      ∀ now st, Queue.Call.target st (call now) = none)
    (h : Turn D adapter w id wk routing wk' returned) : RoutingBy D number w.routing routing := by
  cases h with
  | opened _ _ hstep => exact routing_queue rfl hstep
  | empty _ hstep => exact routing_queue rfl hstep
  | claimed _ _ _ hstep => exact routing_queue rfl hstep
  | completed hphase _ _ => exact routing_call (hcall _ _ _ hphase _ _) _
  | refused hphase => exact routing_call (hcall _ _ _ hphase _ _) _
  | extended _ _ => exact routing_call rfl _
  | _ => exact .same

/-- The call that a worker is about to make is one that `complete` makes. -/
theorem phase_call {C : World H M A → Op M I → Prop}
    (hw : ReachableWhen (system D adapter number) C w) (hwk : w.workers id = some wk) :
    ∀ item e call, wk.phase = .complete item e call →
      ∃ m m', adapter.complete id m item e = (m', some call) := by
  refine workers_invariant (P := fun id wk => ∀ item e call, wk.phase = .complete item e call →
    ∃ m m', adapter.complete id m item e = (m', some call)) ?_ ?_ hw id wk hwk
  · intro id leaseSeconds memory item e call hphase
    cases hphase
  · intro w id wk routing wk' returned hinv ht item e call hphase
    cases ht with
    | returned _ _ _ hcomplete =>
      cases hphase
      exact ⟨_, _, hcomplete⟩
    | closing => exact hinv item e call hphase
    | beat _ => exact hinv item e call hphase
    | extended _ _ => exact hinv item e call hphase
    | lost _ _ _ => exact hinv item e call hphase
    | _ => cases hphase

/-- **What a step is for the routing workers.** -/
theorem step_routing {C : World H M A → Op M I → Prop} {op : Op M I} (hcalls : adapter.Untargeted)
    (hw : ReachableWhen (system D adapter number) C w)
    (h : step D adapter number w op = some w') : RoutingBy D number w.routing w'.routing := by
  cases step_cases h with
  | routing _ hstep => exact .step hstep
  | snapshots _ => exact .snapshots
  | started _ => exact .same
  | crashed _ => exact .rolledBack
  | turn hwk hturns =>
    obtain ⟨routing, wk', returned, ht, rfl⟩ := hturns
    refine ht.routing fun item e call hphase => ?_
    obtain ⟨m, m', hcomplete⟩ := phase_call hw hwk item e call hphase
    exact hcalls _ _ _ _ _ _ hcomplete

theorem grounded_of_reachable {C : World H M A → Op M I → Prop} (hcalls : adapter.Untargeted)
    (hw : ReachableWhen (system D adapter number) C w) : Queue.Grounded w.routing.queue := by
  refine hw.invariant_of_reachable (P := fun w => Queue.Grounded w.routing.queue) ?_
    fun s op s' hs hg _ hstep => (step_routing hcalls hs hstep).grounded hg
  rintro _ rfl
  exact .install

theorem inv_of_reachable {C : World H M A → Op M I → Prop} (hcalls : adapter.Untargeted)
    (hD : D.stream = "$all") (hw : ReachableWhen (system D adapter number) C w)
    (hbound : w.store.log.length < 2 ^ 53) : Inv D w.routing := by
  induction hw with
  | init hs =>
    cases hs
    exact .install
  | step hr _ hstep ih =>
    have hby := step_routing hcalls hr hstep
    have hlen := (hby.log (grounded_of_reachable hcalls hr)).length_le
    have hbound' := hlen.trans_lt hbound
    exact hby.inv hD (ih hbound') hbound'

theorem accounted_of_reachable {C : World H M A → Op M I → Prop} (hcalls : adapter.Untargeted)
    (hw : ReachableWhen (system D adapter number) C w) :
    Queue.Accounted w.store w.routing.queue.events := by
  refine hw.invariant_of_reachable
    (P := fun w => Queue.Accounted w.store w.routing.queue.events) ?_
    fun s op s' hs ha _ hstep => (step_routing hcalls hs hstep).accounted ha
  rintro _ rfl key hmem
  cases hmem

theorem decided_of_reachable {C : World H M A → Op M I → Prop} (hcalls : adapter.Untargeted)
    (hw : ReachableWhen (system D adapter number) C w) : Decided D w.routing := by
  refine hw.invariant_of_reachable (P := fun w => Decided D w.routing) ?_
    fun s op s' hs hd _ hstep => (step_routing hcalls hs hstep).decided hd
  rintro _ rfl
  refine ⟨fun e he => ?_, fun id wk r hwk => ?_⟩
  · cases he
  · cases hwk

theorem step_log {C : World H M A → Op M I → Prop} {op : Op M I} (hcalls : adapter.Untargeted)
    (hw : ReachableWhen (system D adapter number) C w)
    (h : step D adapter number w op = some w') : w.store.log <+: w'.store.log :=
  (step_routing hcalls hw h).log (grounded_of_reachable hcalls hw)

/-! ## What a step does to the database -/

/-- What a step does to the tables, with what happened to the rows. -/
inductive Effect (D : RoutingDefinition) (adapter : Adapter H M I A) (number : JsNumber)
    (w : World H M A) : Store → List Queue.Event → Prop
  /-- The snapshots of the handlers were at most deleted. -/
  | snapshots {snapshots : Table SnapshotRow.sourceUuid} :
      (∀ u row, adapter.owns u = true → snapshots.find? u = some row →
        w.store.snapshots.find? u = some row) →
      Effect D adapter number w { w.store with snapshots := snapshots } []
  | append {now : Timestamp} {a : AppendArgs} :
      Effect D adapter number w (w.routing.queue.db.append now a).2.store []
  | claimSubscription {id : String} {o : RoutingWorkerOptions} {now : Timestamp} {st : Store}
      {es : List Queue.Event} : (D.claimCall id o now).run w.store = .ok (st, es) →
      Effect D adapter number w st es
  | releaseSubscription {id : String} {st : Store} {es : List Queue.Event} :
      (D.releaseCall id).run w.store = .ok (st, es) → Effect D adapter number w st es
  | routeBatch {id : String} {wk : Routing.Worker} {lastSeen n : ℕ} {r : Routed} {st : Store}
      {es : List Queue.Event} : w.routing.workers id = some wk → wk.phase = .commit lastSeen r n →
      (D.routeCall number id r n).run w.store = .ok (st, es) → Effect D adapter number w st es
  | claimItem {id : String} {x : Input I} {snapshot st : Store} {leaseSeconds : ℤ}
      {es : List Queue.Event} : w.routing.queue.snapshots id = some snapshot →
      Queue.runClaim x.now snapshot x.locked (some D.stream) (some D.name) (some id)
        (some leaseSeconds) w.store = .ok (st, es) → Effect D adapter number w st es
  | extend {id : String} {item : Item} {leaseSeconds : ℤ} {now : Timestamp} {st : Store}
      {es : List Queue.Event} : (extendCall D id item leaseSeconds now).run w.store = .ok (st, es) →
      Effect D adapter number w st es
  | complete {id : String} {wk : Worker H M A} {item : Item} {e : RecordedEvent}
      {call : Timestamp → Queue.Call} {now : Timestamp} {st : Store} {es : List Queue.Event} :
      w.workers id = some wk → wk.phase = .complete item e call →
      (call now).run w.store = .ok (st, es) → Effect D adapter number w st es

/-- Only a call of `complete` finishes a row. -/
theorem Effect.of_finished {st : Store} {es : List Queue.Event}
    (h : Effect D adapter number w st es) {key : Queue.Key} (hfinished : Queue.Finished es key) :
    ∃ id wk item e call now, w.workers id = some wk ∧ wk.phase = .complete item e call ∧
      (call now).run w.store = .ok (st, es) := by
  have hnone : (∀ ev ∈ es, (∃ k, ev = .inserted k) ∨ ∃ worker k, ev = .claimed worker k) → False := by
    intro hes
    rcases hfinished with ⟨worker, hmem⟩ | hmem
    · rcases hes _ hmem with ⟨k, heq⟩ | ⟨_, k, heq⟩ <;> cases heq
    · rcases hes _ hmem with ⟨k, heq⟩ | ⟨_, k, heq⟩ <;> cases heq
  have hnil : es = [] → False := by
    rintro rfl
    exact hnone fun ev hev => nomatch hev
  cases h with
  | snapshots _ => exact (hnil rfl).elim
  | append => exact (hnil rfl).elim
  | claimSubscription hrun =>
    obtain ⟨r, -, heq⟩ := map_eq_ok.mp hrun
    cases heq
    exact (hnil rfl).elim
  | releaseSubscription hrun =>
    obtain ⟨r, -, heq⟩ := map_eq_ok.mp hrun
    cases heq
    exact (hnil rfl).elim
  | extend hrun =>
    obtain ⟨r, -, heq⟩ := map_eq_ok.mp hrun
    cases heq
    exact (hnil rfl).elim
  | routeBatch _ _ hrun =>
    obtain ⟨r, -, heq⟩ := map_eq_ok.mp hrun
    cases heq
    refine (hnone fun ev hev => ?_).elim
    obtain ⟨k, -, rfl⟩ := List.mem_map.mp hev
    exact Or.inl ⟨k, rfl⟩
  | claimItem _ hrun =>
    obtain ⟨⟨it, st'⟩, -, hrun⟩ := bind_eq_ok.mp hrun
    cases hrun
    refine (hnone fun ev hev => ?_).elim
    obtain ⟨k, -, rfl⟩ := Option.map_eq_some_iff.mp (Option.mem_toList.mp hev)
    exact Or.inr ⟨_, _, rfl⟩
  | complete hwk hphase hrun => exact ⟨_, _, _, _, _, _, hwk, hphase, hrun⟩

/-- A row that is gone was finished. -/
theorem Effect.finished_of_gone {st : Store} {es : List Queue.Event}
    (h : Effect D adapter number w st es) {key : Queue.Key} {row : WorkItemRow}
    (hrow : w.store.workItems.find? key = some row) (hgone : st.workItems.find? key = none) :
    Queue.Finished es key := by
  have hsame : ∀ {st : Store}, st.workItems = w.store.workItems →
      st.workItems.find? key = none → Queue.Finished es key := by
    intro st heq hgone
    rw [heq, hrow] at hgone
    cases hgone
  have hchange : Queue.Change w.store st es → Queue.Finished es key := by
    intro hc
    rcases hc.fate hrow with ⟨row', hrow', -⟩ | ⟨-, hfinished⟩
    · exact nomatch hgone.symm.trans hrow'
    · exact hfinished
  cases h with
  | snapshots _ => exact hsame rfl hgone
  | append => exact hsame (w.routing.queue.db.append_tables _ _).2.1 hgone
  | claimSubscription hrun => exact hchange (Queue.Call.run_change hrun).1
  | releaseSubscription hrun => exact hchange (Queue.Call.run_change hrun).1
  | routeBatch _ _ hrun => exact hchange (Queue.Call.run_change hrun).1
  | claimItem _ hrun => exact hchange (Queue.runClaim_change hrun).1
  | extend hrun => exact hchange (Queue.Call.run_change hrun).1
  | complete _ _ hrun => exact hchange (Queue.Call.run_change hrun).1

/-- The tables and the history after a step. -/
def Affected (D : RoutingDefinition) (adapter : Adapter H M I A) (number : JsNumber)
    (w : World H M A) (r : Routing.World String) : Prop :=
  ∃ es, Effect D adapter number w r.store es ∧ r.queue.events = w.routing.queue.events ++ es

theorem affected_same {r : Routing.World String} (hstore : r.store = w.store)
    (hevents : r.queue.events = w.routing.queue.events) : Affected D adapter number w r := by
  have hself : Effect D adapter number w { w.store with snapshots := w.store.snapshots } [] :=
    .snapshots fun _ _ _ hrow => hrow
  refine ⟨[], ?_, by rw [hevents, List.append_nil]⟩
  rw [hstore]
  exact hself

theorem affected_call {c : Queue.Call} (d : Delivery)
    (h : ∀ st es, c.run w.store = .ok (st, es) → Effect D adapter number w st es) :
    Affected D adapter number w (w.routing.call d c) := by
  have hsame : Affected D adapter number w w.routing := affected_same rfl rfl
  cases hrun : c.run w.store with
  | error e =>
    rw [Routing.World.call_of_error hrun]
    exact hsame
  | ok r =>
    cases harrives : d.arrives with
    | true =>
      rw [Routing.World.call_of_ok harrives hrun]
      exact ⟨r.2, h r.1 r.2 hrun, rfl⟩
    | false =>
      rw [Routing.World.call_of_lost harrives]
      exact hsame

theorem affected_claim {x : Input I} {queue : Queue.World String} {leaseSeconds : ℤ}
    (h : Queue.step w.routing.queue (.claimItem id x.now x.locked (some D.stream) (some D.name)
      (some id) (some leaseSeconds)) = some queue) :
    Affected D adapter number w { w.routing with queue := queue } := by
  simp only [Queue.step] at h
  split at h
  · rename_i snapshot hsnapshot
    obtain rfl := Option.some.inj h
    cases hrun : Queue.runClaim x.now snapshot x.locked (some D.stream) (some D.name) (some id)
        (some leaseSeconds) w.store with
    | error e =>
      refine affected_same ?_ ?_
      · show (w.routing.queue.commit (Queue.runClaim _ _ _ _ _ _ _ w.store)).db.store = _
        rw [hrun]
        rfl
      · show (w.routing.queue.commit (Queue.runClaim _ _ _ _ _ _ _ w.store)).events = _
        rw [hrun]
        rfl
    | ok r =>
      refine ⟨r.2, ?_, ?_⟩
      · show Effect D adapter number w
          (w.routing.queue.commit (Queue.runClaim _ _ _ _ _ _ _ w.store)).db.store r.2
        rw [hrun]
        exact .claimItem hsnapshot hrun
      · show (w.routing.queue.commit (Queue.runClaim _ _ _ _ _ _ _ w.store)).events = _
        rw [hrun]
        rfl
  · cases h

theorem Turn.affected {routing : Routing.World String} {wk' : Worker H M A}
    {returned : List (Item × RecordedEvent)} (hwk : w.workers id = some wk)
    (h : Turn D adapter w id wk routing wk' returned) : Affected D adapter number w routing := by
  cases h with
  | opened _ _ hstep =>
    simp only [Queue.step] at hstep
    split at hstep
    · exact Option.some.inj hstep ▸ affected_same rfl rfl
    · cases hstep
  | empty _ hstep => exact affected_claim hstep
  | claimed _ _ _ hstep => exact affected_claim hstep
  | completed hphase _ _ => exact affected_call _ fun _ _ hrun => .complete hwk hphase hrun
  | refused hphase => exact affected_call _ fun _ _ hrun => .complete hwk hphase hrun
  | extended _ _ => exact affected_call _ fun _ _ hrun => .extend hrun
  | _ => exact affected_same rfl rfl

theorem Move.affected {rid : String} {rwk rwk' : Routing.Worker} {r : Routing.World String}
    (hwk : w.routing.workers rid = some rwk) (h : Move D number w.routing rid rwk r rwk') :
    Affected D adapter number w r := by
  have hclaim : ∀ now d, Affected D adapter number w (w.routing.afterClaim D rid rwk.opts now d) :=
    fun now d => affected_call d fun _ _ hrun => .claimSubscription hrun
  cases h with
  | claimed _ _ _ => exact hclaim _ _
  | unclaimed _ _ => exact hclaim _ _
  | committed hphase _ _ _ => exact affected_call _ fun _ _ hrun => .routeBatch hwk hphase hrun
  | released _ => exact affected_call _ fun _ _ hrun => .releaseSubscription hrun
  | _ => exact affected_same rfl rfl

/-- **What a step does to the tables.** -/
theorem step_effect {op : Op M I} (h : step D adapter number w op = some w') :
    Affected D adapter number w w'.routing := by
  cases step_cases h with
  | @routing op r hadmits hstep =>
    cases Routing.step_cases hstep with
    | @queue q _ hop _ hq =>
      subst hop
      cases q with
      | append now a =>
        obtain rfl := Option.some.inj hq
        exact ⟨[], .append, (List.append_nil _).symm⟩
      | _ => cases hadmits
    | started _ => exact affected_same rfl rfl
    | crashed => exact affected_same rfl rfl
    | moved hwk hmove =>
      obtain ⟨es, heffect, hes⟩ := Move.affected hwk hmove
      exact ⟨es, heffect, hes⟩
  | snapshots hsnapshots => exact ⟨[], .snapshots hsnapshots, (List.append_nil _).symm⟩
  | started _ => exact affected_same rfl rfl
  | crashed _ => exact affected_same rfl rfl
  | turn hwk hturns =>
    obtain ⟨routing, wk', returned, ht, rfl⟩ := hturns
    exact ht.affected hwk

/-- The event that the worker is at work on. -/
def Phase.event? : Phase H → Option (Item × RecordedEvent)
  | .attempt item e _ | .handle item e _ _ | .policy item e _ | .complete item e _ => some (item, e)
  | _ => none

/-- **The event at hand is the one that the work item names.** -/
theorem phase_event {C : World H M A → Op M I → Prop}
    (hw : ReachableWhen (system D adapter number) C w) (hwk : w.workers id = some wk) :
    ∀ item e, wk.phase.event? = some (item, e) → (e.eventNumber : ℤ) = item.eventNumber := by
  refine workers_invariant (P := fun _ wk => ∀ item e, wk.phase.event? = some (item, e) →
    (e.eventNumber : ℤ) = item.eventNumber) ?_ ?_ hw id wk hwk
  · intro id leaseSeconds memory item e hphase
    cases hphase
  · intro w id wk routing wk' returned hinv ht item e hphase
    have hold : ∀ item' e' phase, wk.phase = phase → phase.event? = some (item', e') →
        some (item', e') = some (item, e) → (e.eventNumber : ℤ) = item.eventNumber := by
      rintro item' e' phase rfl hevent heq
      cases heq
      exact hinv _ _ hevent
    cases ht with
    | loaded _ _ hnumber =>
      cases hphase
      exact hnumber
    | began hp _ => exact hold _ _ _ hp rfl hphase
    | ran hp _ _ => exact hold _ _ _ hp rfl hphase
    | threw hp _ _ => exact hold _ _ _ hp rfl hphase
    | returned hp _ _ _ => exact hold _ _ _ hp rfl hphase
    | retry hp => exact hold _ _ _ hp rfl hphase
    | closing => exact hinv item e hphase
    | beat _ => exact hinv item e hphase
    | extended _ _ => exact hinv item e hphase
    | lost _ _ _ => exact hinv item e hphase
    | _ => cases hphase

theorem mem_of_readAll {st : Store} (hc : st.Consistent) {n : ℤ} {e : RecordedEvent}
    {es : List RecordedEvent} (h : readAll (some n) (some 1) st = .ok (e :: es)) : e ∈ st.log := by
  by_cases hn : n < 0
  · rw [readAll, if_pos hn] at h
    cases h
  · obtain ⟨k, rfl⟩ := Int.eq_ofNat_of_zero_le (not_lt.mp hn)
    have hpage : readAll (some (k : ℤ)) (some (1 : ℕ)) st = .ok ((st.log.drop (k - 1)).take 1) :=
      readAll_eq hc Nat.one_pos
    have hmem : e ∈ (st.log.drop (k - 1)).take 1 := by
      rw [Except.ok.inj (hpage.symm.trans h)]
      exact List.mem_cons_self
    exact List.mem_of_mem_drop (List.mem_of_mem_take hmem)

/-- The event at hand is in the log. -/
theorem phase_mem_log {C : World H M A → Op M I → Prop} (hcalls : adapter.Untargeted)
    (hw : ReachableWhen (system D adapter number) C w) (hwk : w.workers id = some wk) :
    ∀ item e, wk.phase.event? = some (item, e) → e ∈ w.store.log := by
  refine workers_invariant_of_world (P := fun w _ wk => ∀ item e,
    wk.phase.event? = some (item, e) → e ∈ w.store.log) ?_ ?_ ?_ hw id wk hwk
  · intro w id leaseSeconds memory item e hphase
    cases hphase
  · intro w id wk routing wk' returned hs _ hinv ht item e hphase
    have hold : ∀ phase, wk.phase = phase → phase.event? = some (item, e) → e ∈ w.store.log := by
      rintro phase rfl hevent
      exact hinv item e hevent
    cases ht with
    | loaded _ hread _ =>
      cases hphase
      exact mem_of_readAll (grounded_of_reachable hcalls hs).consistent.store hread
    | began hp _ => exact hold _ hp hphase
    | ran hp _ _ => exact hold _ hp hphase
    | threw hp _ _ => exact hold _ hp hphase
    | returned hp _ _ _ => exact hold _ hp hphase
    | retry hp => exact hold _ hp hphase
    | closing => exact hinv item e hphase
    | beat _ => exact hinv item e hphase
    | extended _ _ => exact hinv item e hphase
    | lost _ _ _ => exact hinv item e hphase
    | _ => cases hphase
  · intro w op w' hs hstep id wk hinv item e hphase
    exact (step_log hcalls hs hstep).subset (hinv item e hphase)

theorem step_returned {op : Op M I} (h : step D adapter number w op = some w') :
    w.returned ⊆ w'.returned := by
  cases step_cases h with
  | turn _ hturns =>
    obtain ⟨routing, wk', returned, -, rfl⟩ := hturns
    exact List.subset_append_left ..
  | _ => exact fun _ h => h

/-- A handler has returned on what a worker is about to complete. -/
theorem phase_returned {C : World H M A → Op M I → Prop}
    (hw : ReachableWhen (system D adapter number) C w) (hwk : w.workers id = some wk) :
    ∀ item e call, wk.phase = .complete item e call → (item, e) ∈ w.returned := by
  refine workers_invariant_after (P := fun w _ wk => ∀ item e call,
    wk.phase = .complete item e call → (item, e) ∈ w.returned) ?_ ?_ ?_ hw id wk hwk
  · intro w id leaseSeconds memory item e call hphase
    cases hphase
  · intro w op id wk routing wk' returned hs hstep _ hinv ht item e call hphase
    have hold : wk.phase = .complete item e call →
        (item, e) ∈ (w.afterTurn id routing wk' returned).returned := fun hp =>
      step_returned hstep (hinv item e call hp)
    cases ht with
    | returned _ _ _ _ =>
      cases hphase
      exact List.mem_append_right _ (List.mem_singleton.mpr rfl)
    | closing => exact hold hphase
    | beat _ => exact hold hphase
    | extended _ _ => exact hold hphase
    | lost _ _ _ => exact hold hphase
    | _ => cases hphase
  · intro w op w' _ hstep id wk hinv item e call hphase
    exact step_returned hstep (hinv item e call hphase)

end Invariant

end Instructed.Processing
