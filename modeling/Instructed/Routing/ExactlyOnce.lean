import Instructed.Routing.Invariant

/-!
# Exactly-once routing on `$all`

Two workers may read the same events under successive leases, and both may try to commit them. The lease
check, the cursor that never falls and the re-reading from the claim's own cursor leave one of them.

* `Inv.of_reachable`: the invariant, in every run;
* `exactly_once`: **every event behind the start and up to the cursor was inspected by `routeFn`, and its
  work item was inserted once.**
-/

namespace Instructed.Routing

open Sql Relational Transition Numbering

section Refinement

variable {κ : Type} [DecidableEq κ] {D : RoutingDefinition} {number : JsNumber} {w w' : World κ}
  {op : Op κ}

theorem step_grounded (hg : Queue.Grounded w.queue) (h : step D number w op = some w') :
    Queue.Grounded w'.queue := by
  rcases step_queue h with heq | ⟨q, hq⟩
  · exact heq ▸ hg
  · exact hg.step hq

theorem grounded_of_reachable (hw : Reachable (system D number) w) : Queue.Grounded w.queue := by
  refine hw.invariant (P := fun x => Queue.Grounded x.queue) ?_ fun _ _ _ hg _ hs =>
    step_grounded hg hs
  rintro _ rfl
  exact .install

theorem step_log (hg : Queue.Grounded w.queue) (h : step D number w op = some w') :
    w.store.log <+: w'.store.log := by
  rcases step_queue h with heq | ⟨q, hq⟩
  · rw [World.store, World.store, heq]
  · exact Queue.step_log hg.consistent hq

/-- The cursor never falls. -/
theorem step_lastSeen_le (hg : Queue.Grounded w.queue) (h : step D number w op = some w')
    {row : SubscriptionRow} (hrow : D.row w.store = some row) :
    ∃ row', D.row w'.store = some row' ∧ row'.pkey = row.pkey ∧ row.lastSeen ≤ row'.lastSeen := by
  rcases step_queue h with heq | ⟨q, hq⟩
  · rw [World.store, heq]
    exact ⟨row, hrow, rfl, le_rfl⟩
  · exact hg.lastSeen_le hq hrow

theorem Inv.install : Inv D (World.install : World κ) := by
  have hrow : D.row (World.install : World κ).store = none := by
    unfold RoutingDefinition.row Queue.subscription
    cases Queue.subscriptionKey (World.install : World κ).store D.stream D.name <;> rfl
  refine ⟨.install, ?_, fun row h => ?_, fun _ => ⟨rfl, rfl⟩, fun row h => ?_⟩
  · exact fun _ _ h => nomatch h
  · exact nomatch hrow.symm.trans h
  · exact nomatch hrow.symm.trans h

/-- **The invariant of routing**, while event numbers are exact. -/
theorem Inv.of_reachable
    (hw : ReachableWhen (system D number) (fun w op => D.stream = "$all" ∨ Fits D w op) w)
    (hbound : w.store.log.length < 2 ^ 53) : Inv D w := by
  revert hbound
  refine hw.invariant_of_reachable (P := fun x => x.store.log.length < 2 ^ 53 → Inv D x) ?_
    fun s op s' hs hinv hC hstep hbound => ?_
  · rintro _ rfl _
    exact .install
  · have hle := (step_log (grounded_of_reachable hs.reachable) hstep).length_le
    have hbefore : s.store.log.length < 2 ^ 53 := by omega
    exact (hinv hbefore).step hbefore hC hstep

end Refinement

/-! ## The result -/

section ExactlyOnce

variable {κ : Type} [DecidableEq κ] {D : RoutingDefinition} {number : JsNumber} {w : World κ}

/-- The events behind `start` and up to the cursor. -/
def passed (st : Store) (start : ℕ) (row : SubscriptionRow) : List RecordedEvent :=
  st.log.filter fun e => start < e.eventNumber ∧ e.eventNumber ≤ row.lastSeen

/-- Every event behind the start and up to the cursor was inspected, and what `routeFn` made of it was
    inserted, once. Without a row nothing was inserted. No run moves the cursor back. -/
structure ExactlyOnce (D : RoutingDefinition) (number : JsNumber) (w : World κ) : Prop where
  none : D.row w.store = none → ∀ key, Queue.subscriptionKey w.store D.stream D.name = some key →
    insertedFor key w.queue.events = []
  routed : ∀ row, D.row w.store = some row → ∃ start, w.start = some start ∧
    (∀ p n, (p, n) ∈ insertedFor row.pkey w.queue.events ↔
      ∃ e ∈ passed w.store start row, D.routeFn e = .partition p ∧ n = e.eventNumber) ∧
    (insertedFor row.pkey w.queue.events).Nodup ∧
    ∀ e ∈ passed w.store start row, e.eventNumber ∈ w.inspected
  forward : ∀ ops w', (system D number).run w ops = some w' →
    ∀ row, D.row w.store = some row → ∃ row', D.row w'.store = some row' ∧ row.lastSeen ≤ row'.lastSeen

theorem decision_eq_some {e : RecordedEvent} {p : String} {n : ℕ} :
    D.decision e = some (p, n) ↔ D.routeFn e = .partition p ∧ n = e.eventNumber := by
  unfold RoutingDefinition.decision
  split
  · rename_i q hq
    rw [hq, Option.some.injEq, Prod.mk.injEq, RouteOutcome.partition.injEq]
    exact and_congr_right' eq_comm
  · rename_i hne
    constructor
    · exact fun h => nomatch h
    · exact fun h => absurd h.1 (hne p)

section Inserted

variable {st : Store} {events : List Queue.Event} {inspected : List ℕ} {start : ℕ}
  {committed : List RecordedEvent} {row : SubscriptionRow}

/-- The work items that were inserted are the decisions of the committed events. -/
theorem Progress.mem_inserted (h : Progress D st events inspected start committed row) (p : String)
    (n : ℤ) : (p, n) ∈ insertedFor row.pkey events ↔
      ∃ e ∈ committed, D.routeFn e = .partition p ∧ n = e.eventNumber := by
  rw [h.inserted, List.mem_map]
  constructor
  · rintro ⟨d, hd, heq⟩
    obtain ⟨e, he, hde⟩ := List.mem_filterMap.mp hd
    obtain ⟨rfl, rfl⟩ := Prod.mk.inj heq
    obtain ⟨hroute, hn⟩ := decision_eq_some.mp hde
    exact ⟨e, he, hroute, congrArg Nat.cast hn⟩
  · rintro ⟨e, he, hroute, rfl⟩
    have hde := decision_eq_some.mpr ⟨hroute, rfl⟩
    exact ⟨(p, e.eventNumber), List.mem_filterMap.mpr ⟨e, he, hde⟩, rfl⟩

/-- No work item was inserted twice. -/
theorem Progress.inserted_nodup (h : Progress D st events inspected start committed row)
    (hc : st.Consistent) : (insertedFor row.pkey events).Nodup := by
  have hnodup := itemRow_nodup (D := D) row.pkey
    (eventNumbers_of_sublist hc (h.taken.sublist.trans source_sublist)).1
  rw [List.map_map] at hnodup
  rw [h.inserted]
  refine List.Nodup.of_map (fun item => (row.pkey, item)) ?_
  rw [List.map_map]
  exact hnodup

/-- On `$all`, what was committed is what the cursor has passed. -/
theorem Progress.mem_committed (h : Progress D st events inspected start committed row)
    (hD : D.stream = "$all") (hc : st.Consistent) (e : RecordedEvent) :
    e ∈ committed ↔ e ∈ passed st start row := by
  have hsource : D.source st = st.log := if_pos hD
  have hpos : D.position = fun e => e.eventNumber := funext fun e => if_pos hD
  have htaken := h.taken
  have hnumbered := source_consecutive (D := D) hc
  rw [hsource] at htaken hnumbered
  rw [hpos] at hnumbered
  rw [htaken.mem_iff hnumbered, passed, List.mem_filter, decide_eq_true_eq, h.all hD]

end Inserted

/-- **Exactly-once routing on `$all`.** -/
theorem exactly_once (hD : D.stream = "$all") (hw : Reachable (system D number) w)
    (hbound : w.store.log.length < 2 ^ 53) : ExactlyOnce D number w := by
  have hinv : Inv D w := .of_reachable (hw.weaken fun _ _ _ => Or.inl hD) hbound
  have hc := hinv.grounded.consistent.store
  refine ⟨fun hnone key hkey => ?_, fun row hrow => ?_, fun ops w' hrun row hrow => ?_⟩
  · refine insertedFor_eq_nil fun k hk heq => ?_
    have hkeyed := hinv.grounded.history.tracked.keyed _ hk
    have hfind : w.queue.db.store.subscriptions.find? key = Option.none := by
      rw [RoutingDefinition.row, Queue.subscription, hkey] at hnone
      exact hnone
    rw [show (Queue.Event.inserted k).key.1 = key from heq, hfind] at hkeyed
    cases hkeyed
  · obtain ⟨start, hstart, hp⟩ := hinv.progress row hrow
    refine ⟨start, hstart, fun p n => ?_, hp.inserted_nodup hc, fun e he => ?_⟩
    · rw [hp.mem_inserted]
      simp only [hp.mem_committed hD hc]
    · exact hp.inspected e ((hp.mem_committed hD hc e).mpr he)
  · have hgrow : Queue.Grounded w'.queue ∧ ∃ row', D.row w'.store = some row' ∧
        row.lastSeen ≤ row'.lastSeen := by
      refine System.run_invariant (P := fun x => Queue.Grounded x.queue ∧
        ∃ row', D.row x.store = some row' ∧ row.lastSeen ≤ row'.lastSeen) ?_ hrun
          ⟨hinv.grounded, row, hrow, le_rfl⟩
      rintro s op s' ⟨hg, row', hrow', hle⟩ hstep
      obtain ⟨row'', hrow'', -, hle'⟩ := step_lastSeen_le hg hstep hrow'
      exact ⟨step_grounded hg hstep, row'', hrow'', hle.trans hle'⟩
    exact hgrow.2

theorem exactly_once_sampleRun : ∃ w,
    (system (κ := ℕ) (sampleDefinition "$all") sampleNumber).run World.install sampleRun = some w ∧
      insertedFor (0, "orders") w.queue.events = [("order-1", 1), ("order-2", 2)] ∧
        ExactlyOnce (sampleDefinition "$all") sampleNumber w := by
  have hrun : ((system (κ := ℕ) (sampleDefinition "$all") sampleNumber).run World.install
      sampleRun).map (fun w => (insertedFor (0, "orders") w.queue.events, w.store.log.length)) =
        some ([("order-1", 1), ("order-2", 2)], 2) := by decide +kernel
  obtain ⟨w, hw, heq⟩ := Option.map_eq_some_iff.mp hrun
  obtain ⟨hinserted, hlength⟩ := Prod.mk.inj heq
  refine ⟨w, hw, hinserted, exactly_once rfl (Reachable.run (.init rfl) hw) ?_⟩
  rw [hlength]
  decide

end ExactlyOnce

end Instructed.Routing
