import Instructed.Processing.Order

/-!
# Items are handed out in order

A worker that has an item at hand was given it when nothing was outstanding before it in its partition.
This stays so, whether or not the worker keeps its claim: rows are only inserted above the cursor.

* `Effect.advance`: what every step does to the outstanding rows and to the cursor;
* `Given`: what is known of an item that was handed out;
* `given_of_item`, `given_of_returned`: **it is known of every item at hand, and of every item on which a
  handler returned**;
* `TakenUp`: a worker has the item at hand, or its handler returned on it;
* `Given.finished_before`: **every earlier event of the partition is finished**.
-/

namespace Instructed.Processing

open Sql Relational Transition Routing Lanes

section InOrder

variable {H M I A : Type} {D : RoutingDefinition} {adapter : Adapter H M I A} {number : JsNumber}
  {w w' : World H M A} {id : String} {wk : Worker H M A} {item : Item}

/-- What is known of an item that was handed out: it was inserted, nothing is outstanding before it in
    its partition, and the cursor is past it. -/
structure Given (D : RoutingDefinition) (w : World H M A) (item : Item) : Prop where
  inserted : .inserted (itemKey D item) ∈ w.routing.queue.events
  clear : Clear (Queue.outstanding w.store) (laneOf D item.partitionKey) item.eventNumber
  routed : (item.eventNumber : WithBot ℤ) ≤ Queue.watermark w.store (laneOf D item.partitionKey)

theorem Effect.advance {C : World H M A → Op M I → Prop} {st : Store} {es : List Queue.Event}
    (hcalls : adapter.Untargeted) (hD : D.stream = "$all")
    (hw : ReachableWhen (system D adapter number) C w) (hbound : w.store.log.length < 2 ^ 53)
    (h : Effect D adapter number w st es) : Advance (Queue.outstanding w.store)
      (Queue.watermark w.store) (Queue.outstanding st) (Queue.watermark st) := by
  have habove := h.insertsAbove hcalls hw hD (inv_of_reachable hcalls hD hw hbound) hbound
  have hok := (order_of_reachable hcalls hD hw hbound).rows.holder
  cases h with
  | snapshots _ => exact ⟨fun l => le_rfl, fun l n hn => Or.inl hn⟩
  | append =>
    obtain ⟨hsubscriptions, hitems, hsnapshots⟩ := w.routing.queue.db.append_tables _ _
    have hchange : Queue.Change w.store (w.routing.queue.db.append _ _).2.store [] :=
      .same hsubscriptions hitems hsnapshots
    exact hchange.advance hok habove
  | claimSubscription hrun => exact (Queue.Call.run_change hrun).1.advance hok habove
  | releaseSubscription hrun => exact (Queue.Call.run_change hrun).1.advance hok habove
  | routeBatch _ _ hrun => exact (Queue.Call.run_change hrun).1.advance hok habove
  | claimItem _ hrun => exact (Queue.runClaim_change hrun).1.advance hok habove
  | extend hrun => exact (Queue.Call.run_change hrun).1.advance hok habove
  | complete _ _ hrun => exact (Queue.Call.run_change hrun).1.advance hok habove

/-- The row that a claim hands out is held after it. -/
theorem holds_of_claim {now : Timestamp} {snapshot st st' : Store} {locked : WorkItemRow → Bool}
    {lease : ℤ} {it : ClaimedItem} (hc : st.Consistent) (hD : D.stream = "$all")
    (h : claimWorkItem now snapshot locked (some D.stream) (some D.name) (some id) (some lease) st =
      .ok (some it, st')) : Holds D st' id ⟨it.partitionKey, it.eventNumber⟩ := by
  obtain ⟨u, name, worker, stream, hu, hname, hworker, hstream, hrow⟩ := claimWorkItem_ok h
  obtain rfl := Option.some.inj hu
  obtain rfl := Option.some.inj hname
  obtain rfl := Option.some.inj hworker
  rcases hrow with ⟨hnone, -⟩ | ⟨it', row, heq, hrow⟩
  · cases hnone
  obtain rfl := Option.some.inj heq
  obtain ⟨n, hall⟩ := hc.streamByUuid_all
  rw [hD, hall] at hstream
  obtain rfl := Option.some.inj hstream
  obtain ⟨c, hcand, hkey⟩ := hrow.candidate
  have hsub : row.subscription = (0, D.name) := by
    rw [← (mem_candidates.mp hcand).2.1]
    exact (congrArg Prod.fst hkey).symm
  let row' : WorkItemRow := { row with
    state := .claimed, claimedBy := some id, leaseExpiresAt := some it.leaseExpiresAt }
  have hmem : row' ∈ st'.workItems.rows := by
    rw [hrow.store]
    exact Table.mem_put.mpr (Or.inl rfl)
  refine ⟨row', hmem, ?_, rfl⟩
  show (row.subscription, row.partitionKey, row.eventNumber) = _
  rw [hsub, ← hrow.item_eq.1, ← hrow.item_eq.2.1]
  rfl

/-- The store after a claim. -/
theorem store_of_claimItem {κ : Type} [DecidableEq κ] {v v' : Queue.World κ} {i : κ} {now : Timestamp}
    {snapshot st : Store} {locked : WorkItemRow → Bool} {u name worker : Option String}
    {lease : Option ℤ} {it : Option ClaimedItem} (hsnapshot : v.snapshots i = some snapshot)
    (hclaim : claimWorkItem now snapshot locked u name worker lease v.db.store = .ok (it, st))
    (h : Queue.step v (.claimItem i now locked u name worker lease) = some v') : v'.db.store = st := by
  simp only [Queue.step, hsnapshot, Queue.runClaim, hclaim, bind, Except.bind] at h
  rw [← Option.some.inj h]
  rfl

/-- What a worker has at hand after a turn was at hand before it, or has just been claimed. -/
theorem Turn.item_origin {routing : Routing.World String} {wk' : Worker H M A}
    {returned : List (Item × RecordedEvent)} (hc : w.store.Consistent) (hD : D.stream = "$all")
    (h : Turn D adapter w id wk routing wk' returned) (hitem : wk'.phase.item? = some item) :
    wk.phase.item? = some item ∨ Holds D routing.store id item := by
  have hsame : ∀ {phase : Phase H}, wk.phase = phase → phase.item? = wk'.phase.item? →
      wk.phase.item? = some item ∨ Holds D routing.store id item := fun hphase heq =>
    Or.inl (hphase ▸ heq.trans hitem)
  cases h with
  | closing => exact Or.inl hitem
  | beat _ => exact Or.inl hitem
  | extended _ _ => exact Or.inl hitem
  | lost _ _ _ => exact Or.inl hitem
  | claimed _ hsnapshot hclaim hstep =>
    obtain rfl := Option.some.inj hitem
    have hstore := store_of_claimItem hsnapshot hclaim hstep
    right
    show Holds D (Queue.World.db _).store id _
    rw [hstore]
    exact holds_of_claim hc hD hclaim
  | loaded hphase _ _ => exact hsame hphase rfl
  | gaveUp hphase _ => exact hsame hphase rfl
  | began hphase _ => exact hsame hphase rfl
  | ran hphase _ _ => exact hsame hphase rfl
  | threw hphase _ _ => exact hsame hphase rfl
  | returned hphase _ _ _ => exact hsame hphase rfl
  | broken hphase _ _ _ => exact hsame hphase rfl
  | retry hphase => exact hsame hphase rfl
  | quit hphase => exact hsame hphase rfl
  | completed hphase _ _ => exact hsame hphase rfl
  | refused hphase => exact hsame hphase rfl
  | _ => cases hitem

/-- What is known of an item stays known. -/
theorem Given.step {op : Op M I} (hcalls : adapter.Untargeted) (hD : D.stream = "$all")
    (hw : Reachable (system D adapter number) w) (hbound : w.store.log.length < 2 ^ 53)
    (h : Given D w item) (hstep : step D adapter number w op = some w') : Given D w' item := by
  obtain ⟨es, heffect, hes⟩ := step_effect hstep
  have ha := heffect.advance hcalls hD hw hbound
  refine ⟨?_, h.clear.advance h.routed ha, h.routed.trans (ha.watermark_le _)⟩
  rw [hes]
  exact List.mem_append_left _ h.inserted

/-- Who holds the row of an item was given it. -/
theorem given_of_holds {C : World H M A → Op M I → Prop} (hcalls : adapter.Untargeted)
    (hD : D.stream = "$all") (hw : ReachableWhen (system D adapter number) C w)
    (hbound : w.store.log.length < 2 ^ 53) (hholds : Holds D w.store id item) : Given D w item := by
  have hordered := (order_of_reachable hcalls hD hw hbound).rows
  obtain ⟨row, hr, hkey, hholder⟩ := hholds
  obtain ⟨hlane, hn⟩ := lane_of_itemKey hkey
  have hfind := Table.find?_key hr
  have hfirst := hordered.first_of_holder hfind hholder
  have hrouted := hordered.routed row hr
  rw [hlane, hn] at hfirst hrouted
  refine ⟨?_, hfirst.2, hrouted⟩
  have hstate := (hordered.holder row hr).mp (Option.isSome_iff_exists.mpr ⟨id, hholder⟩)
  have hlive : Queue.live w.store row.pkey = 1 := by
    show Queue.live w.routing.queue.db.store row.pkey = 1
    simp [Queue.live, show w.routing.queue.db.store.workItems.find? row.pkey = some row from hfind, hstate]
  have honce := (grounded_of_reachable hcalls hw).history.once row.pkey
  have hpos : 0 < Queue.insertions row.pkey w.routing.queue.events := by
    rw [show Queue.live w.routing.queue.db.store row.pkey = 1 from hlive] at honce
    omega
  rw [← hkey]
  exact List.count_pos_iff.mp hpos

/-- **An item at hand was given to its worker.** -/
theorem given_of_item (hcalls : adapter.Untargeted) (hD : D.stream = "$all")
    (hw : Reachable (system D adapter number) w) (hbound : w.store.log.length < 2 ^ 53)
    (hwk : w.workers id = some wk) (hitem : wk.phase.item? = some item) : Given D w item := by
  refine workers_invariant_after (P := fun w _ wk => w.store.log.length < 2 ^ 53 →
    ∀ item, wk.phase.item? = some item → Given D w item) ?_ ?_ ?_ hw id wk hwk hbound item hitem
  · intro w id leaseSeconds memory _ item hitem
    cases hitem
  · intro w op id wk routing wk' returned hr hstep hwk hinv ht hbound' item hitem
    have hr' := ReachableWhen.step hr trivial hstep
    have hbound := ((step_log hcalls hr hstep).length_le).trans_lt hbound'
    have hc := (grounded_of_reachable hcalls hr).consistent.store
    rcases ht.item_origin hc hD hitem with hold | hholds
    · exact (hinv hbound item hold).step hcalls hD hr hbound hstep
    · exact given_of_holds hcalls hD hr' hbound' hholds
  · intro w op w' hr hstep id wk hinv hbound' item hitem
    have hbound := ((step_log hcalls hr hstep).length_le).trans_lt hbound'
    exact (hinv hbound item hitem).step hcalls hD hr hbound hstep

/-- A handler returns on an item at hand. -/
theorem returned_origin {op : Op M I} {e : RecordedEvent}
    (h : step D adapter number w op = some w') (hmem : (item, e) ∈ w'.returned) :
    (item, e) ∈ w.returned ∨
      ∃ id wk, w.workers id = some wk ∧ wk.phase.event? = some (item, e) := by
  cases step_cases h with
  | routing _ _ => exact Or.inl hmem
  | snapshots _ => exact Or.inl hmem
  | started _ => exact Or.inl hmem
  | crashed _ => exact Or.inl hmem
  | @turn id wk _ hwk hturns =>
    obtain ⟨routing, wk', returned, ht, rfl⟩ := hturns
    rcases List.mem_append.mp hmem with hold | hnew
    · exact Or.inl hold
    · refine Or.inr ⟨id, wk, hwk, ?_⟩
      cases ht with
      | returned hphase _ _ _ =>
        obtain ⟨rfl, rfl⟩ := Prod.mk.inj (List.mem_singleton.mp hnew)
        rw [hphase]
        rfl
      | broken hphase _ _ _ =>
        obtain ⟨rfl, rfl⟩ := Prod.mk.inj (List.mem_singleton.mp hnew)
        rw [hphase]
        rfl
      | _ => cases hnew

theorem item_of_event {p : Phase H} {e : RecordedEvent} (h : p.event? = some (item, e)) :
    p.item? = some item := by
  cases p with
  | attempt _ _ _ => exact congrArg (Option.map Prod.fst) h
  | handle _ _ _ _ => exact congrArg (Option.map Prod.fst) h
  | policy _ _ _ => exact congrArg (Option.map Prod.fst) h
  | complete _ _ _ => exact congrArg (Option.map Prod.fst) h
  | _ => cases h

/-- **An item on which a handler returned was given to its worker.** -/
theorem given_of_returned (hcalls : adapter.Untargeted) (hD : D.stream = "$all")
    (hw : Reachable (system D adapter number) w) (hbound : w.store.log.length < 2 ^ 53)
    {e : RecordedEvent} (hmem : (item, e) ∈ w.returned) :
    Given D w item ∧ e ∈ w.store.log ∧ (e.eventNumber : ℤ) = item.eventNumber := by
  refine hw.invariant_of_reachable (P := fun w => w.store.log.length < 2 ^ 53 →
    ∀ item e, (item, e) ∈ w.returned →
      Given D w item ∧ e ∈ w.store.log ∧ (e.eventNumber : ℤ) = item.eventNumber) ?_
    (fun s op s' hs ih _ hstep hbound' item e hmem => ?_) hbound item e hmem
  · rintro _ rfl _ item e hmem
    cases hmem
  · have hlog := step_log hcalls hs hstep
    have hbound := (hlog.length_le).trans_lt hbound'
    have hgiven : Given D s item ∧ e ∈ s.store.log ∧ (e.eventNumber : ℤ) = item.eventNumber := by
      rcases returned_origin hstep hmem with hold | ⟨id, wk, hwk, hevent⟩
      · exact ih hbound item e hold
      · exact ⟨given_of_item hcalls hD hs hbound hwk (item_of_event hevent),
          phase_mem_log hcalls hs hwk item e hevent, phase_event hs hwk item e hevent⟩
    exact ⟨hgiven.1.step hcalls hD hs hbound hstep, hlog.subset hgiven.2.1, hgiven.2.2⟩

/-- A worker has the item at hand, or a handler returned on it. -/
def TakenUp (w : World H M A) (item : Item) : Prop :=
  (∃ id wk, w.workers id = some wk ∧ wk.phase.item? = some item) ∨ ∃ e, (item, e) ∈ w.returned

theorem TakenUp.given (hcalls : adapter.Untargeted) (hD : D.stream = "$all")
    (hw : Reachable (system D adapter number) w) (hbound : w.store.log.length < 2 ^ 53)
    (h : TakenUp w item) : Given D w item := by
  rcases h with ⟨id, wk, hwk, hitem⟩ | ⟨e, hmem⟩
  · exact given_of_item hcalls hD hw hbound hwk hitem
  · exact (given_of_returned hcalls hD hw hbound hmem).1

/-- The subscription of an item that was handed out. -/
theorem Given.progress {C : World H M A → Op M I → Prop} (hcalls : adapter.Untargeted)
    (hD : D.stream = "$all") (hw : ReachableWhen (system D adapter number) C w)
    (hbound : w.store.log.length < 2 ^ 53) (h : Given D w item) :
    ∃ row start, row.pkey = (0, D.name) ∧ item.eventNumber ≤ row.lastSeen ∧
      w.routing.start = some start ∧ Progress D w.store w.routing.queue.events w.routing.inspected
        start w.routing.committed row := by
  have hle := h.routed
  have hinv := inv_of_reachable hcalls hD hw hbound
  have hc : w.store.Consistent := hinv.grounded.consistent.store
  cases hfind : w.store.subscriptions.find? (0, D.name) with
  | none =>
    -- There is no subscription, hence no cursor.
    rw [Queue.watermark, laneOf, hfind] at hle
    exact absurd hle (WithBot.not_coe_le_bot _)
  | some row =>
    rw [watermark_of_find hfind, WithBot.coe_le_coe] at hle
    obtain ⟨n, hall⟩ := hc.streamByUuid_all
    have hrow : D.row w.store = some row := by
      rw [RoutingDefinition.row, hD, Queue.subscription_of_find hall]
      exact hfind
    obtain ⟨start, hstart, hp⟩ := hinv.progress row hrow
    exact ⟨row, start, Table.key_of_find? hfind, hle, hstart, hp⟩

/-- An item that was handed out is one that `routeFn` gave to its partition, behind the start. -/
theorem Given.routeFn_eq {C : World H M A → Op M I → Prop} (hcalls : adapter.Untargeted)
    (hD : D.stream = "$all") (hw : ReachableWhen (system D adapter number) C w)
    (hbound : w.store.log.length < 2 ^ 53) (h : Given D w item) {e : RecordedEvent}
    (he : e ∈ w.store.log) (hn : (e.eventNumber : ℤ) = item.eventNumber) :
    D.routeFn e = .partition item.partitionKey ∧
      ∃ start, w.routing.start = some start ∧ start < e.eventNumber := by
  obtain ⟨row, start, hkey, -, hstart, hp⟩ := h.progress hcalls hD hw hbound
  have hc : w.store.Consistent := (grounded_of_reachable hcalls hw).consistent.store
  have hinserted : .inserted (row.pkey, item.partitionKey, item.eventNumber) ∈
      w.routing.queue.events := hkey ▸ h.inserted
  obtain ⟨e', he', hroute, hn'⟩ := (hp.mem_inserted _ _).mp (mem_insertedFor.mpr hinserted)
  obtain ⟨hlog, hlt, -⟩ : e' ∈ w.store.log ∧ start < e'.eventNumber ∧ e'.eventNumber ≤ row.lastSeen := by
    have hpassed := (hp.mem_committed hD hc e').mp he'
    rwa [passed, List.mem_filter, decide_eq_true_eq] at hpassed
  have heq : e' = e := hc.log_numbered.eventNumber.eq_of_pos_eq hlog he (by omega)
  exact ⟨heq ▸ hroute, start, hstart, heq ▸ hlt⟩

/-- **Every earlier event of the partition is finished.** -/
theorem Given.finished_before {C : World H M A → Op M I → Prop} (hcalls : adapter.Untargeted)
    (hD : D.stream = "$all") (hw : ReachableWhen (system D adapter number) C w)
    (hbound : w.store.log.length < 2 ^ 53) (h : Given D w item) {e : RecordedEvent} {start : ℕ}
    (hstart : w.routing.start = some start) (he : e ∈ w.store.log) (hlt : start < e.eventNumber)
    (hless : (e.eventNumber : ℤ) < item.eventNumber)
    (hroute : D.routeFn e = .partition item.partitionKey) :
    Queue.Finished w.routing.queue.events (itemKey D ⟨item.partitionKey, e.eventNumber⟩) := by
  obtain ⟨row, start', hkey, hle, hstart', hp⟩ := h.progress hcalls hD hw hbound
  obtain rfl := Option.some.inj (hstart.symm.trans hstart')
  have hc : w.store.Consistent := (grounded_of_reachable hcalls hw).consistent.store
  have hmem : e ∈ w.routing.committed := (hp.mem_committed hD hc e).mpr (by
    rw [passed, List.mem_filter, decide_eq_true_eq]
    exact ⟨he, hlt, by omega⟩)
  have hinserted := mem_insertedFor.mp
    ((hp.mem_inserted item.partitionKey e.eventNumber).mpr ⟨e, hmem, hroute, rfl⟩)
  rw [hkey] at hinserted
  rcases accounted_of_reachable hcalls hw _ hinserted with ⟨x, hx, hout⟩ | hfinished
  · have hxkey : x.pkey = itemKey D ⟨item.partitionKey, e.eventNumber⟩ := Table.key_of_find? hx
    obtain ⟨hlane, hn⟩ := lane_of_itemKey hxkey
    have hmem' := Queue.mem_outstanding (Table.mem_of_find? hx) hout
    rw [hlane, hn] at hmem'
    exact absurd (h.clear _ hmem') (not_le.mpr hless)
  · exact hfinished

end InOrder

end Instructed.Processing
