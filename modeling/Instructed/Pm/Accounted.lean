import Instructed.Pm.Acknowledge
import Instructed.Processing.InOrder
import Instructed.Queue.Accounted

/-!
# No event of a process manager gets lost

`complete_pm_instance` deletes all rows of the partition, those too that wait for their turn. These events
are never handled.

* `Returned`: the handler returned on the event of an item;
* `Ending`: a worker is about to end the instance of a partition, as the user's `handle` has asked;
* `Discarded`: the end of the instance deletes the row;
* `effect_finished`: how a row is finished;
* `events_accounted`: **every event that was routed waits, or was handled, or was discarded**;
* `reacted_in_order`: **the events of an instance are handled in order, but for those discarded**.
-/

namespace Instructed.Pm

open Sql Relational Transition Routing Processing

section Accounted

variable {δ S C : Type} (P : PmDefinition δ S C) (keys : String → Bool) (number : JsNumber)

/-- The handler returned on the event of the item, all of its commands being dispatched. -/
def Returned (w : Processing.World (Pc S C) (Memory δ S) (PmAct S C)) (item : Item) : Prop :=
  ∃ e ∈ w.store.log, (e.eventNumber : ℤ) = item.eventNumber ∧ (item, e) ∈ w.returned

/-- A worker is about to call `complete_pm_instance` for the partition `p`, after an attempt at one of its
    events, in which the user's `handle` returned `complete: true`. -/
def Ending (w : Processing.World (Pc S C) (Memory δ S) (PmAct S C)) (p : String) : Prop :=
  ∃ id wk item e call before n stagedState commands, w.workers id = some wk ∧
    wk.phase = .complete item e call ∧ item.partitionKey = p ∧ (item, e) ∈ w.returned ∧
      history wk.acts = before ++ [.completing item call] ∧
        Attempted P wk.memory.version item n stagedState commands true commands before

/-- In the run `ops`, the end of an instance deleted the row. -/
def Discarded (ops : List (Processing.Op (Memory δ S) (PmInput C))) (key : Queue.Key) : Prop :=
  ∃ before op after w w', ops = before ++ op :: after ∧
    (Processing.system P.routing (adapter P keys) number).run Processing.World.install before = some w ∧
      Processing.step P.routing (adapter P keys) number w op = some w' ∧ Ending P w key.2.1 ∧
        w.store.workItems.find? key ≠ none ∧ w'.store.workItems.find? key = none

variable {P keys number} {w w' : Processing.World (Pc S C) (Memory δ S) (PmAct S C)}
  {op : Processing.Op (Memory δ S) (PmInput C)} {id : String} {item : Item} {key : Queue.Key}
  {wk : Processing.Worker (Pc S C) (Memory δ S) (PmAct S C)}

/-- What a worker that is about to complete an item has done. -/
theorem attempted_of_complete {e : RecordedEvent} {call : Timestamp → Queue.Call}
    (hw : Reachable (Processing.system P.routing (adapter P keys) number) w)
    (hwk : w.workers id = some wk) (hphase : wk.phase = .complete item e call) :
    ∃ before event n stagedState commands complete,
      history wk.acts = before ++ [.completing item call] ∧
        Attempted P wk.memory.version item n stagedState commands complete commands before ∧
          call = completeCall P id wk.memory.version item event
            ⟨P.sourceUuid item.partitionKey, stagedState, complete⟩ := by
  have hok := workerOk_of_reachable hw hwk
  have hphaseOk := hok.phase
  rw [hphase] at hphaseOk
  obtain ⟨before, hbefore⟩ := hphaseOk
  obtain ⟨event, n, stagedState, commands, complete, -, hattempt, hcall⟩ :=
    (hok.follows before _ [] hbefore).completing item call rfl
  exact ⟨before, event, n, stagedState, commands, complete, hbefore, hattempt, hcall⟩

/-- A row that is finished by a deletion of rows was there, and is gone. -/
theorem of_removed {st st' : Store}
    (h : Queue.Finished ((Queue.removedKeys st st').map Queue.Event.removed) key) :
    ∃ row, st.workItems.find? key = some row ∧ st'.workItems.find? key = none := by
  rcases h with ⟨worker, hmem⟩ | hmem
  · obtain ⟨_, -, heq⟩ := List.mem_map.mp hmem
    cases heq
  · obtain ⟨k, hk, heq⟩ := List.mem_map.mp hmem
    obtain rfl := Queue.Event.removed.inj heq
    obtain ⟨hk, hgone⟩ := List.mem_filter.mp hk
    obtain ⟨row, hrow, rfl⟩ := List.mem_map.mp hk
    exact ⟨row, Table.find?_key hrow, Option.isNone_iff_eq_none.mp hgone⟩

/-- A row that is finished by its completion is the caller's. -/
theorem of_completed {st : Store} {D : RoutingDefinition}
    (h : Queue.Finished (((Queue.named (itemArgs D id item) st).map fun k =>
      Queue.Event.completed k.1 k.2).toList) key) :
    ∃ sub, Queue.subscriptionKey st D.stream D.name = some sub ∧
      key = (sub, item.partitionKey, item.eventNumber) := by
  rw [named_itemArgs, Option.map_map] at h
  rcases h with ⟨worker, hmem⟩ | hmem
  · obtain ⟨sub, hsub, heq⟩ := Option.map_eq_some_iff.mp (Option.mem_toList.mp hmem)
    cases heq
    exact ⟨sub, hsub, rfl⟩
  · obtain ⟨sub, -, heq⟩ := Option.map_eq_some_iff.mp (Option.mem_toList.mp hmem)
    cases heq

/-- The item was handled, or the end of an instance deletes its row. -/
theorem effect_finished (hw : Reachable (Processing.system P.routing (adapter P keys) number) w)
    {st : Store} {es : List Queue.Event} (h : Effect P.routing (adapter P keys) number w st es)
    (hfinished : Queue.Finished es key) :
    Returned w ⟨key.2.1, key.2.2⟩ ∨ Ending P w key.2.1 ∧ w.store.workItems.find? key ≠ none ∧
      st.workItems.find? key = none := by
  obtain ⟨id, wk, item, e, call, now, hwk, hphase, hrun⟩ := h.of_finished hfinished
  obtain ⟨before, event, n, stagedState, commands, complete, hbefore, hattempt, rfl⟩ :=
    attempted_of_complete hw hwk hphase
  have hreturned := phase_returned hw hwk item e _ hphase
  cases complete with
  | true =>
    right
    obtain ⟨⟨r, st'⟩, hr, heq⟩ := map_eq_ok.mp hrun
    cases heq
    obtain ⟨_, name, p, _, stream, -, -, hp, -, -, hst⟩ := completePmInstance_ok hr
    obtain rfl := Option.some.inj hp
    obtain ⟨row, hrow, hgone⟩ := of_removed hfinished
    refine ⟨⟨id, wk, item, e, _, before, n, stagedState, commands, hwk, hphase, ?_, hreturned,
      hbefore, hattempt⟩, ?_, hgone⟩
    · subst hst
      by_contra hne
      -- A row of another partition stays.
      have hkept : (w.store.workItems.deleteWhere fun w => w.subscription = (stream.streamId, name) ∧
          w.partitionKey = item.partitionKey).find? key = w.store.workItems.find? key := by
        refine Table.find?_deleteWhere_of_not fun r hr => decide_eq_false fun hin => hne ?_
        rw [← hr]
        exact hin.2.symm
      rw [hrow] at hkept
      have hfound := hkept.symm.trans hgone
      cases hfound
    · rw [hrow]
      exact Option.some_ne_none row
  | false =>
    left
    obtain ⟨st', -, heq⟩ := map_eq_ok.mp hrun
    cases heq
    obtain ⟨sub, -, rfl⟩ := of_completed hfinished
    exact ⟨e, phase_mem_log (adapter_untargeted keys) hw hwk item e (by rw [hphase]; rfl),
      phase_event hw hwk item e (by rw [hphase]; rfl), hreturned⟩

/-! ## Runs -/

theorem Returned.step (h : Returned w item)
    (hw : Reachable (Processing.system P.routing (adapter P keys) number) w)
    (hstep : Processing.step P.routing (adapter P keys) number w op = some w') : Returned w' item := by
  obtain ⟨e, he, hn, hmem⟩ := h
  exact ⟨e, (step_log (adapter_untargeted keys) hw hstep).subset he, hn, step_returned hstep hmem⟩

/-- **Every row that was finished was handled, or discarded.** -/
theorem finished_accounted {ops : List (Processing.Op (Memory δ S) (PmInput C))}
    (hrun : (Processing.system P.routing (adapter P keys) number).run Processing.World.install ops =
      some w) :
    ∀ key, Queue.Finished w.routing.queue.events key →
      Returned w ⟨key.2.1, key.2.2⟩ ∨ Discarded P keys number ops key := by
  induction ops using List.reverseRecOn generalizing w with
  | nil =>
    obtain rfl := Option.some.inj hrun
    rintro key (⟨worker, hmem⟩ | hmem) <;> cases hmem
  | append_singleton ops op ih =>
    intro key hfinished
    obtain ⟨s, hs, hop⟩ := System.run_append.mp hrun
    obtain ⟨t, ht, hnil⟩ := System.run_cons_eq_some.mp hop
    obtain rfl := Option.some.inj hnil
    have hreach : Reachable (Processing.system P.routing (adapter P keys) number) s :=
      .run (.init rfl) hs
    obtain ⟨es, heffect, hes⟩ := step_effect ht
    rw [hes, Queue.finished_append] at hfinished
    rcases hfinished with hold | hnew
    · rcases ih hs key hold with hreturned | ⟨before, o, after, s₁, s₂, heq, hrest⟩
      · exact Or.inl (hreturned.step hreach ht)
      · refine Or.inr ⟨before, o, after ++ [op], s₁, s₂, ?_, hrest⟩
        rw [heq, List.append_assoc, List.cons_append]
    · rcases effect_finished hreach heffect hnew with hreturned | ⟨hending, hthere, hgone⟩
      · exact Or.inl (hreturned.step hreach ht)
      · exact Or.inr ⟨ops, op, [], s, t, rfl, hs, ht, hending, hthere, hgone⟩

/-- **No event gets lost.** Every event behind the start and up to the cursor is ignored by `routeFn`, or
    waits in its partition, or was handled, or its row was deleted when the user's `handle` ended the
    instance of its partition. -/
theorem events_accounted {ops : List (Processing.Op (Memory δ S) (PmInput C))} {row : SubscriptionRow}
    (hD : P.stream = "$all")
    (hrun : (Processing.system P.routing (adapter P keys) number).run Processing.World.install ops =
      some w)
    (hbound : w.store.log.length < 2 ^ 53) (hrow : P.routing.row w.store = some row) :
    ∃ start, w.routing.start = some start ∧ ∀ e ∈ w.store.log, start < e.eventNumber →
      e.eventNumber ≤ row.lastSeen → P.routeFn e = .ignore ∨ ∃ p, P.routeFn e = .partition p ∧
        (Queue.Waiting w.store (row.pkey, p, e.eventNumber) ∨ (⟨p, e.eventNumber⟩, e) ∈ w.returned ∨
          Discarded P keys number ops (row.pkey, p, e.eventNumber)) := by
  have hw : Reachable (Processing.system P.routing (adapter P keys) number) w := .run (.init rfl) hrun
  have hinv := inv_of_reachable (adapter_untargeted keys) hD hw hbound
  have hc : w.store.Consistent := hinv.grounded.consistent.store
  obtain ⟨start, hstart, hp⟩ := hinv.progress row hrow
  refine ⟨start, hstart, fun e he hlt hle => ?_⟩
  have hmem : e ∈ w.routing.committed := (hp.mem_committed hD hc e).mpr (by
    rw [passed, List.mem_filter, decide_eq_true_eq]
    exact ⟨he, hlt, hle⟩)
  refine ((decided_of_reachable (adapter_untargeted keys) hw).committed e hmem).imp_right ?_
  rintro ⟨p, hroute⟩
  have hinserted := mem_insertedFor.mp ((hp.mem_inserted p e.eventNumber).mpr ⟨e, hmem, hroute, rfl⟩)
  refine ⟨p, hroute, ?_⟩
  rcases accounted_of_reachable (adapter_untargeted keys) hw _ hinserted with hwaiting | hfinished
  · exact Or.inl hwaiting
  · right
    refine (finished_accounted hrun _ hfinished).imp_left fun hreturned => ?_
    obtain ⟨e', he', hn, hmem'⟩ := hreturned
    have hnumber : (e'.eventNumber : ℤ) = e.eventNumber := hn
    rwa [hc.log_numbered.eventNumber.eq_of_pos_eq he' he (by omega)] at hmem'

/-- **A process manager sees the events of an instance in order**: an event is at hand only when every
    earlier event of its partition was handled, or was discarded with an instance that had ended. -/
theorem reacted_in_order {ops : List (Processing.Op (Memory δ S) (PmInput C))} {item : Item}
    (hD : P.stream = "$all")
    (hrun : (Processing.system P.routing (adapter P keys) number).run Processing.World.install ops =
      some w)
    (hbound : w.store.log.length < 2 ^ 53) (h : TakenUp w item) :
    ∃ start, w.routing.start = some start ∧ ∀ e ∈ w.store.log, start < e.eventNumber →
      (e.eventNumber : ℤ) < item.eventNumber → P.routeFn e = .partition item.partitionKey →
        (⟨item.partitionKey, e.eventNumber⟩, e) ∈ w.returned ∨
          Discarded P keys number ops (itemKey P.routing ⟨item.partitionKey, e.eventNumber⟩) := by
  have hw : Reachable (Processing.system P.routing (adapter P keys) number) w := .run (.init rfl) hrun
  have hcalls := adapter_untargeted (P := P) keys
  have hgiven := h.given hcalls hD hw hbound
  have hc : w.store.Consistent := (grounded_of_reachable hcalls hw).consistent.store
  obtain ⟨row, start, -, -, hstart, -⟩ := hgiven.progress hcalls hD hw hbound
  refine ⟨start, hstart, fun e he hlt hless hroute => ?_⟩
  have hfinished := hgiven.finished_before hcalls hD hw hbound hstart he hlt hless hroute
  refine (finished_accounted hrun _ hfinished).imp_left fun hreturned => ?_
  obtain ⟨e', he', hn, hmem⟩ := hreturned
  have hnumber : (e'.eventNumber : ℤ) = e.eventNumber := hn
  rwa [hc.log_numbered.eventNumber.eq_of_pos_eq he' he (by omega)] at hmem

end Accounted

/-! ## A run -/

section Example

/-- A second event of the stream is routed while worker `a` handles the first, which ends the instance. -/
def sampleEnd : List (SampleOp String) :=
  sampleRouted ++ sampleStart "a" ++ [sampleEvent "order-1" "2"] ++
    List.replicate 6 (.routing (.advance "r" 10 .answered)) ++
    sampleHandled "a" 20 (some ([], true)) ++ [sampleAdvance "a" 20 sampleIdle]

theorem events_accounted_sampleEnd : ∃ w row,
    (Processing.system samplePm.routing (adapter samplePm sampleKeys) sampleNumber).run
        Processing.World.install sampleEnd = some w ∧
      samplePm.routing.row w.store = some row ∧ row.lastSeen = 2 ∧ w.store.workItems.rows = [] ∧
      w.returned.map (fun x => x.2.eventNumber) = [1] ∧
      ∃ start, w.routing.start = some start ∧ ∀ e ∈ w.store.log, start < e.eventNumber →
        e.eventNumber ≤ row.lastSeen → samplePm.routeFn e = .ignore ∨
          ∃ p, samplePm.routeFn e = .partition p ∧
            (Queue.Waiting w.store (row.pkey, p, e.eventNumber) ∨
              (⟨p, e.eventNumber⟩, e) ∈ w.returned ∨
              Discarded samplePm sampleKeys sampleNumber sampleEnd (row.pkey, p, e.eventNumber)) := by
  have hrun : ((Processing.system samplePm.routing (adapter samplePm sampleKeys) sampleNumber).run
      Processing.World.install sampleEnd).bind (fun w => (samplePm.routing.row w.store).map fun row =>
        (row.lastSeen, decide (w.store.workItems.rows = []), decide (w.store.log.length < 2 ^ 53),
          w.returned.map fun x => x.2.eventNumber)) = some (2, true, true, [1]) := by
    decide +kernel
  obtain ⟨w, hw, hrun⟩ := Option.bind_eq_some_iff.mp hrun
  obtain ⟨row, hrow, heq⟩ := Option.map_eq_some_iff.mp hrun
  obtain ⟨hseen, heq⟩ := Prod.mk.inj heq
  obtain ⟨hrows, heq⟩ := Prod.mk.inj heq
  obtain ⟨hbound, hreturned⟩ := Prod.mk.inj heq
  exact ⟨w, row, hw, hrow, hseen, of_decide_eq_true hrows, hreturned,
    events_accounted rfl hw (of_decide_eq_true hbound) hrow⟩

/-- Worker `a` handles the first event; the second is handed out to worker `b`. -/
def sampleHandedOut : List (SampleOp String) :=
  sampleRouted ++ sampleStart "a" ++ sampleHandled "a" 20 (some ([], false)) ++
    [sampleAdvance "a" 20 sampleIdle, sampleEvent "order-1" "2"] ++ sampleRoute ++ sampleStart "b"

theorem reacted_in_order_sampleHandedOut : ∃ w,
    (Processing.system samplePm.routing (adapter samplePm sampleKeys) sampleNumber).run
        Processing.World.install sampleHandedOut = some w ∧ TakenUp w ⟨"order-1", 2⟩ ∧
      ∃ start, w.routing.start = some start ∧ ∀ e ∈ w.store.log, start < e.eventNumber →
        (e.eventNumber : ℤ) < 2 → samplePm.routeFn e = .partition "order-1" →
          (⟨"order-1", e.eventNumber⟩, e) ∈ w.returned ∨ Discarded samplePm sampleKeys sampleNumber
            sampleHandedOut (itemKey samplePm.routing ⟨"order-1", e.eventNumber⟩) := by
  have hrun : ((Processing.system samplePm.routing (adapter samplePm sampleKeys) sampleNumber).run
      Processing.World.install sampleHandedOut).bind (fun w => (w.workers "b").map fun wk =>
        (wk.phase.item?, decide (w.store.log.length < 2 ^ 53))) = some (some ⟨"order-1", 2⟩, true) := by
    decide +kernel
  obtain ⟨w, hw, hrest⟩ := Option.bind_eq_some_iff.mp hrun
  obtain ⟨wk, hwk, heq⟩ := Option.map_eq_some_iff.mp hrest
  obtain ⟨hitem, hbound⟩ := Prod.mk.inj heq
  have htaken : TakenUp w ⟨"order-1", 2⟩ := Or.inl ⟨"b", wk, hwk, hitem⟩
  exact ⟨w, hw, htaken, reacted_in_order rfl hw (of_decide_eq_true hbound) htaken⟩

end Example

end Instructed.Pm
