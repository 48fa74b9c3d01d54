import Instructed.Pm.Acknowledge

/-!
# The terminal completion of a process manager is not fenced

`complete_work_item_pm` checks that its caller holds the row. `complete_pm_instance` has no parameter for
the caller, and deletes the rows and the snapshot of the partition whoever calls it.

* `Lost`, `Unchanged`: the worker does not hold the row any more; the tables are as they were;
* `Vacant`, `Rejected`: there is nothing to delete; the call fails its checks;
* `terminal_unchanged_iff`: what a terminal call changes;
* `lost_unchanged_iff`: **when the completion by a worker that lost the row changes nothing**;
* `lost_changes`: such a completion deletes the state that another worker has written.
-/

namespace Instructed.Pm

open Sql Relational Transition Routing Processing

section Terminal

variable {δ S C : Type} (P : PmDefinition δ S C)

/-- The row belongs to the partition. -/
def InPartition (st : Store) (p : String) (row : WorkItemRow) : Prop :=
  some row.subscription = Queue.subscriptionKey st P.stream P.type ∧ row.partitionKey = p

/-- The worker `id` does not hold the row of the item. -/
def Lost (st : Store) (id : String) (item : Item) : Prop :=
  ∀ row ∈ st.workItems.rows, InPartition P st item.partitionKey row →
    row.eventNumber = item.eventNumber → row.claimedBy ≠ some id

/-- The rows and the snapshots are as they were. -/
def Unchanged (st st' : Store) : Prop :=
  st'.workItems = st.workItems ∧ st'.snapshots = st.snapshots

/-- The partition has no rows and no snapshot. -/
def Vacant (st : Store) (p : String) : Prop :=
  (∀ row ∈ st.workItems.rows, ¬ InPartition P st p row) ∧
    st.snapshots.find? (P.sourceUuid p) = none

/-- A call of `complete_pm_instance` fails its checks. -/
def Rejected (st : Store) (p : String) : Prop :=
  P.type = "" ∨ P.sourceUuid p = "" ∨ P.routing.row st = none

variable {P} {st st' : Store} {p : String}

/-- A terminal call succeeds, unless it fails its checks. -/
theorem completePmInstance_ok_iff : (∃ r, completePmInstance (some P.stream) (some P.type) (some p)
    (some (P.sourceUuid p)) st = .ok r) ↔ ¬ Rejected P st p := by
  constructor
  · rintro ⟨r, hrun⟩ hrejected
    obtain ⟨u, hu, hrun⟩ := bind_eq_ok.mp hrun
    obtain ⟨name, hname, hrun⟩ := bind_eq_ok.mp hrun
    obtain ⟨q, hq, hrun⟩ := bind_eq_ok.mp hrun
    obtain ⟨uuid, huuid, hrun⟩ := bind_eq_ok.mp hrun
    obtain ⟨stream, hstream, hrun⟩ := bind_eq_ok.mp hrun
    obtain ⟨row, hrow, -⟩ := bind_eq_ok.mp hrun
    obtain rfl := Option.some.inj (notNull_ok hu)
    rcases hrejected with htype | hkey | hnone
    · rw [htype] at hname
      cases hname
    · rw [hkey] at huuid
      cases huuid
    · obtain rfl := Option.some.inj (notEmpty_ok hname)
      have hfind := (row_of_stream (D := P.routing) (requireStream_ok hstream)).trans
        (requireSubscription_ok hrow)
      have habsurd := hnone.symm.trans hfind
      cases habsurd
  · intro h
    simp only [Rejected, not_or] at h
    obtain ⟨htype, huuid, hrow⟩ := h
    obtain ⟨row, hrow⟩ := Option.ne_none_iff_exists'.mp hrow
    obtain ⟨key, hkey, hfind⟩ := Option.bind_eq_some_iff.mp hrow
    obtain ⟨stream, hstream, rfl⟩ := Option.map_eq_some_iff.mp hkey
    have hstream' : st.streamByUuid P.stream = some stream := hstream
    have hfind' : st.subscriptions.find? (stream.streamId, P.type) = some row := hfind
    simp only [completePmInstance, notNull, notEmpty_of_ne htype, notEmpty_of_ne huuid, requireStream,
      hstream', requireSubscription, hfind', ok_bind]
    exact ⟨_, rfl⟩

/-- **What a terminal call changes.** -/
theorem terminal_unchanged_iff {r : (ℕ × Bool) × Store}
    (h : completePmInstance (some P.stream) (some P.type) (some p) (some (P.sourceUuid p)) st = .ok r) :
    Unchanged st r.2 ↔ Vacant P st p := by
  obtain ⟨_, _, _, _, stream, hu, hname, hp, huuid, hstream, hst⟩ := completePmInstance_ok h
  cases hu
  cases hname
  cases hp
  cases huuid
  have hkey : Queue.subscriptionKey st P.stream P.type = some (stream.streamId, P.type) := by
    rw [Queue.subscriptionKey, hstream, Option.map_some]
  have hpartition : ∀ row, InPartition P st p row ↔
      (row.subscription = (stream.streamId, P.type) ∧ row.partitionKey = p) := by
    intro row
    rw [InPartition, hkey, Option.some.injEq]
  rw [hst]
  refine and_congr ?_ ?_
  · constructor
    · intro heq row hrow hin
      change st.workItems.deleteWhere _ = st.workItems at heq
      rw [← heq, Table.mem_deleteWhere] at hrow
      exact of_decide_eq_false hrow.2 ((hpartition row).mp hin)
    · intro hnone
      apply Table.deleteWhere_eq_self
      intro row hrow
      exact decide_eq_false fun hin => hnone row hrow ((hpartition row).mpr hin)
  · constructor
    · intro heq
      change st.snapshots.deleteWhere _ = st.snapshots at heq
      rw [Table.find?_eq_none_iff]
      intro row hrow hkey
      rw [← heq, Table.mem_deleteWhere] at hrow
      exact of_decide_eq_false hrow.2 hkey
    · intro hnone
      apply Table.deleteWhere_eq_self
      intro row hrow
      exact decide_eq_false (Table.find?_eq_none_iff.mp hnone row hrow)

/-- A completion that is fenced, by a worker that lost the row, changes nothing. -/
theorem completePm_lost {id : String} {item : Item} {now : Timestamp} {s : PmSnapshotArgs} {r : Store}
    (hlost : Lost P st id item) : completeWorkItemPm now (itemArgs P.routing id item) s st ≠ .ok r := by
  intro hrun
  obtain ⟨ref, key, row, -, -, -, -, hheld, -⟩ := completeWorkItemPm_ok hrun
  obtain ⟨hsub, hp, hn, hholder⟩ := held_itemArgs hheld
  exact hlost row (Table.mem_of_find? hheld.find) ⟨hsub, hp⟩ hn hholder

/-! ## The result -/

section Worker

variable {w w' : Processing.World (Pc S C) (Memory δ S) (PmAct S C)}
  {wk : Processing.Worker (Pc S C) (Memory δ S) (PmAct S C)} {id : String} {item : Item}
  {event : RecordedEvent} {call : Timestamp → Queue.Call} {x : Input (PmInput C)}
  {keys : String → Bool} {number : JsNumber}

theorem Unchanged.refl (st : Store) : Unchanged st st := ⟨rfl, rfl⟩

/-- The database after the call of `complete`. -/
theorem complete_store (w : Processing.World (Pc S C) (Memory δ S) (PmAct S C)) (id : String)
    (wk : Processing.Worker (Pc S C) (Memory δ S) (PmAct S C)) (item : Item)
    (call : Timestamp → Queue.Call) (x : Input (PmInput C)) :
    (w.complete id wk item call x).store = (w.routing.call x.delivery (call x.now)).store := by
  unfold World.complete
  dsimp only
  split <;> rfl

/-- **A completion by a worker that lost the row** changes nothing if it is not terminal; a terminal one
    changes nothing exactly if it does not arrive, fails its checks or finds nothing. -/
theorem lost_unchanged_iff (hw : Reachable (Processing.system P.routing (adapter P keys) number) w)
    (hwk : w.workers id = some wk) (hphase : wk.phase = .complete item event call)
    (hlost : Lost P w.store id item)
    (hstep : Processing.step P.routing (adapter P keys) number w (.advance id x) = some w') :
    ∃ event' stagedState complete, (event'.eventNumber : ℤ) = item.eventNumber ∧
      call = completeCall P id wk.memory.version item event'
        ⟨P.sourceUuid item.partitionKey, stagedState, complete⟩ ∧
      (Unchanged w.store w'.store ↔ complete = false ∨ x.delivery.arrives = false ∨
        Rejected P w.store item.partitionKey ∨ Vacant P w.store item.partitionKey) := by
  obtain ⟨event', stagedState, complete, hnumber, rfl⟩ := phase_complete hw hwk hphase
  refine ⟨event', stagedState, complete, hnumber, rfl, ?_⟩
  simp only [Processing.step, hwk, Option.bind_some, Processing.World.advance, hphase,
    Option.some.injEq] at hstep
  rw [← hstep, complete_store]
  cases harrives : x.delivery.arrives with
  | false =>
    rw [Routing.World.call_of_lost harrives]
    exact iff_of_true (.refl _) (Or.inr (Or.inl rfl))
  | true =>
    cases complete with
    | false =>
      have hrefused : ∃ e, (completeCall P id wk.memory.version item event'
          ⟨P.sourceUuid item.partitionKey, stagedState, false⟩ x.now).run w.routing.store = .error e := by
        cases hrun : (completeCall P id wk.memory.version item event'
            ⟨P.sourceUuid item.partitionKey, stagedState, false⟩ x.now).run w.routing.store with
        | error e => exact ⟨e, rfl⟩
        | ok r =>
          obtain ⟨st, hst, -⟩ := map_eq_ok.mp hrun
          exact absurd hst (completePm_lost hlost)
      obtain ⟨e, he⟩ := hrefused
      rw [Routing.World.call_of_error he]
      exact iff_of_true (.refl _) (Or.inl rfl)
    | true =>
      by_cases hrejected : Rejected P w.store item.partitionKey
      · obtain ⟨e, he⟩ : ∃ e, completePmInstance (some P.stream) (some P.type)
            (some item.partitionKey) (some (P.sourceUuid item.partitionKey)) w.routing.store =
              .error e := by
          cases hrun : completePmInstance (some P.stream) (some P.type) (some item.partitionKey)
              (some (P.sourceUuid item.partitionKey)) w.routing.store with
          | error e => exact ⟨e, rfl⟩
          | ok r => exact absurd hrejected (completePmInstance_ok_iff.mp ⟨r, hrun⟩)
        have hrun : (completeCall P id wk.memory.version item event'
            ⟨P.sourceUuid item.partitionKey, stagedState, true⟩ x.now).run w.routing.store =
              .error e := by
          simp only [completeCall, if_pos, Queue.Call.run, he]
          rfl
        rw [Routing.World.call_of_error hrun]
        exact iff_of_true (.refl _) (Or.inr (Or.inr (Or.inl hrejected)))
      · obtain ⟨r, hr⟩ := completePmInstance_ok_iff.mpr hrejected
        have hrun : (completeCall P id wk.memory.version item event'
            ⟨P.sourceUuid item.partitionKey, stagedState, true⟩ x.now).run w.routing.store =
              .ok (r.2, (Queue.removedKeys w.routing.store r.2).map .removed) := by
          have hr' : completePmInstance (some P.stream) (some P.type) (some item.partitionKey)
            (some (P.sourceUuid item.partitionKey)) w.routing.store = .ok r := hr
          simp only [completeCall, if_pos, Queue.Call.run, hr']
          rfl
        rw [Routing.World.call_of_ok harrives hrun]
        change Unchanged w.store r.2 ↔ _
        rw [terminal_unchanged_iff hr]
        simp [hrejected]

end Worker

end Terminal

/-! ## A run -/

section Example

instance {δ S C : Type} (P : PmDefinition δ S C) (st : Store) (p : String) (row : WorkItemRow) :
    Decidable (InPartition P st p row) :=
  inferInstanceAs (Decidable (_ ∧ _))

instance {δ S C : Type} (P : PmDefinition δ S C) (st : Store) (id : String) (item : Item) :
    Decidable (Lost P st id item) :=
  inferInstanceAs (Decidable (∀ row ∈ st.workItems.rows, InPartition P st item.partitionKey row →
    row.eventNumber = item.eventNumber → row.claimedBy ≠ some id))

/-- The call deletes the instance. -/
def callsInstance : Queue.Call → Bool
  | .completePmInstance .. => true
  | _ => false

/-- Worker `b` takes the item over from `a` and completes it; then the `handle` of `a` returns
    `complete: true`. -/
def sampleTakeover : List (SampleOp String) :=
  sampleRouted ++ sampleStart "a" ++ List.replicate 3 (sampleAdvance "a" 20 sampleIdle) ++
    .start "b" 5 ⟨(), fun _ => none⟩ :: List.replicate 6 (sampleAdvance "b" 6000000 sampleIdle) ++
    [sampleAdvance "b" 6000000 ⟨some ([], false), .noOp⟩, sampleAdvance "b" 6000000 sampleIdle,
      sampleAdvance "a" 6000001 ⟨some ([], true), .noOp⟩]

/-- The system of the sample process manager. -/
abbrev sampleSystem := Processing.system samplePm.routing (adapter (C := String) samplePm sampleKeys)
  sampleNumber

/-- The terminal call of `a`, and its `complete` flag. -/
theorem lost_unchanged_iff_sampleTakeover : ∃ w w' wk event call,
    sampleSystem.run Processing.World.install sampleTakeover = some w ∧
      sampleSystem.step w (sampleAdvance "a" 6000001 sampleIdle) = some w' ∧
      w.workers "a" = some wk ∧ wk.phase = .complete ⟨"order-1", 1⟩ event call ∧
      ∃ event' stagedState complete, (event'.eventNumber : ℤ) = 1 ∧
        call = completeCall samplePm "a" wk.memory.version ⟨"order-1", 1⟩ event'
          ⟨samplePm.sourceUuid "order-1", stagedState, complete⟩ ∧
        complete = true ∧
        (Unchanged w.store w'.store ↔ complete = false ∨ Delivery.answered.arrives = false ∨
          Rejected samplePm w.store "order-1" ∨ Vacant samplePm w.store "order-1") := by
  have hrun : (sampleSystem.run Processing.World.install sampleTakeover).bind (fun w =>
      (w.workers "a").bind fun wk => match wk.phase with
        | .complete item _ call =>
          (sampleSystem.step w (sampleAdvance "a" 6000001 sampleIdle)).map fun _ =>
            (item, decide (Lost samplePm w.store "a" item), callsInstance (call 0))
        | _ => none) = some (⟨"order-1", 1⟩, true, true) := by decide +kernel
  obtain ⟨w, hw, hrest⟩ := Option.bind_eq_some_iff.mp hrun
  obtain ⟨wk, hwk, hrest⟩ := Option.bind_eq_some_iff.mp hrest
  split at hrest
  · rename_i item event call hphase
    obtain ⟨w', hw', heq⟩ := Option.map_eq_some_iff.mp hrest
    obtain ⟨rfl, hlost, hinstance⟩ := by simpa only [Prod.mk.injEq] using heq
    obtain ⟨event', stagedState, complete, hnumber, hcall, hiff⟩ :=
      lost_unchanged_iff (.run (.init rfl) hw) hwk hphase (of_decide_eq_true hlost) hw'
    refine ⟨w, w', wk, event, call, hw, hw', hwk, hphase, event', stagedState, complete, hnumber, hcall,
      ?_, hiff⟩
    rw [hcall] at hinstance
    cases complete with
    | true => rfl
    | false => cases hinstance
  · cases hrest

/-- The terminal call of `a` deletes the row that `b` has completed. -/
theorem lost_changes : ∃ w w' wk item event call,
    sampleSystem.run Processing.World.install sampleTakeover = some w ∧
      w.workers "a" = some wk ∧ wk.phase = .complete item event call ∧
        Lost samplePm w.store "a" item ∧
          sampleSystem.step w (sampleAdvance "a" 6000001 sampleIdle) = some w' ∧
            ¬ Unchanged w.store w'.store := by
  have hrun : (sampleSystem.run Processing.World.install sampleTakeover).bind (fun w =>
      (w.workers "a").bind fun wk => match wk.phase with
        | .complete item _ _ =>
          (sampleSystem.step w (sampleAdvance "a" 6000001 sampleIdle)).map fun w' =>
            (decide (Lost samplePm w.store "a" item), w.store.workItems.rows.map (·.state),
              w'.store.workItems.rows.map (·.state))
        | _ => none) = some (true, [.done], []) := by decide +kernel
  obtain ⟨w, hw, hrest⟩ := Option.bind_eq_some_iff.mp hrun
  obtain ⟨wk, hwk, hrest⟩ := Option.bind_eq_some_iff.mp hrest
  split at hrest
  · rename_i item event call hphase
    obtain ⟨w', hw', heq⟩ := Option.map_eq_some_iff.mp hrest
    obtain ⟨hlost, hbefore, hafter⟩ := by simpa only [Prod.mk.injEq] using heq
    refine ⟨w, w', wk, item, event, call, hw, hwk, hphase, of_decide_eq_true hlost, hw', ?_⟩
    rintro ⟨hitems, -⟩
    rw [hitems, hbefore] at hafter
    cases hafter
  · cases hrest

end Example

end Instructed.Pm
