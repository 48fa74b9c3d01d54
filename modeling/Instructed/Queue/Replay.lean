import Instructed.Queue.Frame

/-!
# Replaying a batch

`route_batch` is re-run with the decisions it committed. The rows that are there absorb the replay by
their primary key, so it inserts nothing exactly when no row of the batch is missing. A completion of
`complete_work_item_projection` deletes its row, and `complete_pm_instance` those of its partition;
what they deleted, the replay inserts again.

* `batchKeys`: the rows that a batch inserts;
* `Deletes`, `step_keeps`: the only steps that take a row away;
* `replay_unchanged_iff`: when a replay leaves the store as it is.
-/

namespace Instructed.Queue

open Sql Relational Transition

/-- The keys of the rows of a batch. -/
def batchKeys (sub : ℕ × String) (decisions : Option Json) : List Key :=
  match (decisionsOf decisions).bind fun ds => ds.mapM (decisionRow sub.1 sub.2) with
  | .ok items => items.map WorkItemRow.pkey
  | .error _ => []

/-- The operation deletes the row `key`: its holder completes it for a projection, or the instance of
    its partition is removed. -/
inductive Deletes {κ : Type} (st : Store) (key : Key) : Op κ → Prop
  | completed {a : ItemArgs} {worker : String} {row : WorkItemRow} : named a st = some (worker, key) →
      st.workItems.find? key = some row → row.claimedBy = some worker →
      Deletes st key (.call (.completeProjection a))
  | removed {u name p uuid : String} : subscriptionKey st u name = some key.1 → p = key.2.1 →
      Deletes st key (.call (.completePmInstance (some u) (some name) (some p) (some uuid)))

section Keeps

variable {κ : Type} [DecidableEq κ] {w w' : World κ} {op : Op κ} {key : Key}

theorem find?_put_isSome {t : Table WorkItemRow.pkey} (h : (t.find? key).isSome = true)
    (row : WorkItemRow) : ((t.put row).find? key).isSome = true := by
  rw [Table.find?_put]
  split_ifs
  · rfl
  · exact h

omit [DecidableEq κ] in
/-- A call that does not delete a row leaves a row under its key. -/
theorem Call.keeps {c : Call} {st st' : Store} {es : List Event} (h : c.run st = .ok (st', es))
    (hkeep : ¬ Deletes st key (.call c : Op κ)) (hrow : (st.workItems.find? key).isSome = true) :
    (st'.workItems.find? key).isSome = true := by
  obtain ⟨row, hfind⟩ := Option.isSome_iff_exists.mp hrow
  cases c with
  | claimSubscription now u name worker lease options =>
    obtain ⟨⟨r, s⟩, hr, heq⟩ := map_eq_ok.mp h
    cases heq
    obtain ⟨_, _, _, _, _, -, -, -, -, hclaim⟩ := claimSubscription_ok hr
    cases hclaim <;> exact hrow
  | releaseSubscription u name worker =>
    obtain ⟨s, hs, heq⟩ := map_eq_ok.mp h
    cases heq
    obtain ⟨_, _, _, _, _, -, -, -, -, -, -, rfl⟩ := releaseSubscription_ok hs
    exact hrow
  | routeBatch u name worker cursor decisions =>
    obtain ⟨⟨r, s⟩, hr, heq⟩ := map_eq_ok.mp h
    cases heq
    obtain ⟨_, _, _, _, _, _, _, items, -, -, -, -, -, -, -, -, -, -, rfl⟩ := routeBatch_ok hr
    have hkept : (st.workItems.insertAllNew items).find? key = some row :=
      Table.find?_insertAllNew hfind
    exact Option.isSome_of_eq_some hkept
  | extend now a lease =>
    obtain ⟨⟨e, s⟩, hs, heq⟩ := map_eq_ok.mp h
    cases heq
    obtain ⟨_, _, _, -, -, -, rfl⟩ := extendWorkItemClaim_ok hs
    exact find?_put_isSome hrow _
  | completeProjection a =>
    obtain ⟨s, hs, heq⟩ := map_eq_ok.mp h
    cases heq
    obtain ⟨r, k, held, hheld, rfl⟩ := completeWorkItemProjection_ok hs
    have hne : row.pkey ≠ k := by
      rintro rfl
      obtain rfl := Table.key_of_find? hfind
      exact hkeep (.completed (named_of_check hheld.check hheld.key_eq) hheld.find hheld.holder)
    show ((st.workItems.deleteWhere _).find? key).isSome = true
    rw [Table.find?_deleteWhere, hfind]
    simp [hne]
  | completePm now a s =>
    obtain ⟨_, hs, heq⟩ := map_eq_ok.mp h
    cases heq
    obtain ⟨_, _, _, _, _, _, _, -, -, -, rfl⟩ := completeWorkItemPm_ok hs
    exact find?_put_isSome hrow _
  | fail now a text =>
    obtain ⟨s, hs, heq⟩ := map_eq_ok.mp h
    cases heq
    obtain ⟨_, _, _, _, -, -, -, rfl⟩ := failWorkItem_ok hs
    exact find?_put_isSome hrow _
  | completePmInstance u name p uuid =>
    obtain ⟨⟨r, s⟩, hr, heq⟩ := map_eq_ok.mp h
    cases heq
    obtain ⟨u, name, p, uuid, stream, rfl, rfl, rfl, rfl, hstream, rfl⟩ := completePmInstance_ok hr
    have hne : ¬ (row.subscription = (stream.streamId, name) ∧ row.partitionKey = p) := by
      rintro ⟨hsub, hp⟩
      obtain rfl := Table.key_of_find? hfind
      refine hkeep (.removed ?_ hp.symm)
      rw [subscriptionKey, hstream, Option.map_some, ← hsub]
      rfl
    show ((st.workItems.deleteWhere _).find? key).isSome = true
    rw [Table.find?_deleteWhere, hfind]
    simpa using not_and_or.mp hne

/-- **A step that does not delete a row leaves a row under its key.** -/
theorem step_keeps (h : step w op = some w') (hkeep : ¬ Deletes w.db.store key op)
    (hrow : (w.db.store.workItems.find? key).isSome = true) :
    (w'.db.store.workItems.find? key).isSome = true := by
  cases step_ran h with
  | @append now a =>
    show ((w.db.append now a).2.store.workItems.find? key).isSome = true
    rw [(w.db.append_tables now a).2.1]
    exact hrow
  | call hc => exact Call.keeps hc hkeep hrow
  | @claimItem _ _ _ _ _ _ _ _ st _ _ hc =>
    obtain ⟨⟨item, _⟩, hs, heq⟩ := bind_eq_ok.mp hc
    cases heq
    obtain ⟨_, _, _, _, -, -, -, -, ⟨-, rfl⟩ | ⟨it, x, -, hx⟩⟩ := claimWorkItem_ok hs
    · exact hrow
    · show (st.workItems.find? key).isSome = true
      rw [hx.store]
      exact find?_put_isSome hrow _
  | idle hdb _ =>
    rw [hdb]
    exact hrow

end Keeps

/-! ## The replay -/

section Replay

variable {κ : Type} [DecidableEq κ] {w w₁ w₂ : World κ} {u name worker : String} {cursor : Option ℤ}
  {decisions : Option Json} {r : ℕ × ℕ} {st : Store} {row : SubscriptionRow}

theorem batchKeys_eq {sub : ℕ × String} {ds : List Json} {items : List WorkItemRow}
    (hds : decisionsOf decisions = .ok ds) (hitems : ds.mapM (decisionRow sub.1 sub.2) = .ok items) :
    batchKeys sub decisions = items.map WorkItemRow.pkey := by
  have hbind : ((decisionsOf decisions).bind fun ds => ds.mapM (decisionRow sub.1 sub.2)) =
      .ok items := by
    rw [hds]
    exact hitems
  rw [batchKeys, hbind]

/-- A batch that was committed, re-run by the holder of the lease. -/
theorem routeBatch_again {st st₁ st' : Store} (hcommit : routeBatch (some u) (some name) (some worker)
      cursor decisions st = .ok (r, st₁)) (hkey : subscriptionKey st u name = some row.pkey)
    (hrow : subscription st' u name = some row) (hlease : row.claimedBy = some worker) :
    ∃ (n : ℕ) (items : List WorkItemRow), cursor = some (n : ℤ) ∧
      batchKeys row.pkey decisions = items.map WorkItemRow.pkey ∧
      routeBatch (some u) (some name) (some worker) cursor decisions st' =
        .ok (((st'.insertItems items).workItems.rows.length - st'.workItems.rows.length,
          max row.lastSeen n),
          (st'.insertItems items).putSubscription { row with lastSeen := max row.lastSeen n }) := by
  obtain ⟨_, hu, h⟩ := bind_eq_ok.mp hcommit
  obtain ⟨_, hname, h⟩ := bind_eq_ok.mp h
  obtain ⟨_, hworker, h⟩ := bind_eq_ok.mp h
  obtain ⟨n, hn, h⟩ := bind_eq_ok.mp h
  obtain ⟨ds, hds, h⟩ := bind_eq_ok.mp h
  obtain ⟨stream, hstream, h⟩ := bind_eq_ok.mp h
  obtain ⟨old, -, h⟩ := bind_eq_ok.mp h
  split_ifs at h
  · cases h
  obtain ⟨items, hitems, -⟩ := bind_eq_ok.mp h
  cases notNull_ok hu
  cases notEmpty_ok hname
  cases notEmpty_ok hworker
  have hpkey : row.pkey = (stream.streamId, name) := by
    rw [subscriptionKey, requireStream_ok hstream] at hkey
    exact (Option.some.inj hkey).symm
  obtain ⟨stream', hstream', hfind⟩ : ∃ stream', st'.streamByUuid u = some stream' ∧
      st'.subscriptions.find? (stream'.streamId, name) = some row := by
    obtain ⟨key, hkey', hfind⟩ := Option.bind_eq_some_iff.mp hrow
    obtain ⟨stream', hstream', rfl⟩ := Option.map_eq_some_iff.mp hkey'
    exact ⟨stream', hstream', hfind⟩
  have hid : stream'.streamId = stream.streamId :=
    congrArg Prod.fst ((Table.key_of_find? hfind).symm.trans hpkey)
  rw [hid] at hfind
  refine ⟨n, items, nonNegative_ok hn, batchKeys_eq hds ?_, ?_⟩
  · rw [hpkey]
    exact hitems
  · simp [routeBatch, hu, hname, hworker, hn, hds, requireStream, hstream', requireSubscription, hfind,
      hid, hitems, hlease, bind, Except.bind, pure, Except.pure, Store.putSubscription]

/-- The result of a replay, compared with no change. -/
theorem replay_eq_iff {st : Store} {items : List WorkItemRow} {n : ℕ}
    (hfind : st.subscriptions.find? row.pkey = some row) (hn : n ≤ row.lastSeen) :
    (((st.insertItems items).workItems.rows.length - st.workItems.rows.length, max row.lastSeen n),
        (st.insertItems items).putSubscription { row with lastSeen := max row.lastSeen n }) =
        ((0, row.lastSeen), st) ↔
      ∀ key ∈ items.map WorkItemRow.pkey, (st.workItems.find? key).isSome = true := by
  rw [List.forall_mem_map, ← Table.insertAllNew_eq_self_iff]
  constructor
  · intro h
    exact congrArg (fun x => x.2.workItems) h
  · intro h
    have hitems : st.insertItems items = st := by rw [Store.insertItems, h]
    have hput : st.putSubscription row = st := by rw [Store.putSubscription, Table.put_self hfind]
    rw [hitems, max_eq_left hn, Nat.sub_self, hput]

theorem grounded_of_reachable (hw : Reachable (system (κ := κ)) w) : Grounded w :=
  hw.invariant (P := Grounded) (by rintro _ rfl; exact .install) fun _ _ _ hg _ hs => hg.step hs

/-- A subscription stays, and its cursor does not fall, in a whole run. -/
theorem run_lastSeen_le {ops : List (Op κ)} (hw : Grounded w) (hrun : system.run w ops = some w₂)
    (hrow : subscription w.db.store u name = some row) :
    ∃ row', subscription w₂.db.store u name = some row' ∧ row'.pkey = row.pkey ∧
      row.lastSeen ≤ row'.lastSeen := by
  have hinv := system.run_invariant
    (P := fun v => Grounded v ∧ ∃ row', subscription v.db.store u name = some row' ∧
      row'.pkey = row.pkey ∧ row.lastSeen ≤ row'.lastSeen)
    (fun v op v' hv hstep => ?_) hrun ⟨hw, row, hrow, rfl, le_rfl⟩
  · exact hinv.2
  · obtain ⟨hgrounded, old, hfind, hkey, hle⟩ := hv
    obtain ⟨old', hfind', hkey', hle'⟩ := hgrounded.lastSeen_le hstep hfind
    exact ⟨hgrounded.step hstep, old', hfind', hkey'.trans hkey, hle.trans hle'⟩

/-- The rows of a batch, once it is committed. -/
theorem find?_of_committed {st₀ : Store} (hcommit : routeBatch (some u) (some name) (some worker)
      cursor decisions st₀ = .ok (r, st)) :
    ∃ (n : ℕ) (row : SubscriptionRow), cursor = some (n : ℤ) ∧ n ≤ row.lastSeen ∧
      subscription st u name = some row ∧ subscriptionKey st₀ u name = some row.pkey ∧
      ∀ key ∈ batchKeys row.pkey decisions, (st.workItems.find? key).isSome = true := by
  obtain ⟨_, _, _, n, ds, stream, old, items, hu, hname, -, hn, hds, hstream, hold, -, hitems, -, rfl⟩ :=
    routeBatch_ok hcommit
  cases hu
  cases hname
  have hkey := Table.key_of_find? hold
  refine ⟨n, { old with lastSeen := max old.lastSeen n }, hn, le_max_right .., ?_, ?_, ?_⟩
  · have hstream' : ((st₀.insertItems items).putSubscription
        { old with lastSeen := max old.lastSeen n }).streamByUuid u = some stream := hstream
    rw [subscription_of_find hstream']
    exact (Table.find?_put ..).trans (if_pos hkey)
  · rw [subscriptionKey, hstream]
    exact congrArg some hkey.symm
  · have hbatch : batchKeys old.pkey decisions = items.map WorkItemRow.pkey := by
      refine batchKeys_eq hds ?_
      rw [hkey]
      exact hitems
    intro key hmem
    change key ∈ batchKeys old.pkey decisions at hmem
    rw [hbatch] at hmem
    obtain ⟨item, hitem, rfl⟩ := List.mem_map.mp hmem
    exact Table.find?_insertAllNew_isSome hitem

/-- **When a replay is absorbed.** A batch was committed, and its holder, who still or again holds the
    lease, re-runs it: it inserts nothing and leaves the store as it is if and only if every row of the
    batch is there, in whatever state. So it is in every run in which no step deletes one. -/
theorem replay_unchanged_iff {ops : List (Op κ)} (hw : Reachable system w)
    (hcommit : routeBatch (some u) (some name) (some worker) cursor decisions w.db.store = .ok (r, st))
    (hrun : system.run w
      (.call (.routeBatch (some u) (some name) (some worker) cursor decisions) :: ops) = some w₂)
    (hrow : subscription w₂.db.store u name = some row) (hlease : row.claimedBy = some worker) :
    (routeBatch (some u) (some name) (some worker) cursor decisions w₂.db.store =
        .ok ((0, row.lastSeen), w₂.db.store) ↔
      ∀ key ∈ batchKeys row.pkey decisions, (w₂.db.store.workItems.find? key).isSome = true) ∧
    (system.Along (fun v op => ∀ key ∈ batchKeys row.pkey decisions, ¬ Deletes v.db.store key op) w
        (.call (.routeBatch (some u) (some name) (some worker) cursor decisions) :: ops) →
      routeBatch (some u) (some name) (some worker) cursor decisions w₂.db.store =
        .ok ((0, row.lastSeen), w₂.db.store)) := by
  obtain ⟨w₁, hstep, hrun⟩ := System.run_cons_eq_some.mp hrun
  obtain ⟨n, old, hn, hle, hold, hkey, hthere⟩ := find?_of_committed hcommit
  have hcall : step w (.call (.routeBatch (some u) (some name) (some worker) cursor decisions)) =
      some w₁ := hstep
  have hgrounded := (grounded_of_reachable hw).step hcall
  have hst : w₁.db.store = st := by
    have hrunCall : (Call.routeBatch (some u) (some name) (some worker) cursor decisions).run
        w.db.store = .ok (st, (insertedKeys w.db.store st).map .inserted) := by
      rw [Call.run, hcommit]
      rfl
    have hw₁ := Option.some.inj hstep
    rw [hrunCall] at hw₁
    exact hw₁ ▸ rfl
  obtain ⟨row', hrow', hpkey, hle'⟩ := run_lastSeen_le hgrounded hrun (hst ▸ hold)
  obtain rfl := Option.some.inj (hrow'.symm.trans hrow)
  rw [← hpkey] at hkey hthere
  obtain ⟨m, items, hm, hbatch, hreplay⟩ := routeBatch_again hcommit hkey hrow hlease
  obtain rfl : m = n := by
    have hmn := hm.symm.trans hn
    simpa using hmn
  have hiff : routeBatch (some u) (some name) (some worker) cursor decisions w₂.db.store =
        .ok ((0, row'.lastSeen), w₂.db.store) ↔
      ∀ key ∈ batchKeys row'.pkey decisions, (w₂.db.store.workItems.find? key).isSome = true := by
    rw [hreplay, hbatch, Except.ok.injEq]
    exact replay_eq_iff (find?_of_subscription hrow) (hle.trans hle')
  refine ⟨hiff, fun halong => hiff.mpr fun key hmem => ?_⟩
  have hC := halong.2 w₁ hstep
  refine hC.run_invariant (P := fun v => (v.db.store.workItems.find? key).isSome = true)
    (fun v op v' hv hkeep hs => step_keeps hs (hkeep key hmem) hv) hrun ?_
  exact hst ▸ hthere key hmem

/-! ## A replay -/

/-- The decisions of `sampleBatch`. -/
def sampleDecisions : Json :=
  let decision (n : ℤ) : Json := .obj [("partition_key", .str "p"), ("event_number", .int n)]
  .arr [decision 1, decision 2]

def sampleRouteBatch (st : Store) : Except SqlError ((ℕ × ℕ) × Store) :=
  routeBatch (some "$all") (some "orders") (some "r") (some 2) (some sampleDecisions) st

/-- Before the batch the router claims the subscription. -/
def sampleLease : List (Op ℕ) :=
  [.call (.claimSubscription 10 (some "$all") (some "orders") (some "r") (some 30) none)]

/-- Worker `a` takes event 1 of the batch. -/
def sampleTaken : List (Op ℕ) :=
  [.openClaim 0,
   .claimItem 0 20 (fun _ => false) (some "$all") (some "orders") (some "a") (some 5)]

/-- The batch, the operations `ops`, and the replay: who holds the lease, whether every row is there,
    and how many rows the replay inserts. -/
def sampleReplay (ops : List (Op ℕ)) : Option (Option String × Bool × ℕ) :=
  (system.run World.install sampleLease).bind fun w =>
    (sampleRouteBatch w.db.store).toOption.bind fun _ =>
      (system.run w (.call sampleBatch :: ops)).bind fun w₂ =>
        (subscription w₂.db.store "$all" "orders").bind fun row =>
          (sampleRouteBatch w₂.db.store).toOption.map fun r =>
            (row.claimedBy, (batchKeys row.pkey (some sampleDecisions)).all
              fun key => (w₂.db.store.workItems.find? key).isSome, r.1.1)

/-- What a sample replay went through. -/
theorem sampleReplay_some {ops : List (Op ℕ)} {holder : Option String} {b : Bool} {n : ℕ}
    (h : sampleReplay ops = some (holder, b, n)) :
    ∃ (w w₂ : World ℕ) (row : SubscriptionRow) (r r₂ : (ℕ × ℕ) × Store), Reachable system w ∧
      sampleRouteBatch w.db.store = .ok r ∧ system.run w (.call sampleBatch :: ops) = some w₂ ∧
      subscription w₂.db.store "$all" "orders" = some row ∧ row.claimedBy = holder ∧
      ((batchKeys row.pkey (some sampleDecisions)).all
        fun key => (w₂.db.store.workItems.find? key).isSome) = b ∧
      sampleRouteBatch w₂.db.store = .ok r₂ ∧ r₂.1.1 = n := by
  obtain ⟨w, hw, h⟩ := Option.bind_eq_some_iff.mp h
  obtain ⟨r, hr, h⟩ := Option.bind_eq_some_iff.mp h
  obtain ⟨w₂, hrun, h⟩ := Option.bind_eq_some_iff.mp h
  obtain ⟨row, hrow, h⟩ := Option.bind_eq_some_iff.mp h
  obtain ⟨r₂, hr₂, h⟩ := Option.map_eq_some_iff.mp h
  simp only [Prod.mk.injEq] at h
  obtain ⟨hholder, hb, hn⟩ := h
  exact ⟨w, w₂, row, r, r₂, Reachable.run (.init rfl) hw, toOption_eq_some hr, hrun, hrow, hholder, hb,
    toOption_eq_some hr₂, hn⟩

theorem replay_unchanged_iff_sampleTaken : ∃ (w w₂ : World ℕ) (row : SubscriptionRow),
    Reachable system w ∧ system.run w (.call sampleBatch :: sampleTaken) = some w₂ ∧
      sampleRouteBatch w₂.db.store = .ok ((0, row.lastSeen), w₂.db.store) := by
  have h : sampleReplay sampleTaken = some (some "r", true, 0) := by decide +kernel
  obtain ⟨w, w₂, row, r, -, hw, hcommit, hrun, hrow, hholder, hall, -⟩ := sampleReplay_some h
  refine ⟨w, w₂, row, hw, hrun, ?_⟩
  exact (replay_unchanged_iff hw hcommit hrun hrow hholder).1.mpr fun key hmem =>
    List.all_eq_true.mp hall key hmem

/-- Worker `a` completes event 1 of the batch. The router, who has held the lease all along, re-runs the
    batch, which inserts event 1 again. -/
theorem replay_reinserts : ¬ ∀ (w w₂ : World ℕ) (row : SubscriptionRow) (ops : List (Op ℕ))
    (r : (ℕ × ℕ) × Store), Reachable system w → sampleRouteBatch w.db.store = .ok r →
      system.run w (.call sampleBatch :: ops) = some w₂ →
      subscription w₂.db.store "$all" "orders" = some row → row.claimedBy = some "r" →
      sampleRouteBatch w₂.db.store = .ok ((0, row.lastSeen), w₂.db.store) := by
  intro hclaim
  have h : sampleReplay (sampleTaken ++ [.call (.completeProjection (sampleItem "a" 1))]) =
      some (some "r", false, 1) := by decide +kernel
  obtain ⟨w, w₂, row, r, r₂, hw, hcommit, hrun, hrow, hholder, -, hreplay, hn⟩ := sampleReplay_some h
  rw [hclaim w w₂ row _ r hw hcommit hrun hrow hholder] at hreplay
  cases hreplay
  cases hn

end Replay

end Instructed.Queue
