import Instructed.Queue.ForeignKeys

/-!
# The operator's calls on subscriptions

`tools/instructedctl/src/core/subscriptions.ts`. `rebuildSubscription` (lines 196–238) makes a worker
route the whole history again: in one transaction it deletes the subscription, claims it at the origin,
and releases it. The model of the transaction is one step, as the worker of the subscription is stopped.

* `currentHolder`, `rebuildSubscription`: the calls;
* `rebuildSubscription_eq`: what a rebuild leaves in the tables;
* `rebuilt`: **after a rebuild the subscription behaves, whatever runs from then on, as a new one in a
  database that holds the same events and nothing else.**
-/

namespace Instructed.Operator

open Sql Relational Transition Queue

/-- `REBUILD_WORKER_ID`. -/
def rebuildWorkerId : String := "instructedctl-rebuild"

/-- `currentHolder` (lines 105–120), `none` if there is no such subscription. -/
def currentHolder (streamUuid name : String) (st : Store) : Option (Option String) :=
  (subscription st streamUuid name).map (·.claimedBy)

/-- `rebuildSubscription`, with the `existed` it returns. -/
def rebuildSubscription (now : Timestamp) (streamUuid name : String) (st : Store) :
    Except SqlError (Bool × Store) := do
  let existed := (currentHolder streamUuid name st).isSome
  let st ← (if existed then deleteSubscription (some streamUuid) (some name) st else pure st)
  let (_, st) ← claimSubscription now (some streamUuid) (some name) (some rebuildWorkerId) (some 1)
    (some (.obj [("start_from", .str "origin")])) st
  let st ← releaseSubscription (some streamUuid) (some name) (some rebuildWorkerId) st
  return (existed, st)

/-! ## The tables after a rebuild -/

/-- The store after the subscription `key` was rebuilt. -/
def rebuiltStore (key : ℕ × String) (st : Store) : Store :=
  { st with
    subscriptions := (st.subscriptions.deleteWhere fun s => s.pkey = key).put ⟨key.1, key.2, 0, none, none⟩
    workItems := st.workItems.deleteWhere fun w => w.subscription = key }

section Tables

variable {st : Store} {stream : StreamRow} {u name : String} {key : ℕ × String}

/-- A subscription that does not exist is created at the origin, and released. -/
theorem claim_release (now : Timestamp) (hstream : st.streamByUuid u = some stream) (hname : name ≠ "")
    (hnone : st.subscriptions.find? (stream.streamId, name) = none) :
    (do
      let (_, st) ← claimSubscription now (some u) (some name) (some rebuildWorkerId) (some 1)
        (some (.obj [("start_from", .str "origin")])) st
      releaseSubscription (some u) (some name) (some rebuildWorkerId) st) =
      .ok (st.putSubscription ⟨stream.streamId, name, 0, none, none⟩) := by
  have hworker : rebuildWorkerId ≠ "" := by decide
  let row : SubscriptionRow :=
    ⟨stream.streamId, name, 0, some rebuildWorkerId, some (addSeconds now 1)⟩
  have hclaim : claimSubscription now (some u) (some name) (some rebuildWorkerId) (some 1)
      (some (.obj [("start_from", .str "origin")])) st =
        .ok (⟨.claimed, 0, some rebuildWorkerId, some (addSeconds now 1)⟩, st.putSubscription row) := by
    simp only [claimSubscription, notNull, notEmpty_of_ne hname, notEmpty_of_ne hworker,
      positive_of_pos Int.one_pos, hstream, hnone, bind, Except.bind, pure, Except.pure]
    rfl
  have hfind : (st.putSubscription row).subscriptions.find? (stream.streamId, name) = some row := by
    rw [Store.putSubscription, Table.find?_put]
    exact if_pos rfl
  have hrelease : releaseSubscription (some u) (some name) (some rebuildWorkerId)
      (st.putSubscription row) =
        .ok ((st.putSubscription row).putSubscription ⟨stream.streamId, name, 0, none, none⟩) := by
    have hstream' : (st.putSubscription row).streamByUuid u = some stream := hstream
    simp only [releaseSubscription, notNull, notEmpty_of_ne hname, notEmpty_of_ne hworker,
      requireStream, hstream', requireSubscription, hfind, bind, Except.bind, pure, Except.pure]
    rfl
  have hput : (st.subscriptions.put row).put ⟨stream.streamId, name, 0, none, none⟩ =
      st.subscriptions.put ⟨stream.streamId, name, 0, none, none⟩ := Table.put_put rfl
  rw [hclaim]
  refine hrelease.trans ?_
  simp only [Store.putSubscription, hput]

/-- **What a rebuild leaves in the tables.** -/
theorem rebuildSubscription_eq (now : Timestamp) (href : Referenced st)
    (hstream : st.streamByUuid u = some stream) (hname : name ≠ "") :
    rebuildSubscription now u name st =
      .ok ((subscription st u name).isSome, rebuiltStore (stream.streamId, name) st) := by
  have hsub : subscription st u name = st.subscriptions.find? (stream.streamId, name) :=
    subscription_of_find hstream
  have hdeleted : (if (subscription st u name).isSome then
      deleteSubscription (some u) (some name) st else pure st) = .ok { st with
        subscriptions := st.subscriptions.deleteWhere fun s => s.pkey = (stream.streamId, name)
        workItems := st.workItems.deleteWhere fun w => w.subscription = (stream.streamId, name) } := by
    rw [hsub]
    cases hfind : st.subscriptions.find? (stream.streamId, name) with
    | some row =>
      simp [deleteSubscription, notNull, notEmpty_of_ne hname, requireStream, hstream,
        requireSubscription, hfind, bind, Except.bind, pure, Except.pure]
    | none =>
      -- No row refers to a subscription that does not exist.
      have hnone := Table.find?_eq_none_iff.mp hfind
      have hsubs : (st.subscriptions.deleteWhere fun s => s.pkey = (stream.streamId, name)) =
          st.subscriptions := Table.deleteWhere_eq_self fun s hs => decide_eq_false (hnone s hs)
      have hitems : (st.workItems.deleteWhere fun w => w.subscription = (stream.streamId, name)) =
          st.workItems := Table.deleteWhere_eq_self fun w hw => decide_eq_false fun heq => by
        obtain ⟨row, hrow, hkey⟩ := href w hw
        exact hnone row hrow (hkey.trans heq)
      rw [hsubs, hitems]
      rfl
  have hexisted : (currentHolder u name st).isSome = (subscription st u name).isSome :=
    Option.isSome_map ..
  have hfind : (st.subscriptions.deleteWhere fun s => s.pkey = (stream.streamId, name)).find?
      (stream.streamId, name) = none := by
    rw [Table.find?_eq_none_iff]
    intro row hr heq
    exact absurd heq (of_decide_eq_false (Table.mem_deleteWhere.mp hr).2)
  let deleted : Store := { st with
    subscriptions := st.subscriptions.deleteWhere fun s => s.pkey = (stream.streamId, name)
    workItems := st.workItems.deleteWhere fun w => w.subscription = (stream.streamId, name) }
  have hstream' : deleted.streamByUuid u = some stream := hstream
  have hcreate := claim_release now hstream' hname hfind
  unfold rebuildSubscription
  simp only [hexisted]
  obtain ⟨r, hclaim, hrelease⟩ := bind_eq_ok.mp hcreate
  refine bind_eq_ok.mpr ⟨_, hdeleted, bind_eq_ok.mpr ⟨r, hclaim, bind_eq_ok.mpr ⟨_, hrelease, rfl⟩⟩⟩

/-! ## The subscription after a rebuild -/

/-- The events of the store, and nothing else. -/
def eventsOnly (st : Store) : Store :=
  { st with
    subscriptions := Table.empty _
    workItems := Table.empty _
    snapshots := Table.empty _ }

/-- What the rebuilt subscription holds does not depend on what was there. -/
theorem restrict_rebuiltStore {owns : String → Bool}
    (hclean : ∀ uuid, owns uuid = true → st.snapshots.find? uuid = none) :
    (rebuiltStore key st).restrict (some key) owns =
      (rebuiltStore key (eventsOnly st)).restrict (some key) owns := by
  have hsubs : ∀ t : Table SubscriptionRow.pkey,
      ((t.deleteWhere fun s => s.pkey = key).put ⟨key.1, key.2, 0, none, none⟩).restrict
        (fun k => decide (some k = some key)) = (Table.empty _).put ⟨key.1, key.2, 0, none, none⟩ := by
    intro t
    have hrest : (t.deleteWhere fun s => s.pkey = key).restrict (fun k => decide (some k = some key)) =
        Table.empty _ := by
      refine Table.restrict_eq_empty fun row hr => ?_
      have hne := of_decide_eq_false (Table.mem_deleteWhere.mp hr).2
      exact decide_eq_false fun heq => hne (Option.some.inj heq)
    refine (Table.put_restrict ?_).trans ?_
    · exact decide_eq_true rfl
    · rw [hrest]
  have hitems : ∀ t : Table WorkItemRow.pkey, (t.deleteWhere fun w => w.subscription = key).restrict
      (fun k => decide (some k.1 = some key)) = Table.empty _ := by
    intro t
    refine Table.restrict_eq_empty fun row hr => ?_
    have hne := of_decide_eq_false (Table.mem_deleteWhere.mp hr).2
    exact decide_eq_false fun heq => hne (Option.some.inj heq)
  have hsnapshots : st.snapshots.restrict owns = (Table.empty _).restrict owns := by
    have hempty : (Table.empty SnapshotRow.sourceUuid).restrict owns = Table.empty _ :=
      Table.restrict_eq_empty fun row hr => by cases hr
    refine Eq.trans (Table.restrict_eq_empty fun row hr => ?_) hempty.symm
    by_contra howns
    have hnone := hclean row.sourceUuid ((Bool.not_eq_false _).mp howns)
    exact Table.find?_eq_none_iff.mp hnone row hr rfl
  simp only [Store.restrict, rebuiltStore, eventsOnly, hsubs, hitems, hsnapshots]

end Tables

section Worlds

variable {κ : Type} [DecidableEq κ] {w : World κ} {T : Scope} {stream : StreamRow}

/-- The world after a transaction that leaves the store `st`. -/
def within (w : World κ) (st : Store) : World κ := w.commit (.ok (st, []))

omit [DecidableEq κ] in
theorem rooted_within {st : Store} (h : Rooted w) (hsame : w.db.store.SameEvents st)
    (hon : OnStreams w.db.store.streams st) : Rooted (within w st) := by
  refine h.commit fun st' es heq => ?_
  cases heq
  refine ⟨hsame, ?_⟩
  rw [hsame.streams]
  exact hon

omit [DecidableEq κ] in
/-- The rows of a rebuilt subscription are on its stream. -/
theorem onStreams_rebuiltStore {streams : Table StreamRow.streamId} {st : Store} {key : ℕ × String}
    (h : OnStreams streams st) (hstream : ∃ s ∈ streams.rows, s.streamId = key.1) :
    OnStreams streams (rebuiltStore key st) := by
  constructor
  · intro row hr
    rcases Table.mem_put.mp hr with rfl | ⟨hr, -⟩
    · exact hstream
    · exact h.subscriptions row (Table.mem_deleteWhere.mp hr).1
  · intro row hr
    exact h.workItems row (Table.mem_deleteWhere.mp hr).1

/-- **After a rebuild, the subscription behaves as a new one.** -/
theorem rebuilt (hw : Reachable lifecycle w) (hname : T.name ≠ "")
    (hstream : w.db.store.streamByUuid T.streamUuid = some stream)
    (hclean : ∀ uuid, T.owns uuid = true → w.db.store.snapshots.find? uuid = none)
    (now now₀ : Timestamp) :
    ∃ st st₀, rebuildSubscription now T.streamUuid T.name w.db.store =
        .ok ((subscription w.db.store T.streamUuid T.name).isSome, st) ∧
      rebuildSubscription now₀ T.streamUuid T.name (eventsOnly w.db.store) = .ok (false, st₀) ∧
      (subscription st T.streamUuid T.name = some ⟨stream.streamId, T.name, 0, none, none⟩ ∧
        ∀ item ∈ st.workItems.rows, item.subscription ≠ (stream.streamId, T.name)) ∧
      (∀ key, key ≠ (stream.streamId, T.name) →
        st.subscriptions.find? key = w.db.store.subscriptions.find? key ∧
          ∀ k, k.1 = key → st.workItems.find? k = w.db.store.workItems.find? k) ∧
      ∀ acts w', (∀ a ∈ acts, T.Tidy a) →
        (∀ a ∈ acts, T.mine a = true → ∀ i ∈ a.claim, w.snapshots i = none) →
          lifecycle.run (within w st) acts = some w' →
            ∃ v', lifecycle.run (within w st₀) (acts.map T.alone) = some v' ∧
              Alike T (fun i => w.snapshots i ≠ none) w' v' := by
  have hrooted := Rooted.of_reachable hw
  let key := (stream.streamId, T.name)
  have hon : ∃ s ∈ w.db.store.streams.rows, s.streamId = key.1 :=
    ⟨stream, Store.mem_of_streamByUuid hstream, rfl⟩
  have hkey : ∀ st : Store, st.streams = w.db.store.streams → T.key st = some key := by
    intro st hst
    rw [key_congr hst]
    exact key_of_stream stream hstream
  have hempty : OnStreams w.db.store.streams (eventsOnly w.db.store) := by
    constructor
    · intro row hr
      cases hr
    · intro row hr
      cases hr
  have hnew : rebuildSubscription now₀ T.streamUuid T.name (eventsOnly w.db.store) =
      .ok (false, rebuiltStore key (eventsOnly w.db.store)) := by
    have href : Referenced (eventsOnly w.db.store) := by
      intro item hi
      cases hi
    have hstream₀ : (eventsOnly w.db.store).streamByUuid T.streamUuid = some stream := hstream
    have heq := rebuildSubscription_eq now₀ href hstream₀ hname
    rw [subscription_of_find hstream₀] at heq
    exact heq
  have hstream' : (rebuiltStore key w.db.store).streamByUuid T.streamUuid = some stream := hstream
  have hrow : (rebuiltStore key w.db.store).subscriptions.find? key =
      some ⟨stream.streamId, T.name, 0, none, none⟩ := by
    rw [rebuiltStore, Table.find?_put]
    exact if_pos rfl
  refine ⟨_, _, rebuildSubscription_eq now (Referenced.of_reachable hw) hstream hname,
    hnew, ⟨(subscription_of_find hstream').trans hrow, ?_⟩, ?_, ?_⟩
  · intro item hi
    exact of_decide_eq_false (Table.mem_deleteWhere.mp hi).2
  · intro other hne
    refine ⟨?_, fun k hk => ?_⟩
    · rw [rebuiltStore, Table.find?_put, if_neg fun heq => hne heq.symm]
      exact Table.find?_deleteWhere_of_not fun row hr => decide_eq_false fun heq =>
        hne (hr.symm.trans heq)
    · refine Table.find?_deleteWhere_of_not fun row hr => decide_eq_false fun heq => hne ?_
      rw [← hk, ← hr]
      exact heq
  · intro acts w' htidy hfresh hrun
    have hagree : Agree T (fun i => w.snapshots i ≠ none) (within w (rebuiltStore key w.db.store))
        (within w (rebuiltStore key (eventsOnly w.db.store))) := by
      refine ⟨rfl, ?_, fun _ => rfl, fun _ _ => rfl⟩
      show T.part (T.key (rebuiltStore key w.db.store)) _ =
        T.part (T.key (rebuiltStore key w.db.store)) (rebuiltStore key w.db.store)
      rw [hkey (rebuiltStore key w.db.store) rfl]
      exact (restrict_rebuiltStore hclean).symm
    have hw₁ : Rooted (within w (rebuiltStore key w.db.store)) :=
      rooted_within hrooted ⟨rfl, rfl, rfl⟩ (onStreams_rebuiltStore hrooted.store hon)
    have hv₁ : Rooted (within w (rebuiltStore key (eventsOnly w.db.store))) :=
      rooted_within hrooted ⟨rfl, rfl, rfl⟩ (onStreams_rebuiltStore hempty hon)
    obtain ⟨v', hv', h⟩ := agree_run hw₁ hv₁ hagree htidy
      (fun a ha hmine i hi hne => hne (hfresh a ha hmine i hi)) hrun
    exact ⟨v', hv', h.alike⟩

/-- What a worker does with the subscription that it finds. -/
def sampleAgain : List (Act ℕ) :=
  [.op (.call (.claimSubscription 30 (some "$all") (some "orders") (some "r") (some 30) none)),
   .op (.call sampleBatch), .op (.openClaim 0),
   .op (.claimItem 0 40 (fun _ => false) (some "$all") (some "orders") (some "a") (some 5)),
   .op (.call (.completeProjection (sampleItem "a" 1)))]

theorem rebuilt_sampleAgain : ∃ (w : World ℕ) (st st₀ : Store),
    lifecycle.run World.install sampleShared = some w ∧
      rebuildSubscription 20 "$all" "orders" w.db.store = .ok (true, st) ∧
      rebuildSubscription 0 "$all" "orders" (eventsOnly w.db.store) = .ok (false, st₀) ∧
      ∃ w' v', lifecycle.run (within w st) sampleAgain = some w' ∧
        lifecycle.run (within w st₀)
          (sampleAgain.map (Scope.alone ⟨"$all", "orders", fun _ => false⟩)) = some v' ∧
        Alike ⟨"$all", "orders", fun _ => false⟩ (fun i => w.snapshots i ≠ none) w' v' := by
  have hrun : ((lifecycle.run (World.install : World ℕ) sampleShared).bind fun w =>
      (rebuildSubscription 20 "$all" "orders" w.db.store).toOption.bind fun r =>
        (lifecycle.run (within w r.2) sampleAgain).bind fun _ =>
          if w.snapshots 0 = none ∧ (subscription w.db.store "$all" "orders").isSome then
            w.db.store.streamByUuid "$all" else none).isSome = true := by
    decide +kernel
  obtain ⟨stream, hrun⟩ := Option.isSome_iff_exists.mp hrun
  obtain ⟨w, hw, hrun⟩ := Option.bind_eq_some_iff.mp hrun
  obtain ⟨r, hr, hrun⟩ := Option.bind_eq_some_iff.mp hrun
  obtain ⟨w', hw', hrun⟩ := Option.bind_eq_some_iff.mp hrun
  split_ifs at hrun with hfree
  obtain ⟨st, st₀, hst, hst₀, -, -, hruns⟩ := rebuilt (T := ⟨"$all", "orders", fun _ => false⟩)
    (Reachable.run (.init rfl) hw) (by decide) hrun
    (fun _ howns => by cases howns) 20 0
  rw [hst] at hr
  cases hr
  have hclaims : ∀ a ∈ sampleAgain, ∀ i ∈ a.claim, w.snapshots i = none := by
    have hzero : ∀ a ∈ sampleAgain, ∀ i ∈ a.claim, i = 0 := by decide
    intro a ha i hi
    rw [hzero a ha i hi]
    exact hfree.1
  obtain ⟨v', hv', halike⟩ := hruns sampleAgain w' (by decide) (fun a ha _ => hclaims a ha) hw'
  rw [hfree.2] at hst
  exact ⟨w, st, st₀, hw, hst, hst₀, w', v', hw', hv', halike⟩

end Worlds

end Instructed.Operator
