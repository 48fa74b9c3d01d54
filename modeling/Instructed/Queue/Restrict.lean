import Instructed.Lib.Restrict
import Instructed.Queue.Frame

/-!
# What the procedures see of a store

A procedure that names a subscription reads the event store, the row of the subscription and its work
items, and the snapshots that it names. So it cannot tell a store from the part that belongs to the
subscription.

* `Store.restrict`: the part of a store that belongs to one subscription;
* `claimSubscription_restrict` and so on: **a procedure on the part of a store does what it does on the
  store, as far as the part goes**;
* `appendToStream_restrict`: an append sees the event store only.
-/

namespace Instructed

open Sql Relational

/-- The part of a store that belongs to the subscription `sub`, and the snapshots that `owns` selects. -/
def Store.restrict (st : Store) (sub : Option (ℕ × String)) (owns : String → Bool) : Store :=
  { st with
    subscriptions := st.subscriptions.restrict fun key => decide (some key = sub)
    workItems := st.workItems.restrict fun key => decide (some key.1 = sub)
    snapshots := st.snapshots.restrict owns }

/-- A computation whose value is known up to `g`, after the same first step. -/
theorem bind_eq_map {ε α β γ : Type} {x : Except ε α} {f : α → Except ε β} {f' : α → Except ε γ}
    {g : β → γ} (h : ∀ a, x = .ok a → f' a = (f a).map g) : (x >>= f') = (x >>= f).map g := by
  cases x with
  | error e => rfl
  | ok a => exact h a rfl

section Restrict

variable {st : Store} {key : ℕ × String} {owns : String → Bool} {sub : Option (ℕ × String)}

/-! ## The tables -/

theorem restrict_streamByUuid (u : String) :
    (st.restrict sub owns).streamByUuid u = st.streamByUuid u := rfl

theorem restrict_restrict (st : Store) (sub : Option (ℕ × String)) (owns : String → Bool) :
    (st.restrict sub owns).restrict sub owns = st.restrict sub owns := by
  simp only [Store.restrict, Table.restrict_restrict]

theorem find?_subscription_restrict :
    (st.restrict (some key) owns).subscriptions.find? key = st.subscriptions.find? key :=
  Table.find?_restrict (decide_eq_true rfl)

theorem find?_item_restrict {k : (ℕ × String) × String × ℤ} (hk : k.1 = key) :
    (st.restrict (some key) owns).workItems.find? k = st.workItems.find? k :=
  Table.find?_restrict (decide_eq_true (congrArg some hk))

theorem find?_snapshot_restrict {uuid : String} (h : owns uuid = true) :
    (st.restrict sub owns).snapshots.find? uuid = st.snapshots.find? uuid :=
  Table.find?_restrict h

theorem putSubscription_restrict {row : SubscriptionRow} (h : row.pkey = key) :
    (st.putSubscription row).restrict (some key) owns =
      (st.restrict (some key) owns).putSubscription row := by
  subst h
  have hput : (st.subscriptions.put row).restrict (fun k => decide (some k = some row.pkey)) =
      (st.subscriptions.restrict fun k => decide (some k = some row.pkey)).put row :=
    Table.put_restrict (decide_eq_true rfl)
  simp only [Store.putSubscription, Store.restrict, hput]

theorem putItem_restrict {row : WorkItemRow} (h : row.pkey.1 = key) :
    ({ st with workItems := st.workItems.put row } : Store).restrict (some key) owns =
      { st.restrict (some key) owns with
        workItems := (st.restrict (some key) owns).workItems.put row } := by
  subst h
  have hput : (st.workItems.put row).restrict (fun k => decide (some k.1 = some row.pkey.1)) =
      (st.workItems.restrict fun k => decide (some k.1 = some row.pkey.1)).put row :=
    Table.put_restrict (decide_eq_true rfl)
  simp only [Store.restrict, hput]

theorem insertItems_restrict {items : List WorkItemRow}
    (h : ∀ item ∈ items, decide (some item.pkey.1 = some key) = true) :
    (st.restrict (some key) owns).insertItems items =
      (st.insertItems items).restrict (some key) owns := by
  have hinsert : (st.workItems.insertAllNew items).restrict (fun k => decide (some k.1 = some key)) =
      (st.workItems.restrict fun k => decide (some k.1 = some key)).insertAllNew items :=
    Table.insertAllNew_restrict h
  simp only [Store.insertItems, Store.restrict, hinsert]

theorem length_insertItems_restrict {items : List WorkItemRow}
    (h : ∀ item ∈ items, decide (some item.pkey.1 = some key) = true) :
    ((st.restrict (some key) owns).insertItems items).workItems.rows.length -
        (st.restrict (some key) owns).workItems.rows.length =
      (st.insertItems items).workItems.rows.length - st.workItems.rows.length := by
  have hlength := Table.length_insertAllNew_restrict (t := st.workItems)
    (p := fun k => decide (some k.1 = some key)) h
  exact hlength

theorem updateItem_restrict (row : WorkItemRow) (h : row.pkey.1 = key) :
    (st.restrict (some key) owns).updateItem row =
      (st.updateItem row).map fun st' => st'.restrict (some key) owns := by
  unfold Store.updateItem
  split_ifs
  · exact congrArg Except.ok (putItem_restrict h).symm
  · rfl

theorem requireSubscription_restrict (proc name u : String) {id : ℕ} (h : (id, name) = key) :
    requireSubscription proc id name u (st.restrict (some key) owns) =
      requireSubscription proc id name u st := by
  subst h
  unfold requireSubscription
  rw [find?_subscription_restrict]

/-! ## The event store -/

/-- **An append sees the event store only.** -/
theorem appendToStream_restrict (newStreamId : ℕ) (now : Timestamp) (a : AppendArgs) :
    appendToStream newStreamId now a (st.restrict sub owns) =
      (appendToStream newStreamId now a st).map (Prod.map id fun st' => st'.restrict sub owns) := by
  unfold appendToStream
  refine bind_eq_map fun r _ => ?_
  unfold appendRequest
  refine bind_eq_map fun row _ => ?_
  refine bind_eq_map fun all _ => ?_
  refine bind_eq_map fun batch _ => ?_
  rfl

/-! ## The procedures of a subscription -/

variable {u name : String}

theorem claimSubscription_restrict (hsub : ∀ stream, st.streamByUuid u = some stream →
      sub = some (stream.streamId, name)) (now : Timestamp) (worker : Option String) (lease : Option ℤ)
    (options : Option Json) :
    claimSubscription now (some u) (some name) worker lease options (st.restrict sub owns) =
      (claimSubscription now (some u) (some name) worker lease options st).map
        (Prod.map id fun st' => st'.restrict sub owns) := by
  unfold claimSubscription
  refine bind_eq_map fun u' hu => ?_
  refine bind_eq_map fun name' hname => ?_
  refine bind_eq_map fun worker _ => ?_
  refine bind_eq_map fun secs _ => ?_
  cases notNull_ok hu
  cases notEmpty_ok hname
  simp only [restrict_streamByUuid]
  cases hstream : st.streamByUuid u with
  | none => rfl
  | some stream =>
    obtain rfl := hsub stream hstream
    simp only [find?_subscription_restrict]
    cases hrow : st.subscriptions.find? (stream.streamId, name) with
    | none =>
      refine bind_eq_map fun initial _ => ?_
      exact congrArg (fun s => Except.ok (_, s)) (putSubscription_restrict rfl).symm
    | some row =>
      simp only
      split_ifs
      · rfl
      · have hkey' := Table.key_of_find? hrow
        refine congrArg (fun s => Except.ok (_, s)) (putSubscription_restrict ?_).symm
        exact hkey'
      · rfl

theorem releaseSubscription_restrict (hsub : ∀ stream, st.streamByUuid u = some stream →
      sub = some (stream.streamId, name)) (worker : Option String) :
    releaseSubscription (some u) (some name) worker (st.restrict sub owns) =
      (releaseSubscription (some u) (some name) worker st).map
        fun st' => st'.restrict sub owns := by
  unfold releaseSubscription
  refine bind_eq_map fun u' hu => ?_
  refine bind_eq_map fun name' hname => ?_
  refine bind_eq_map fun worker _ => ?_
  cases notNull_ok hu
  cases notEmpty_ok hname
  refine bind_eq_map fun stream hstream => ?_
  obtain rfl := hsub stream (requireStream_ok hstream)
  rw [requireSubscription_restrict _ _ _ rfl]
  refine bind_eq_map fun row hrow => ?_
  split_ifs
  · rfl
  · have hrow' := Table.key_of_find? (requireSubscription_ok hrow)
    refine congrArg Except.ok (putSubscription_restrict ?_).symm
    exact hrow'

theorem deleteSubscription_restrict (hsub : ∀ stream, st.streamByUuid u = some stream →
      sub = some (stream.streamId, name)) :
    deleteSubscription (some u) (some name) (st.restrict sub owns) =
      (deleteSubscription (some u) (some name) st).map fun st' => st'.restrict sub owns := by
  unfold deleteSubscription
  refine bind_eq_map fun u' hu => ?_
  refine bind_eq_map fun name' hname => ?_
  cases notNull_ok hu
  cases notEmpty_ok hname
  refine bind_eq_map fun stream hstream => ?_
  obtain rfl := hsub stream (requireStream_ok hstream)
  rw [requireSubscription_restrict _ _ _ rfl]
  refine bind_eq_map fun row _ => ?_
  refine congrArg Except.ok ?_
  simp only [Store.restrict, Table.deleteWhere_restrict]

theorem routeBatch_restrict (hsub : ∀ stream, st.streamByUuid u = some stream →
      sub = some (stream.streamId, name)) (worker : Option String) (cursor : Option ℤ)
    (decisions : Option Json) :
    routeBatch (some u) (some name) worker cursor decisions (st.restrict sub owns) =
      (routeBatch (some u) (some name) worker cursor decisions st).map
        (Prod.map id fun st' => st'.restrict sub owns) := by
  unfold routeBatch
  refine bind_eq_map fun u' hu => ?_
  refine bind_eq_map fun name' hname => ?_
  refine bind_eq_map fun worker _ => ?_
  refine bind_eq_map fun cursor _ => ?_
  refine bind_eq_map fun ds _ => ?_
  cases notNull_ok hu
  cases notEmpty_ok hname
  refine bind_eq_map fun stream hstream => ?_
  obtain rfl := hsub stream (requireStream_ok hstream)
  rw [requireSubscription_restrict _ _ _ rfl]
  refine bind_eq_map fun row hrow => ?_
  split_ifs
  · rfl
  · refine bind_eq_map fun items hitems => ?_
    have hin : ∀ item ∈ items,
        decide (some item.pkey.1 = some (stream.streamId, name)) = true := by
      intro item hitem
      obtain ⟨d, -, hd⟩ := mem_of_mapM_ok hitems hitem
      obtain ⟨p, n, rfl⟩ := decisionRow_ok hd
      exact decide_eq_true rfl
    have hrow' := Table.key_of_find? (requireSubscription_ok hrow)
    refine congrArg Except.ok (Prod.ext (Prod.ext (length_insertItems_restrict hin) rfl) ?_)
    dsimp only [Prod.map]
    rw [insertItems_restrict hin, putSubscription_restrict]
    exact hrow'

/-! ## The procedures of a work item -/

section Items

variable {a : ItemArgs} {proc : String} {r : ItemRef} {k : (ℕ × String) × String × ℤ}

/-- The parameters name the subscription `name` on the stream `u`. -/
def ItemArgs.names (a : ItemArgs) (u name : String) : Prop :=
  a.streamUuid = some u ∧ a.subscriptionName = some name

theorem key_restrict (owns : String → Bool) (ha : a.names u name) (hcheck : a.check proc = .ok r)
    (hsub : ∀ stream, st.streamByUuid u = some stream → sub = some (stream.streamId, name)) :
    r.key proc (st.restrict sub owns) = r.key proc st ∧
      ∀ k, r.key proc st = .ok k → sub = some k.1 := by
  obtain ⟨hu, hname⟩ := ha
  rw [Queue.ItemArgs.check_ok hcheck] at hu hname
  obtain rfl := Option.some.inj hu
  obtain rfl := Option.some.inj hname
  constructor
  · have hmap : r.key proc (st.restrict sub owns) = (r.key proc st).map id := by
      unfold ItemRef.key
      refine bind_eq_map fun stream hstream => ?_
      obtain rfl := hsub stream (requireStream_ok hstream)
      rw [requireSubscription_restrict _ _ _ rfl]
      exact bind_eq_map fun row _ => rfl
    rw [hmap]
    cases r.key proc st <;> rfl
  · intro k hk
    obtain ⟨stream, hstream, rfl⟩ := Queue.ItemRef.key_ok hk
    exact hsub stream hstream

theorem requireHolder_restrict (worker : String) :
    requireHolder proc worker k (st.restrict (some k.1) owns) = requireHolder proc worker k st := by
  unfold requireHolder
  rw [find?_item_restrict rfl]

theorem pkey_of_held {worker : String} {row : WorkItemRow}
    (h : requireHolder proc worker k st = .ok row) : row.pkey.1 = k.1 := by
  rw [Table.key_of_find? (requireHolder_ok h).1]

theorem blocked_restrict {row : WorkItemRow} (h : row.subscription = key) :
    (st.restrict (some key) owns).blocked row = st.blocked row := by
  unfold Store.blocked
  show (st.workItems.restrict _).rows.any _ = _
  rw [Table.restrict_rows, List.any_filter]
  refine List.any_congr rfl fun earlier => ?_
  by_cases hsub : earlier.subscription = row.subscription
  · have hin : some earlier.pkey.1 = some key := congrArg some (hsub.trans h)
    simp [hin]
  · simp [hsub]

theorem candidates_restrict (now : Timestamp) :
    (st.restrict (some key) owns).candidates key now = st.candidates key now := by
  unfold Store.candidates
  congr 1
  show ((st.workItems.restrict _).rows).filter _ = _
  rw [Table.restrict_rows, List.filter_filter]
  refine List.filter_congr fun row _ => ?_
  by_cases hsub : row.subscription = key
  · have hin : some row.pkey.1 = some key := congrArg some hsub
    simp [hin, blocked_restrict hsub]
  · simp [hsub]

theorem lockCandidate_restrict (now : Timestamp) (locked : WorkItemRow → Bool)
    {candidates : List WorkItemRow} (h : ∀ c ∈ candidates, c.subscription = key) :
    (st.restrict (some key) owns).lockCandidate now locked candidates =
      st.lockCandidate now locked candidates := by
  unfold Store.lockCandidate
  induction candidates with
  | nil => rfl
  | cons c cs ih =>
    rw [List.findSome?_cons, List.findSome?_cons, ih fun x hx => h x (List.mem_cons_of_mem _ hx),
      find?_item_restrict (h c List.mem_cons_self)]

variable (hsub : ∀ stream, st.streamByUuid u = some stream → sub = some (stream.streamId, name))
include hsub

theorem completeWorkItemProjection_restrict (ha : a.names u name) :
    completeWorkItemProjection a (st.restrict sub owns) =
      (completeWorkItemProjection a st).map fun st' => st'.restrict sub owns := by
  unfold completeWorkItemProjection
  refine bind_eq_map fun r hr => ?_
  obtain ⟨hsame, hin⟩ := key_restrict owns ha hr hsub
  rw [hsame]
  refine bind_eq_map fun k hk => ?_
  obtain rfl := hin k hk
  rw [requireHolder_restrict]
  refine bind_eq_map fun row _ => ?_
  refine congrArg Except.ok ?_
  simp only [Store.restrict, Table.deleteWhere_restrict]

theorem failWorkItem_restrict (ha : a.names u name) (now : Timestamp) (errorText : Option String) :
    failWorkItem now a errorText (st.restrict sub owns) =
      (failWorkItem now a errorText st).map fun st' => st'.restrict sub owns := by
  unfold failWorkItem
  refine bind_eq_map fun r hr => ?_
  obtain ⟨hsame, hin⟩ := key_restrict owns ha hr hsub
  rw [hsame]
  refine bind_eq_map fun k hk => ?_
  obtain rfl := hin k hk
  rw [requireHolder_restrict]
  refine bind_eq_map fun row hrow => ?_
  have hrow' := pkey_of_held hrow
  exact updateItem_restrict { row with
    state := .failed, failedAt := some now, errorText := errorText
    claimedBy := none, leaseExpiresAt := none } hrow'

theorem extendWorkItemClaim_restrict (ha : a.names u name) (now : Timestamp) (lease : Option ℤ) :
    extendWorkItemClaim now a lease (st.restrict sub owns) =
      (extendWorkItemClaim now a lease st).map
        (Prod.map id fun st' => st'.restrict sub owns) := by
  unfold extendWorkItemClaim
  refine bind_eq_map fun r hr => ?_
  refine bind_eq_map fun secs _ => ?_
  obtain ⟨hsame, hin⟩ := key_restrict owns ha hr hsub
  dsimp only
  rw [hsame]
  refine bind_eq_map fun k hk => ?_
  obtain rfl := hin k hk
  rw [find?_item_restrict rfl]
  cases hfind : st.workItems.find? k with
  | none => rfl
  | some row =>
    simp only
    split_ifs
    · rfl
    · have hrow' : row.pkey.1 = k.1 := by rw [Table.key_of_find? hfind]
      rw [updateItem_restrict { row with leaseExpiresAt := some (addSeconds now secs) } hrow']
      cases st.updateItem { row with leaseExpiresAt := some (addSeconds now secs) } <;> rfl

theorem completeWorkItemPm_restrict (ha : a.names u name) (now : Timestamp) {s : PmSnapshotArgs}
    (hs : ∀ uuid, s.uuid = some uuid → owns uuid = true) :
    completeWorkItemPm now a s (st.restrict sub owns) =
      (completeWorkItemPm now a s st).map fun st' => st'.restrict sub owns := by
  unfold completeWorkItemPm
  refine bind_eq_map fun r hr => ?_
  refine bind_eq_map fun uuid huuid => ?_
  refine bind_eq_map fun type _ => ?_
  refine bind_eq_map fun version _ => ?_
  refine bind_eq_map fun data _ => ?_
  obtain ⟨hsame, hin⟩ := key_restrict owns ha hr hsub
  rw [hsame]
  refine bind_eq_map fun k hk => ?_
  obtain rfl := hin k hk
  rw [requireHolder_restrict]
  refine bind_eq_map fun row hrow => ?_
  have hrow' := pkey_of_held hrow
  rw [updateItem_restrict { row with
    state := .done, claimedBy := none, leaseExpiresAt := none } hrow']
  cases st.updateItem { row with state := .done, claimedBy := none, leaseExpiresAt := none } with
  | error e => rfl
  | ok st' =>
    refine congrArg Except.ok ?_
    have hput := Table.put_restrict (t := st'.snapshots) (p := owns)
      (r := ⟨uuid, type, version, data, s.metadata, now⟩) (hs uuid (notEmpty_ok huuid))
    simp only [upsertSnapshot, Store.restrict]
    rw [hput]

theorem completePmInstance_restrict (p : Option String) {uuid : Option String}
    (hs : ∀ x, uuid = some x → owns x = true) :
    completePmInstance (some u) (some name) p uuid (st.restrict sub owns) =
      (completePmInstance (some u) (some name) p uuid st).map
        (Prod.map id fun st' => st'.restrict sub owns) := by
  unfold completePmInstance
  refine bind_eq_map fun u' hu => ?_
  refine bind_eq_map fun name' hname => ?_
  refine bind_eq_map fun p' _ => ?_
  refine bind_eq_map fun uuid' huuid => ?_
  cases notNull_ok hu
  cases notEmpty_ok hname
  refine bind_eq_map fun stream hstream => ?_
  obtain rfl := hsub stream (requireStream_ok hstream)
  rw [requireSubscription_restrict _ _ _ rfl]
  refine bind_eq_map fun row _ => ?_
  have hsnap : (st.restrict (some (stream.streamId, name)) owns).snapshots.find? uuid' =
      st.snapshots.find? uuid' := find?_snapshot_restrict (hs uuid' (notEmpty_ok huuid))
  have hcount := Table.length_deleteWhere_restrict (t := st.workItems)
    (p := fun k => decide (some k.1 = some (stream.streamId, name)))
    (q := fun w => decide (w.subscription = (stream.streamId, name) ∧ w.partitionKey = p'))
    fun w hw => decide_eq_true (congrArg some (of_decide_eq_true hw).1)
  refine congrArg Except.ok (Prod.ext (Prod.ext hcount ?_) ?_)
  · exact congrArg Option.isSome hsnap
  · simp only [Prod.map, Store.restrict, Table.deleteWhere_restrict]

/-! ## `claim_work_item` and the readers -/

theorem claimWorkItem_restrict (snapshot : Store) (now : Timestamp) (locked : WorkItemRow → Bool)
    (worker : Option String) (lease : Option ℤ) :
    claimWorkItem now (snapshot.restrict sub owns) locked (some u) (some name) worker lease
        (st.restrict sub owns) =
      (claimWorkItem now snapshot locked (some u) (some name) worker lease st).map
        (Prod.map id fun st' => st'.restrict sub owns) := by
  unfold claimWorkItem
  refine bind_eq_map fun u' hu => ?_
  refine bind_eq_map fun name' hname => ?_
  refine bind_eq_map fun worker _ => ?_
  refine bind_eq_map fun secs _ => ?_
  cases notNull_ok hu
  cases notEmpty_ok hname
  refine bind_eq_map fun stream hstream => ?_
  obtain rfl := hsub stream (requireStream_ok hstream)
  rw [requireSubscription_restrict _ _ _ rfl]
  refine bind_eq_map fun row _ => ?_
  rw [candidates_restrict, lockCandidate_restrict now locked fun c hc => (mem_candidates.mp hc).2.1]
  cases hlock : st.lockCandidate now locked (snapshot.candidates (stream.streamId, name) now) with
  | none => rfl
  | some row =>
    obtain ⟨c, hc, hfind, -⟩ := lockCandidate_eq_some hlock
    have hrow' : row.pkey.1 = (stream.streamId, name) := by
      rw [Table.key_of_find? hfind]
      exact (mem_candidates.mp hc).2.1
    simp only
    rw [updateItem_restrict { row with
      state := .claimed, claimedBy := some worker,
      leaseExpiresAt := some (addSeconds now secs) } hrow']
    cases st.updateItem { row with
      state := .claimed, claimedBy := some worker,
      leaseExpiresAt := some (addSeconds now secs) } <;> rfl

theorem isSubscriptionCaughtUp_restrict (target : Option ℤ) (st' : Store) :
    isSubscriptionCaughtUp (some u) (some name) target (st.restrict sub owns)
        (st'.restrict sub owns) =
      isSubscriptionCaughtUp (some u) (some name) target st st' := by
  have hmap : isSubscriptionCaughtUp (some u) (some name) target (st.restrict sub owns)
      (st'.restrict sub owns) =
        (isSubscriptionCaughtUp (some u) (some name) target st st').map id := by
    unfold isSubscriptionCaughtUp
    refine bind_eq_map fun u' hu => ?_
    refine bind_eq_map fun name' hname => ?_
    refine bind_eq_map fun target _ => ?_
    cases notNull_ok hu
    cases notEmpty_ok hname
    refine bind_eq_map fun stream hstream => ?_
    obtain rfl := hsub stream (requireStream_ok hstream)
    rw [requireSubscription_restrict _ _ _ rfl]
    refine bind_eq_map fun row _ => ?_
    refine congrArg Except.ok ?_
    show (_ && !(st'.workItems.restrict _).rows.any _) = _
    rw [Table.restrict_rows, List.any_filter]
    congr 2
    refine List.any_congr rfl fun w => ?_
    by_cases hsub : w.subscription = (stream.streamId, name)
    · have hin : some w.pkey.1 = some (stream.streamId, name) := congrArg some hsub
      simp [hin]
    · simp [hsub]
  rw [hmap]
  cases isSubscriptionCaughtUp (some u) (some name) target st st' <;> rfl

theorem listPmRebuildEvents_restrict (p : Option String) (n : Option ℤ) :
    listPmRebuildEvents (some u) (some name) p n (st.restrict sub owns) =
      listPmRebuildEvents (some u) (some name) p n st := by
  have hmap : listPmRebuildEvents (some u) (some name) p n (st.restrict sub owns) =
      (listPmRebuildEvents (some u) (some name) p n st).map id := by
    unfold listPmRebuildEvents
    refine bind_eq_map fun u' hu => ?_
    refine bind_eq_map fun name' hname => ?_
    refine bind_eq_map fun p' _ => ?_
    refine bind_eq_map fun n' _ => ?_
    cases notNull_ok hu
    cases notEmpty_ok hname
    refine bind_eq_map fun stream hstream => ?_
    obtain rfl := hsub stream (requireStream_ok hstream)
    rw [requireSubscription_restrict _ _ _ rfl]
    refine bind_eq_map fun row _ => ?_
    refine congrArg Except.ok ?_
    show List.flatMap _ _ = _
    congr 1
    unfold Store.doneItems
    congr 1
    show ((st.workItems.restrict _).rows).filter _ = _
    rw [Table.restrict_rows, List.filter_filter]
    refine List.filter_congr fun w _ => ?_
    by_cases hsub : w.subscription = (stream.streamId, name)
    · have hin : some w.pkey.1 = some (stream.streamId, name) := congrArg some hsub
      simp [hin]
    · simp [hsub]
  rw [hmap]
  cases listPmRebuildEvents (some u) (some name) p n st <;> rfl

end Items

end Restrict

end Instructed
