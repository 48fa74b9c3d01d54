import Instructed.Queue.Subscription
import Instructed.Store.Read
import Instructed.Store.Snapshots

/-!
# Work items

The procedures of `sql/instructed.sql` on the rows of `subscription_work_items`: `claim_work_item`
(lines 2004–2103), `complete_work_item_projection` (2140–2214), `complete_work_item_pm` (2264–2372),
`complete_pm_instance` (2413–2475), `fail_work_item` (2512–2592), `is_subscription_caught_up`
(2633–2692), `extend_work_item_claim` (2732–2819) and `list_pm_rebuild_events` (2863–2944).

* `WorkItemRow.checks`, `Store.updateItem`: the table's `check` constraints;
* `Store.candidates`, `Store.lockCandidate`: the candidate query of `claim_work_item`, on the snapshot
  its statement reads, and `for update skip locked limit 1`, on the rows as they are;
* `ItemArgs.check`, `ItemRef.key`, `requireHolder`: what the calls on one claimed row share.
-/

namespace Instructed

open Sql Relational

/-! ## The table -/

/-- The `check` constraints of `subscription_work_items` (lines 379–391). -/
def WorkItemRow.checks (row : WorkItemRow) : Bool :=
  (decide (row.state = .claimed) == (row.claimedBy.isSome && row.leaseExpiresAt.isSome)) &&
  (decide (row.state = .failed) == row.failedAt.isSome) &&
  (row.errorText.isNone || decide (row.state = .failed))

/-- `update subscription_work_items` of one row, under the table's constraints. -/
def Store.updateItem (st : Store) (row : WorkItemRow) : Except SqlError Store :=
  if row.checks then .ok { st with workItems := st.workItems.put row }
  else raise .checkViolation
    "new row for relation \"subscription_work_items\" violates check constraint"

theorem updateItem_ok {st st' : Store} {row : WorkItemRow} (h : st.updateItem row = .ok st') :
    row.checks = true ∧ st' = { st with workItems := st.workItems.put row } := by
  unfold Store.updateItem at h
  split_ifs at h with hc
  · cases h
    exact ⟨hc, rfl⟩
  · cases h

/-! ## `claim_work_item` -/

/-- The row's own part of the candidate condition (lines 2061–2064). -/
def WorkItemRow.claimable (row : WorkItemRow) (now : Timestamp) : Bool :=
  match row.state, row.leaseExpiresAt with
  | .pending, _ => true
  | .claimed, some expires => expires < now
  | _, _ => false

/-- The `not exists` part: an earlier row of the partition is outstanding (lines 2065–2073). -/
def Store.blocked (st : Store) (row : WorkItemRow) : Bool :=
  st.workItems.rows.any fun earlier => earlier.subscription = row.subscription ∧
    earlier.partitionKey = row.partitionKey ∧ earlier.eventNumber < row.eventNumber ∧
    earlier.state.outstanding

/-- The rows that the candidate query reads, in its order. -/
def Store.candidates (st : Store) (sub : ℕ × String) (now : Timestamp) : List WorkItemRow :=
  (st.workItems.rows.filter fun row => row.subscription = sub ∧ row.claimable now ∧
    ¬ st.blocked row).mergeSort fun a b => a.eventNumber ≤ b.eventNumber

/-- `for update skip locked limit 1`: the first candidate that no other transaction has locked, and
    whose own condition still holds of the row as it is now. -/
def Store.lockCandidate (st : Store) (now : Timestamp) (locked : WorkItemRow → Bool)
    (candidates : List WorkItemRow) : Option WorkItemRow :=
  candidates.findSome? fun c =>
    if locked c then none
    else (st.workItems.find? c.pkey).filter fun row => row.claimable now

/-- The row returned by `claim_work_item`. -/
structure ClaimedItem where
  partitionKey : String
  eventNumber : ℤ
  claimedBy : String
  leaseExpiresAt : Timestamp
  wasTakeover : Bool
  priorClaimedBy : Option String
  deriving DecidableEq, Repr

/-- `claim_work_item`. The candidate query reads `snapshot`; `locked` are the rows that other
    transactions have locked. -/
def claimWorkItem (now : Timestamp) (snapshot : Store) (locked : WorkItemRow → Bool)
    (streamUuid subscriptionName workerId : Option String) (leaseSeconds : Option ℤ) (st : Store) :
    Except SqlError (Option ClaimedItem × Store) := do
  let u ← notNull "claim_work_item" "p_stream_uuid" streamUuid
  let name ← notEmpty "claim_work_item" "p_subscription_name" subscriptionName
  let worker ← notEmpty "claim_work_item" "p_worker_id" workerId
  let secs ← positive "claim_work_item" "p_lease_seconds" leaseSeconds
  let expires := addSeconds now secs
  let stream ← requireStream "claim_work_item" u st
  let _ ← requireSubscription "claim_work_item" stream.streamId name u st
  match st.lockCandidate now locked (snapshot.candidates (stream.streamId, name) now) with
  | none => return (none, st)
  | some row => do
    let st' ← st.updateItem
      { row with state := .claimed, claimedBy := some worker, leaseExpiresAt := some expires }
    let prior := row.claimedBy.filter fun holder => holder ≠ worker
    return (some ⟨row.partitionKey, row.eventNumber, worker, expires, prior.isSome, prior⟩, st')

/-- The row that `claim_work_item` takes was a candidate in the snapshot, and is claimable now. -/
theorem lockCandidate_eq_some {st : Store} {now : Timestamp} {locked : WorkItemRow → Bool}
    {candidates : List WorkItemRow} {row : WorkItemRow}
    (h : st.lockCandidate now locked candidates = some row) :
    ∃ c ∈ candidates, st.workItems.find? c.pkey = some row ∧ row.claimable now = true := by
  obtain ⟨c, hc, h⟩ := List.exists_of_findSome?_eq_some h
  split_ifs at h
  obtain ⟨hfind, hclaim⟩ := Option.filter_eq_some_iff.mp h
  exact ⟨c, hc, hfind, hclaim⟩

theorem mem_candidates {st : Store} {sub : ℕ × String} {now : Timestamp} {row : WorkItemRow} :
    row ∈ st.candidates sub now ↔ row ∈ st.workItems.rows ∧ row.subscription = sub ∧
      row.claimable now = true ∧ st.blocked row = false := by
  simp [Store.candidates, List.mem_mergeSort]

theorem blocked_eq_false {st : Store} {row : WorkItemRow} :
    st.blocked row = false ↔ ∀ earlier ∈ st.workItems.rows,
      earlier.subscription = row.subscription → earlier.partitionKey = row.partitionKey →
        earlier.eventNumber < row.eventNumber → earlier.state.outstanding = false := by
  simp [Store.blocked]

/-- What a successful `claim_work_item` that returned a row did. -/
structure ClaimedRow (now : Timestamp) (snapshot st st' : Store) (sub : ℕ × String)
    (worker : String) (item : ClaimedItem) (row : WorkItemRow) : Prop where
  candidate : ∃ c ∈ snapshot.candidates sub now, c.pkey = row.pkey
  find : st.workItems.find? row.pkey = some row
  claimable : row.claimable now = true
  item_eq : item.partitionKey = row.partitionKey ∧ item.eventNumber = row.eventNumber ∧
    item.claimedBy = worker
  checks : ({ row with
    state := .claimed, claimedBy := some worker,
    leaseExpiresAt := some item.leaseExpiresAt } : WorkItemRow).checks = true
  store : st' = { st with workItems := st.workItems.put { row with
    state := .claimed, claimedBy := some worker, leaseExpiresAt := some item.leaseExpiresAt } }

theorem claimWorkItem_ok {now : Timestamp} {snapshot : Store} {locked : WorkItemRow → Bool}
    {streamUuid subscriptionName workerId : Option String} {leaseSeconds : Option ℤ}
    {st st' : Store} {item : Option ClaimedItem}
    (h : claimWorkItem now snapshot locked streamUuid subscriptionName workerId leaseSeconds st =
      .ok (item, st')) :
    ∃ u name worker stream, streamUuid = some u ∧ subscriptionName = some name ∧
      workerId = some worker ∧ st.streamByUuid u = some stream ∧
      ((item = none ∧ st' = st) ∨ ∃ it row, item = some it ∧
        ClaimedRow now snapshot st st' (stream.streamId, name) worker it row) := by
  obtain ⟨u, hu, h⟩ := bind_eq_ok.mp h
  obtain ⟨name, hname, h⟩ := bind_eq_ok.mp h
  obtain ⟨worker, hworker, h⟩ := bind_eq_ok.mp h
  obtain ⟨secs, -, h⟩ := bind_eq_ok.mp h
  obtain ⟨stream, hstream, h⟩ := bind_eq_ok.mp h
  obtain ⟨_, -, h⟩ := bind_eq_ok.mp h
  refine ⟨u, name, worker, stream, notNull_ok hu, notEmpty_ok hname, notEmpty_ok hworker,
    requireStream_ok hstream, ?_⟩
  split at h
  · cases h
    exact Or.inl ⟨rfl, rfl⟩
  · rename_i row hrow
    obtain ⟨c, hc, hfind, hclaim⟩ := lockCandidate_eq_some hrow
    have hkey := Table.key_of_find? hfind
    obtain ⟨_, hst, h⟩ := bind_eq_ok.mp h
    cases h
    obtain ⟨hchecks, rfl⟩ := updateItem_ok hst
    exact Or.inr ⟨_, row, rfl, ⟨c, hc, hkey.symm⟩, hkey ▸ hfind, hclaim, ⟨rfl, rfl, rfl⟩, hchecks,
      rfl⟩

/-! ## The calls on one claimed row -/

/-- The parameters that name the row and the caller. -/
structure ItemArgs where
  streamUuid : Option String
  subscriptionName : Option String
  workerId : Option String
  partitionKey : Option String
  eventNumber : Option ℤ

/-- Checked `ItemArgs`. -/
structure ItemRef where
  streamUuid : String
  subscriptionName : String
  workerId : String
  partitionKey : String
  eventNumber : ℕ
  deriving DecidableEq, Repr

/-- The checks of the shared parameters. -/
def ItemArgs.check (proc : String) (a : ItemArgs) : Except SqlError ItemRef := do
  let u ← notNull proc "p_stream_uuid" a.streamUuid
  let name ← notEmpty proc "p_subscription_name" a.subscriptionName
  let worker ← notEmpty proc "p_worker_id" a.workerId
  let p ← notNull proc "p_partition_key" a.partitionKey
  let n ← nonNegative proc "p_event_number" a.eventNumber
  return ⟨u, name, worker, p, n⟩

/-- The key of the named row, once its stream and subscription are known to exist. -/
def ItemRef.key (proc : String) (r : ItemRef) (st : Store) :
    Except SqlError ((ℕ × String) × String × ℤ) := do
  let stream ← requireStream proc r.streamUuid st
  let _ ← requireSubscription proc stream.streamId r.subscriptionName r.streamUuid st
  return ((stream.streamId, r.subscriptionName), r.partitionKey, r.eventNumber)

/-- The row is gone. -/
def itemGone (proc p : String) (n : ℤ) : SqlError :=
  ⟨.IS030, proc ++ ": work item (" ++ p ++ ", " ++ toString n ++ ") gone (takeover)"⟩

/-- `select ... for update` of the row, and the comparison of its holder with the caller. -/
def requireHolder (proc worker : String) (key : (ℕ × String) × String × ℤ) (st : Store) :
    Except SqlError WorkItemRow :=
  match st.workItems.find? key with
  | none => .error (itemGone proc key.2.1 key.2.2)
  | some row =>
    if row.claimedBy ≠ some worker then raise .IS030 (proc ++ ": lease lost (holder=" ++
      holderText row.claimedBy ++ ", caller=" ++ worker ++ ")")
    else .ok row

theorem requireHolder_ok {proc worker : String} {key : (ℕ × String) × String × ℤ} {st : Store}
    {row : WorkItemRow} (h : requireHolder proc worker key st = .ok row) :
    st.workItems.find? key = some row ∧ row.claimedBy = some worker := by
  unfold requireHolder at h
  split at h
  · cases h
  · rename_i x hx
    split_ifs at h with hholder
    · cases h
    · cases h
      exact ⟨hx, not_not.mp hholder⟩

/-- Who does not hold the row is refused. -/
theorem requireHolder_lost (proc : String) {worker : String} {key : (ℕ × String) × String × ℤ} {st : Store}
    (h : ∀ row, st.workItems.find? key = some row → row.claimedBy ≠ some worker) :
    ∃ message, requireHolder proc worker key st = .error ⟨.IS030, message⟩ := by
  unfold requireHolder
  split
  · exact ⟨_, rfl⟩
  · rename_i row hrow
    rw [if_pos (h row hrow)]
    exact ⟨_, rfl⟩

/-- The caller named the row `row`, and holds it. -/
structure Held (proc : String) (a : ItemArgs) (st : Store) (r : ItemRef)
    (key : (ℕ × String) × String × ℤ) (row : WorkItemRow) : Prop where
  check : a.check proc = .ok r
  key_eq : r.key proc st = .ok key
  find : st.workItems.find? key = some row
  holder : row.claimedBy = some r.workerId

/-- `complete_work_item_projection`. -/
def completeWorkItemProjection (a : ItemArgs) (st : Store) : Except SqlError Store := do
  let r ← a.check "complete_work_item_projection"
  let key ← r.key "complete_work_item_projection" st
  let _ ← requireHolder "complete_work_item_projection" r.workerId key st
  return { st with workItems := st.workItems.deleteWhere fun w => w.pkey = key }

theorem completeWorkItemProjection_ok {a : ItemArgs} {st st' : Store}
    (h : completeWorkItemProjection a st = .ok st') :
    ∃ r key row, Held "complete_work_item_projection" a st r key row ∧
      st' = { st with workItems := st.workItems.deleteWhere fun w => w.pkey = key } := by
  obtain ⟨r, hr, h⟩ := bind_eq_ok.mp h
  obtain ⟨key, hkey, h⟩ := bind_eq_ok.mp h
  obtain ⟨row, hrow, h⟩ := bind_eq_ok.mp h
  cases h
  obtain ⟨hfind, hholder⟩ := requireHolder_ok hrow
  exact ⟨r, key, row, ⟨hr, hkey, hfind, hholder⟩, rfl⟩

/-- The snapshot parameters of `complete_work_item_pm`. -/
structure PmSnapshotArgs where
  uuid : Option String
  type : Option String
  version : Option ℤ
  data : Option Json
  metadata : Option Json

/-- `complete_work_item_pm`. -/
def completeWorkItemPm (now : Timestamp) (a : ItemArgs) (s : PmSnapshotArgs) (st : Store) :
    Except SqlError Store := do
  let r ← a.check "complete_work_item_pm"
  let uuid ← notEmpty "complete_work_item_pm" "p_snapshot_uuid" s.uuid
  let type ← notEmpty "complete_work_item_pm" "p_snapshot_type" s.type
  let version ← nonNegative "complete_work_item_pm" "p_snapshot_version" s.version
  let data ← notNull "complete_work_item_pm" "p_snapshot_data" s.data
  let key ← r.key "complete_work_item_pm" st
  let row ← requireHolder "complete_work_item_pm" r.workerId key st
  let st ← st.updateItem { row with state := .done, claimedBy := none, leaseExpiresAt := none }
  return upsertSnapshot now uuid type version data s.metadata st

theorem completeWorkItemPm_ok {now : Timestamp} {a : ItemArgs} {s : PmSnapshotArgs}
    {st st' : Store} (h : completeWorkItemPm now a s st = .ok st') :
    ∃ r key row uuid type version data, Held "complete_work_item_pm" a st r key row ∧
      s.uuid = some uuid ∧
      ({ row with state := .done, claimedBy := none, leaseExpiresAt := none } :
        WorkItemRow).checks = true ∧
      st' = upsertSnapshot now uuid type version data s.metadata { st with
        workItems := st.workItems.put
          { row with state := .done, claimedBy := none, leaseExpiresAt := none } } := by
  obtain ⟨r, hr, h⟩ := bind_eq_ok.mp h
  obtain ⟨uuid, huuid, h⟩ := bind_eq_ok.mp h
  obtain ⟨type, -, h⟩ := bind_eq_ok.mp h
  obtain ⟨version, -, h⟩ := bind_eq_ok.mp h
  obtain ⟨data, -, h⟩ := bind_eq_ok.mp h
  obtain ⟨key, hkey, h⟩ := bind_eq_ok.mp h
  obtain ⟨row, hrow, h⟩ := bind_eq_ok.mp h
  obtain ⟨_, hst, h⟩ := bind_eq_ok.mp h
  cases h
  obtain ⟨hfind, hholder⟩ := requireHolder_ok hrow
  obtain ⟨hchecks, rfl⟩ := updateItem_ok hst
  exact ⟨r, key, row, uuid, type, version, data, ⟨hr, hkey, hfind, hholder⟩, notEmpty_ok huuid,
    hchecks, rfl⟩

/-- `fail_work_item`. -/
def failWorkItem (now : Timestamp) (a : ItemArgs) (errorText : Option String) (st : Store) :
    Except SqlError Store := do
  let r ← a.check "fail_work_item"
  let key ← r.key "fail_work_item" st
  let row ← requireHolder "fail_work_item" r.workerId key st
  st.updateItem { row with
    state := .failed, failedAt := some now, errorText := errorText
    claimedBy := none, leaseExpiresAt := none }

theorem failWorkItem_ok {now : Timestamp} {a : ItemArgs} {errorText : Option String}
    {st st' : Store} (h : failWorkItem now a errorText st = .ok st') :
    ∃ r key row row', Held "fail_work_item" a st r key row ∧
      row' = { row with
        state := .failed, failedAt := some now, errorText := errorText
        claimedBy := none, leaseExpiresAt := none } ∧
      row'.checks = true ∧ st' = { st with workItems := st.workItems.put row' } := by
  obtain ⟨r, hr, h⟩ := bind_eq_ok.mp h
  obtain ⟨key, hkey, h⟩ := bind_eq_ok.mp h
  obtain ⟨row, hrow, h⟩ := bind_eq_ok.mp h
  obtain ⟨hfind, hholder⟩ := requireHolder_ok hrow
  obtain ⟨hchecks, rfl⟩ := updateItem_ok h
  exact ⟨r, key, row, _, ⟨hr, hkey, hfind, hholder⟩, rfl, hchecks, rfl⟩

/-- `extend_work_item_claim`: it also compares the state, in one condition with the holder. -/
def extendWorkItemClaim (now : Timestamp) (a : ItemArgs) (leaseSeconds : Option ℤ) (st : Store) :
    Except SqlError (Timestamp × Store) := do
  let r ← a.check "extend_work_item_claim"
  let secs ← positive "extend_work_item_claim" "p_lease_seconds" leaseSeconds
  let expires := addSeconds now secs
  let key ← r.key "extend_work_item_claim" st
  match st.workItems.find? key with
  | none => .error (itemGone "extend_work_item_claim" key.2.1 key.2.2)
  | some row =>
    if row.state ≠ .claimed ∨ row.claimedBy ≠ some r.workerId then
      raise .IS030 ("extend_work_item_claim: lease lost (state=" ++ row.state.text ++
        ", holder=" ++ holderText row.claimedBy ++ ", caller=" ++ r.workerId ++ ")")
    else do
      let st' ← st.updateItem { row with leaseExpiresAt := some expires }
      return (expires, st')

theorem extendWorkItemClaim_ok {now : Timestamp} {a : ItemArgs} {leaseSeconds : Option ℤ}
    {st st' : Store} {expires : Timestamp}
    (h : extendWorkItemClaim now a leaseSeconds st = .ok (expires, st')) :
    ∃ r key row, Held "extend_work_item_claim" a st r key row ∧ row.state = .claimed ∧
      ({ row with leaseExpiresAt := some expires } : WorkItemRow).checks = true ∧
      st' = { st with workItems := st.workItems.put { row with leaseExpiresAt := some expires } } := by
  obtain ⟨r, hr, h⟩ := bind_eq_ok.mp h
  obtain ⟨secs, -, h⟩ := bind_eq_ok.mp h
  obtain ⟨key, hkey, h⟩ := bind_eq_ok.mp h
  split at h
  · cases h
  · rename_i row hrow
    split_ifs at h with hlost
    · cases h
    · obtain ⟨_, hst, h⟩ := bind_eq_ok.mp h
      cases h
      rw [not_or, not_not, not_not] at hlost
      obtain ⟨hchecks, rfl⟩ := updateItem_ok hst
      exact ⟨r, key, row, ⟨hr, hkey, hrow, hlost.2⟩, hlost.1, hchecks, rfl⟩

/-! ## `complete_pm_instance` -/

/-- `complete_pm_instance`: the number of work items deleted, and whether a snapshot was. The caller
    is not a parameter. -/
def completePmInstance (streamUuid subscriptionName partitionKey snapshotUuid : Option String)
    (st : Store) : Except SqlError ((ℕ × Bool) × Store) := do
  let u ← notNull "complete_pm_instance" "p_stream_uuid" streamUuid
  let name ← notEmpty "complete_pm_instance" "p_subscription_name" subscriptionName
  let p ← notNull "complete_pm_instance" "p_partition_key" partitionKey
  let uuid ← notEmpty "complete_pm_instance" "p_snapshot_uuid" snapshotUuid
  let stream ← requireStream "complete_pm_instance" u st
  let _ ← requireSubscription "complete_pm_instance" stream.streamId name u st
  let st' := { st with
    workItems := st.workItems.deleteWhere fun w =>
      w.subscription = (stream.streamId, name) ∧ w.partitionKey = p
    snapshots := st.snapshots.deleteWhere fun s => s.sourceUuid = uuid }
  return ((st.workItems.rows.length - st'.workItems.rows.length,
    (st.snapshots.find? uuid).isSome), st')

theorem completePmInstance_ok {streamUuid subscriptionName partitionKey snapshotUuid : Option String}
    {st st' : Store} {res : ℕ × Bool}
    (h : completePmInstance streamUuid subscriptionName partitionKey snapshotUuid st =
      .ok (res, st')) :
    ∃ u name p uuid stream, streamUuid = some u ∧ subscriptionName = some name ∧
      partitionKey = some p ∧ snapshotUuid = some uuid ∧ st.streamByUuid u = some stream ∧
      st' = { st with
        workItems := st.workItems.deleteWhere fun w =>
          w.subscription = (stream.streamId, name) ∧ w.partitionKey = p
        snapshots := st.snapshots.deleteWhere fun s => s.sourceUuid = uuid } := by
  obtain ⟨u, hu, h⟩ := bind_eq_ok.mp h
  obtain ⟨name, hname, h⟩ := bind_eq_ok.mp h
  obtain ⟨p, hp, h⟩ := bind_eq_ok.mp h
  obtain ⟨uuid, huuid, h⟩ := bind_eq_ok.mp h
  obtain ⟨stream, hstream, h⟩ := bind_eq_ok.mp h
  obtain ⟨_, -, h⟩ := bind_eq_ok.mp h
  cases h
  exact ⟨u, name, p, uuid, stream, notNull_ok hu, notEmpty_ok hname, notNull_ok hp,
    notEmpty_ok huuid, requireStream_ok hstream, rfl⟩

/-! ## `is_subscription_caught_up` -/

/-- `is_subscription_caught_up`: the cursor is read in `st`, and the work items, by a later statement, in
    `st'`. -/
def isSubscriptionCaughtUp (streamUuid subscriptionName : Option String) (target : Option ℤ)
    (st st' : Store) : Except SqlError Bool := do
  let u ← notNull "is_subscription_caught_up" "p_stream_uuid" streamUuid
  let name ← notEmpty "is_subscription_caught_up" "p_subscription_name" subscriptionName
  let target ← nonNegative "is_subscription_caught_up" "p_target" target
  let stream ← requireStream "is_subscription_caught_up" u st
  let row ← requireSubscription "is_subscription_caught_up" stream.streamId name u st
  return decide (target ≤ row.lastSeen) && !st'.workItems.rows.any fun w =>
    w.subscription = (stream.streamId, name) ∧ w.eventNumber ≤ target ∧ w.state.outstanding

theorem isSubscriptionCaughtUp_eq_true {u name : String} {target : ℕ} {st st' : Store} :
    isSubscriptionCaughtUp (some u) (some name) (some target) st st' = .ok true ↔
      name ≠ "" ∧ ∃ stream row, st.streamByUuid u = some stream ∧
        st.subscriptions.find? (stream.streamId, name) = some row ∧ target ≤ row.lastSeen ∧
          ∀ w ∈ st'.workItems.rows, w.subscription = (stream.streamId, name) →
            w.eventNumber ≤ target → w.state.outstanding = false := by
  have htarget : nonNegative "is_subscription_caught_up" "p_target" (some (target : ℤ)) =
      .ok target := nonNegative_of_nat target
  unfold isSubscriptionCaughtUp
  constructor
  · intro h
    obtain ⟨_, hu, h⟩ := bind_eq_ok.mp h
    obtain ⟨_, hname, h⟩ := bind_eq_ok.mp h
    obtain ⟨_, ht, h⟩ := bind_eq_ok.mp h
    obtain ⟨stream, hstream, h⟩ := bind_eq_ok.mp h
    obtain ⟨row, hrow, h⟩ := bind_eq_ok.mp h
    have htrue := Except.ok.inj h
    cases notNull_ok hu
    obtain rfl := Except.ok.inj (htarget.symm.trans ht)
    have hne : name ≠ "" := by
      rintro rfl
      cases hname
    obtain rfl := Option.some.inj (notEmpty_ok hname)
    refine ⟨hne, stream, row, requireStream_ok hstream, requireSubscription_ok hrow, ?_⟩
    rw [Bool.and_eq_true, decide_eq_true_eq, Bool.not_eq_true', List.any_eq_false] at htrue
    refine ⟨htrue.1, fun w hw hsub hn => ?_⟩
    simpa [hsub, hn] using htrue.2 w hw
  · rintro ⟨hne, stream, row, hstream, hrow, hle, hnone⟩
    have hany : (st'.workItems.rows.any fun w => decide (w.subscription = (stream.streamId, name) ∧
        w.eventNumber ≤ target ∧ w.state.outstanding = true)) = false := by
      rw [List.any_eq_false]
      intro w hw
      simpa using fun hsub hn => hnone w hw hsub hn
    rw [notEmpty_of_ne hne, htarget]
    simp [notNull, requireStream, hstream, requireSubscription, hrow, bind, Except.bind, pure,
      Except.pure, hle]
    simpa using hany

/-! ## `list_pm_rebuild_events` -/

/-- The joins of `list_pm_rebuild_events` (lines 2929–2936), for the work item `wi`. -/
def Store.joinItem (st : Store) (wi : WorkItemRow) : List RecordedEvent :=
  ((st.links 0).filter fun se => (se.streamVersion : ℤ) = wi.eventNumber).filterMap st.joinAll

/-- The rows of `list_pm_rebuild_events`, before the joins. -/
def Store.doneItems (st : Store) (sub : ℕ × String) (partitionKey : String) (before : ℤ) :
    List WorkItemRow :=
  (st.workItems.rows.filter fun wi => wi.subscription = sub ∧ wi.partitionKey = partitionKey ∧
    wi.state = .done ∧ wi.eventNumber < before).mergeSort fun a b => a.eventNumber ≤ b.eventNumber

/-- `list_pm_rebuild_events`. -/
def listPmRebuildEvents (streamUuid subscriptionName partitionKey : Option String)
    (eventNumber : Option ℤ) (st : Store) : Except SqlError (List RecordedEvent) := do
  let u ← notNull "list_pm_rebuild_events" "p_stream_uuid" streamUuid
  let name ← notEmpty "list_pm_rebuild_events" "p_subscription_name" subscriptionName
  let p ← notNull "list_pm_rebuild_events" "p_partition_key" partitionKey
  let n ← nonNegative "list_pm_rebuild_events" "p_event_number" eventNumber
  let stream ← requireStream "list_pm_rebuild_events" u st
  let _ ← requireSubscription "list_pm_rebuild_events" stream.streamId name u st
  return (st.doneItems (stream.streamId, name) p n).flatMap st.joinItem

end Instructed
