import Instructed.Store.Schema

/-!
# Subscriptions

The procedures of `sql/instructed.sql` on one row of `subscriptions`: `claim_subscription` (lines
1348–1548), `release_subscription` (1586–1645), `delete_subscription` (1682–1723), which also deletes its
work items, `_require_subscription` (1758–1777) and `route_batch` (1838–1944), which also inserts the
work items of the batch.

* `notNull`, `notEmpty`, `positive`, `nonNegative`: the parameter checks that every procedure makes;
* `startCursor`: the meaning of `start_from`;
* `decisionRow`: one element of `p_decisions`.

A call runs in one transaction on its own, so `for update skip locked` finds the row unlocked.
-/

namespace Instructed

open Sql Relational

/-! ## Parameter checks -/

/-- `if p is null then raise '<proc>: <param> is null'`. -/
def notNull {α : Type} (proc param : String) : Option α → Except SqlError α
  | some a => .ok a
  | none => raise .invalidParameterValue (proc ++ ": " ++ param ++ " is null")

/-- `if p is null or p = '' then raise '<proc>: <param> is null/empty'`. -/
def notEmpty (proc param : String) : Option String → Except SqlError String
  | none | some "" => raise .invalidParameterValue (proc ++ ": " ++ param ++ " is null/empty")
  | some s => .ok s

/-- `if p is null or p <= 0 then raise '<proc>: <param> must be a positive integer'`. -/
def positive (proc param : String) : Option ℤ → Except SqlError ℤ
  | some n =>
    if n ≤ 0 then raise .invalidParameterValue (proc ++ ": " ++ param ++ " must be a positive integer")
    else .ok n
  | none => raise .invalidParameterValue (proc ++ ": " ++ param ++ " must be a positive integer")

/-- `if p is null or p < 0 then raise '<proc>: <param> must be non-negative'`. -/
def nonNegative (proc param : String) : Option ℤ → Except SqlError ℕ
  | some n =>
    if n < 0 then raise .invalidParameterValue (proc ++ ": " ++ param ++ " must be non-negative")
    else .ok n.toNat
  | none => raise .invalidParameterValue (proc ++ ": " ++ param ++ " must be non-negative")

theorem notNull_ok {α : Type} {proc param : String} {p : Option α} {a : α}
    (h : notNull proc param p = .ok a) : p = some a := by
  cases p with
  | none => cases h
  | some x => cases h; rfl

theorem notEmpty_ok {proc param : String} {p : Option String} {s : String}
    (h : notEmpty proc param p = .ok s) : p = some s := by
  unfold notEmpty at h
  split at h
  · cases h
  · cases h
  · cases h; rfl

theorem notEmpty_of_ne {proc param s : String} (h : s ≠ "") : notEmpty proc param (some s) = .ok s := by
  unfold notEmpty
  split
  · rename_i heq
    cases heq
  · rename_i heq
    cases heq
    exact absurd rfl h
  · rename_i heq
    cases heq
    rfl

theorem positive_of_pos {proc param : String} {n : ℤ} (h : 0 < n) :
    positive proc param (some n) = .ok n := by
  have hnot : ¬ n ≤ 0 := by omega
  simp only [positive, if_neg hnot]

theorem nonNegative_of_nat {proc param : String} (n : ℕ) :
    nonNegative proc param (some (n : ℤ)) = .ok n := by
  have hnot : ¬ (n : ℤ) < 0 := by omega
  simp [nonNegative, hnot]

theorem positive_ok {proc param : String} {p : Option ℤ} {n : ℤ}
    (h : positive proc param p = .ok n) : p = some n ∧ 0 < n := by
  unfold positive at h
  split at h
  · split_ifs at h with hn
    · cases h
    · cases h
      exact ⟨rfl, by omega⟩
  · cases h

theorem nonNegative_ok {proc param : String} {p : Option ℤ} {n : ℕ}
    (h : nonNegative proc param p = .ok n) : p = some (n : ℤ) := by
  unfold nonNegative at h
  split at h
  · split_ifs at h with hn
    · cases h
    · cases h
      exact congrArg some (Int.toNat_of_nonneg (by omega)).symm
  · cases h

/-! ## Looking up -/

/-- `select stream_id from streams`, in the procedures that raise IS020 when there is none. -/
def requireStream (proc u : String) (st : Store) : Except SqlError StreamRow :=
  match st.streamByUuid u with
  | some row => .ok row
  | none => raise .IS020 (proc ++ ": subscription not found (no such stream)")

/-- `_require_subscription`, with the row it found. -/
def requireSubscription (proc : String) (streamId : ℕ) (name u : String) (st : Store) :
    Except SqlError SubscriptionRow :=
  match st.subscriptions.find? (streamId, name) with
  | some row => .ok row
  | none => raise .IS020 (proc ++ ": subscription " ++ name ++ " on " ++ u ++ " not found")

theorem requireStream_ok {proc u : String} {st : Store} {row : StreamRow}
    (h : requireStream proc u st = .ok row) : st.streamByUuid u = some row := by
  unfold requireStream at h
  split at h
  · rename_i r hr
    cases h
    exact hr
  · cases h

theorem requireSubscription_ok {proc name u : String} {streamId : ℕ} {st : Store}
    {row : SubscriptionRow} (h : requireSubscription proc streamId name u st = .ok row) :
    st.subscriptions.find? (streamId, name) = some row := by
  unfold requireSubscription at h
  split at h
  · rename_i r hr
    cases h
    exact hr
  · cases h

/-- `coalesce(holder, '<none>')`. -/
def holderText (holder : Option String) : String := holder.getD "<none>"

/-- Write a row of `subscriptions`. -/
def Store.putSubscription (st : Store) (row : SubscriptionRow) : Store :=
  { st with subscriptions := st.subscriptions.put row }

/-! ## `claim_subscription` -/

/-- `result`. -/
inductive ClaimOutcome where
  | claimed
  | alreadyClaimed
  deriving DecidableEq, Repr

/-- The row returned by `claim_subscription`. -/
structure ClaimResult where
  result : ClaimOutcome
  lastSeen : ℕ
  claimedBy : Option String
  claimExpiresAt : Option Timestamp
  deriving DecidableEq, Repr

/-- The unlocked pre-check: another worker holds a live lease (lines 1413–1418). -/
def SubscriptionRow.heldByOther (row : SubscriptionRow) (worker : String) (now : Timestamp) :
    Bool :=
  match row.claimedBy, row.claimExpiresAt with
  | some holder, some expires => holder ≠ worker ∧ now < expires
  | _, _ => false

/-- The check under the row lock (lines 1522–1526). -/
def SubscriptionRow.claimable (row : SubscriptionRow) (worker : String) (now : Timestamp) : Bool :=
  match row.claimedBy, row.claimExpiresAt with
  | some holder, some expires => expires ≤ now ∨ holder = worker
  | _, _ => true

/-- `start_from` resolved against the subscription's stream (lines 1433–1460). -/
def startCursor (startFrom : String) (stream : StreamRow) : Except SqlError ℕ :=
  if startFrom = "origin" then .ok 0
  else if startFrom = "current" then .ok stream.streamVersion
  else match bigintOfText startFrom with
  | .ok n =>
    if n < 0 then raise .invalidParameterValue
      "claim_subscription: start_from must be non-negative"
    else .ok n.toNat
  | .error e =>
    if e.sqlstate = .invalidTextRepresentation then raise .invalidParameterValue
      "claim_subscription: start_from must be 'origin', 'current', or a non-negative integer"
    else .error e

/-- The returned row when another worker holds the lease. -/
def SubscriptionRow.alreadyClaimed (row : SubscriptionRow) : ClaimResult :=
  ⟨.alreadyClaimed, row.lastSeen, row.claimedBy, row.claimExpiresAt⟩

/-- `claim_subscription`. -/
def claimSubscription (now : Timestamp) (streamUuid subscriptionName workerId : Option String)
    (leaseSeconds : Option ℤ) (options : Option Json) (st : Store) :
    Except SqlError (ClaimResult × Store) := do
  let u ← notNull "claim_subscription" "p_stream_uuid" streamUuid
  let name ← notEmpty "claim_subscription" "p_subscription_name" subscriptionName
  let worker ← notEmpty "claim_subscription" "p_worker_id" workerId
  let secs ← positive "claim_subscription" "p_lease_seconds" leaseSeconds
  let startFrom := (options.bind fun o => o.getText? "start_from").getD "origin"
  let expires := addSeconds now secs
  match st.streamByUuid u with
  | none => raise .IS003 ("claim_subscription: stream " ++ u ++ " not found")
  | some stream =>
    match st.subscriptions.find? (stream.streamId, name) with
    | none =>
      let initial ← startCursor startFrom stream
      let row := ⟨stream.streamId, name, initial, some worker, some expires⟩
      return (⟨.claimed, initial, some worker, some expires⟩, st.putSubscription row)
    | some row =>
      if row.heldByOther worker now then return (row.alreadyClaimed, st)
      else if row.claimable worker now then
        let row' := { row with claimedBy := some worker, claimExpiresAt := some expires }
        return (⟨.claimed, row.lastSeen, some worker, some expires⟩, st.putSubscription row')
      else return (row.alreadyClaimed, st)

/-- What a successful `claim_subscription` did. -/
inductive ClaimedAs (st : Store) (stream : StreamRow) (name worker : String) (now : Timestamp)
    (expires : Timestamp) (startFrom : String) : ClaimResult → Store → Prop
  | alreadyClaimed {row : SubscriptionRow} : st.subscriptions.find? (stream.streamId, name) = some row →
      ClaimedAs st stream name worker now expires startFrom row.alreadyClaimed st
  | created {initial : ℕ} : st.subscriptions.find? (stream.streamId, name) = none →
      startCursor startFrom stream = .ok initial →
      ClaimedAs st stream name worker now expires startFrom
        ⟨.claimed, initial, some worker, some expires⟩
        (st.putSubscription ⟨stream.streamId, name, initial, some worker, some expires⟩)
  | taken {row : SubscriptionRow} : st.subscriptions.find? (stream.streamId, name) = some row →
      row.claimable worker now = true →
      ClaimedAs st stream name worker now expires startFrom
        ⟨.claimed, row.lastSeen, some worker, some expires⟩
        (st.putSubscription { row with claimedBy := some worker, claimExpiresAt := some expires })

theorem claimSubscription_ok {now : Timestamp} {streamUuid subscriptionName workerId : Option String}
    {leaseSeconds : Option ℤ} {options : Option Json} {st st' : Store} {r : ClaimResult}
    (h : claimSubscription now streamUuid subscriptionName workerId leaseSeconds options st =
      .ok (r, st')) :
    ∃ u name worker secs stream, streamUuid = some u ∧ subscriptionName = some name ∧
      workerId = some worker ∧ st.streamByUuid u = some stream ∧
      ClaimedAs st stream name worker now (addSeconds now secs)
        ((options.bind fun o => o.getText? "start_from").getD "origin") r st' := by
  obtain ⟨u, hu, h⟩ := bind_eq_ok.mp h
  obtain ⟨name, hname, h⟩ := bind_eq_ok.mp h
  obtain ⟨worker, hworker, h⟩ := bind_eq_ok.mp h
  obtain ⟨secs, -, h⟩ := bind_eq_ok.mp h
  dsimp only at h
  split at h
  · cases h
  · rename_i stream hstream
    refine ⟨u, name, worker, secs, stream, notNull_ok hu, notEmpty_ok hname, notEmpty_ok hworker,
      hstream, ?_⟩
    split at h
    · rename_i hnone
      obtain ⟨initial, hinitial, h⟩ := bind_eq_ok.mp h
      cases h
      exact .created hnone hinitial
    · rename_i row hrow
      split_ifs at h with hheld hclaim
      · cases h
        exact .alreadyClaimed hrow
      · cases h
        exact .taken hrow hclaim
      · cases h
        exact .alreadyClaimed hrow

/-! ## `release_subscription` -/

/-- `release_subscription`. -/
def releaseSubscription (streamUuid subscriptionName workerId : Option String) (st : Store) :
    Except SqlError Store := do
  let u ← notNull "release_subscription" "p_stream_uuid" streamUuid
  let name ← notEmpty "release_subscription" "p_subscription_name" subscriptionName
  let worker ← notEmpty "release_subscription" "p_worker_id" workerId
  let stream ← requireStream "release_subscription" u st
  let row ← requireSubscription "release_subscription" stream.streamId name u st
  if row.claimedBy ≠ some worker then
    raise .IS022 ("release_subscription: lease lost (holder=" ++ holderText row.claimedBy ++
      ", caller=" ++ worker ++ ")")
  else return st.putSubscription { row with claimedBy := none, claimExpiresAt := none }

theorem releaseSubscription_ok {streamUuid subscriptionName workerId : Option String}
    {st st' : Store} (h : releaseSubscription streamUuid subscriptionName workerId st = .ok st') :
    ∃ u name worker stream row, streamUuid = some u ∧ subscriptionName = some name ∧
      workerId = some worker ∧ st.streamByUuid u = some stream ∧
      st.subscriptions.find? (stream.streamId, name) = some row ∧ row.claimedBy = some worker ∧
      st' = st.putSubscription { row with claimedBy := none, claimExpiresAt := none } := by
  obtain ⟨u, hu, h⟩ := bind_eq_ok.mp h
  obtain ⟨name, hname, h⟩ := bind_eq_ok.mp h
  obtain ⟨worker, hworker, h⟩ := bind_eq_ok.mp h
  obtain ⟨stream, hstream, h⟩ := bind_eq_ok.mp h
  obtain ⟨row, hrow, h⟩ := bind_eq_ok.mp h
  split_ifs at h with hholder
  · cases h
  · cases h
    exact ⟨u, name, worker, stream, row, notNull_ok hu, notEmpty_ok hname, notEmpty_ok hworker,
      requireStream_ok hstream, requireSubscription_ok hrow, not_not.mp hholder, rfl⟩

/-! ## `delete_subscription` -/

/-- `delete_subscription` (lines 1682–1723). The foreign key of the work items cascades. -/
def deleteSubscription (streamUuid subscriptionName : Option String) (st : Store) :
    Except SqlError Store := do
  let u ← notNull "delete_subscription" "p_stream_uuid" streamUuid
  let name ← notEmpty "delete_subscription" "p_subscription_name" subscriptionName
  let stream ← requireStream "delete_subscription" u st
  let _ ← requireSubscription "delete_subscription" stream.streamId name u st
  return { st with
    subscriptions := st.subscriptions.deleteWhere fun s => s.pkey = (stream.streamId, name)
    workItems := st.workItems.deleteWhere fun w => w.subscription = (stream.streamId, name) }

theorem deleteSubscription_ok {streamUuid subscriptionName : Option String} {st st' : Store}
    (h : deleteSubscription streamUuid subscriptionName st = .ok st') :
    ∃ u name stream row, streamUuid = some u ∧ subscriptionName = some name ∧
      st.streamByUuid u = some stream ∧
      st.subscriptions.find? (stream.streamId, name) = some row ∧
      st' = { st with
        subscriptions := st.subscriptions.deleteWhere fun s => s.pkey = (stream.streamId, name)
        workItems := st.workItems.deleteWhere fun w => w.subscription = (stream.streamId, name) } := by
  obtain ⟨u, hu, h⟩ := bind_eq_ok.mp h
  obtain ⟨name, hname, h⟩ := bind_eq_ok.mp h
  obtain ⟨stream, hstream, h⟩ := bind_eq_ok.mp h
  obtain ⟨row, hrow, h⟩ := bind_eq_ok.mp h
  cases h
  exact ⟨u, name, stream, row, notNull_ok hu, notEmpty_ok hname, requireStream_ok hstream,
    requireSubscription_ok hrow, rfl⟩

/-! ## `route_batch` -/

/-- The condition of the per-element shape check (lines 1890–1898), three-valued as in `misshapen`. -/
def misshapenDecision (d : Json) : Option Bool :=
  sqlOr (some (!d.hasKey "partition_key")) <|
  sqlOr (some (!d.hasKey "event_number")) <|
  sqlOr (typeofNe (d.get? "partition_key") "string") <|
  typeofNe (d.get? "event_number") "number"

/-- The input checks of `p_decisions` (lines 1884–1902). -/
def decisionsOf (decisions : Option Json) : Except SqlError (List Json) :=
  match decisions with
  | some (.arr ds) =>
    if ds.any fun d => misshapenDecision d = some true then raise .invalidParameterValue
      "route_batch: each decision must have partition_key:text and event_number:int"
    else .ok ds
  | _ => raise .invalidParameterValue
      "route_batch: p_decisions must be a JSON array (possibly empty)"

/-- The work item of one decision, pending (lines 1923–1929). -/
def decisionRow (streamId : ℕ) (name : String) (d : Json) : Except SqlError WorkItemRow :=
  match d.getText? "partition_key", d.get? "event_number" with
  | some p, some (.num x) => do
    let n ← bigintOfNumeric x
    return ⟨streamId, name, p, n, .pending, none, none, none, none⟩
  | _, _ => raise .notNullViolation
      "null value in column of relation \"subscription_work_items\""

/-- `insert ... on conflict do nothing` of a list of work items. -/
def Store.insertItems (st : Store) (items : List WorkItemRow) : Store :=
  { st with workItems := st.workItems.insertAllNew items }

/-- `route_batch`: the number of rows inserted, and the cursor. -/
def routeBatch (streamUuid subscriptionName workerId : Option String) (newCursor : Option ℤ)
    (decisions : Option Json) (st : Store) : Except SqlError ((ℕ × ℕ) × Store) := do
  let u ← notNull "route_batch" "p_stream_uuid" streamUuid
  let name ← notEmpty "route_batch" "p_subscription_name" subscriptionName
  let worker ← notEmpty "route_batch" "p_worker_id" workerId
  let cursor ← nonNegative "route_batch" "p_new_cursor" newCursor
  let ds ← decisionsOf decisions
  let stream ← requireStream "route_batch" u st
  let row ← requireSubscription "route_batch" stream.streamId name u st
  if row.claimedBy ≠ some worker then
    raise .IS022 ("route_batch: lease lost (holder=" ++ holderText row.claimedBy ++
      ", caller=" ++ worker ++ ")")
  else do
    let items ← ds.mapM (decisionRow stream.streamId name)
    let row' := { row with lastSeen := max row.lastSeen cursor }
    let st' := (st.insertItems items).putSubscription row'
    return ((st'.workItems.rows.length - st.workItems.rows.length, row'.lastSeen), st')

theorem decisionRow_ok {streamId : ℕ} {name : String} {d : Json} {item : WorkItemRow}
    (h : decisionRow streamId name d = .ok item) :
    ∃ p n, item = ⟨streamId, name, p, n, .pending, none, none, none, none⟩ := by
  unfold decisionRow at h
  split at h
  · obtain ⟨n, -, h⟩ := bind_eq_ok.mp h
    cases h
    exact ⟨_, n, rfl⟩
  · cases h

/-- What a successful `route_batch` did. -/
theorem routeBatch_ok {streamUuid subscriptionName workerId : Option String}
    {newCursor : Option ℤ} {decisions : Option Json} {st st' : Store} {r : ℕ × ℕ}
    (h : routeBatch streamUuid subscriptionName workerId newCursor decisions st = .ok (r, st')) :
    ∃ u name worker cursor ds stream row items, streamUuid = some u ∧ subscriptionName = some name ∧
      workerId = some worker ∧ newCursor = some ((cursor : ℕ) : ℤ) ∧ decisionsOf decisions = .ok ds ∧
      st.streamByUuid u = some stream ∧
      st.subscriptions.find? (stream.streamId, name) = some row ∧ row.claimedBy = some worker ∧
      ds.mapM (decisionRow stream.streamId name) = .ok items ∧
      r.2 = max row.lastSeen cursor ∧
      st' = (st.insertItems items).putSubscription
        { row with lastSeen := max row.lastSeen cursor } := by
  obtain ⟨u, hu, h⟩ := bind_eq_ok.mp h
  obtain ⟨name, hname, h⟩ := bind_eq_ok.mp h
  obtain ⟨worker, hworker, h⟩ := bind_eq_ok.mp h
  obtain ⟨cursor, hcursor, h⟩ := bind_eq_ok.mp h
  obtain ⟨ds, hds, h⟩ := bind_eq_ok.mp h
  obtain ⟨stream, hstream, h⟩ := bind_eq_ok.mp h
  obtain ⟨row, hrow, h⟩ := bind_eq_ok.mp h
  split_ifs at h with hholder
  · cases h
  · obtain ⟨items, hitems, h⟩ := bind_eq_ok.mp h
    cases h
    exact ⟨u, name, worker, cursor, ds, stream, row, items, notNull_ok hu, notEmpty_ok hname,
      notEmpty_ok hworker, nonNegative_ok hcursor, hds, requireStream_ok hstream,
      requireSubscription_ok hrow, not_not.mp hholder, hitems, rfl, rfl⟩

end Instructed
