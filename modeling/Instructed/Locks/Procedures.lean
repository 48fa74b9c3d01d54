import Instructed.Lib.Locking
import Instructed.Queue.WorkItem
import Instructed.Store.Append

/-!
# The locks of the procedures

Every procedure of `sql/instructed.sql` that writes, as the sequence of the row locks it takes: one
`Program` for each, statement by statement.

* `Row`, `Mode`: what is locked, and how. An inserted row is locked as an updated one: an `insert` of
  the same key waits for it. A row of `streams` goes by its `stream_uuid`;
* `Row.Before`: the order in which the procedures lock, by table and then by primary key;
* `allGuard`: the rows that are only locked under the lock on `$all`.

A `look` reads the tables as its statement finds them. A request that ends without its lock has found
the row gone, or the key there: `insert ... on conflict do update` starts over when the row it waited
for is gone, and then it has not moved on. Foreign keys are checked at the end of their statement.
-/

namespace Instructed.Locks

open Sql Relational Locking

/-- A value of `subscription_work_items_pkey`. -/
abbrev ItemKey := (ℕ × String) × String × ℤ

/-- A row, or the entry of a unique index for which an `insert` waits. -/
inductive Row where
  | stream (streamUuid : String)
  | event (eventId : Uuid)
  /-- `stream_events_pkey`. -/
  | link (key : Uuid × ℕ)
  /-- `stream_events_stream_id_stream_version_key`. -/
  | linkVersion (key : ℕ × ℕ)
  | snapshot (sourceUuid : String)
  | subscription (key : ℕ × String)
  | workItem (key : ItemKey)
  deriving DecidableEq

/-- The lock modes that the procedures use: `for key share` of a foreign key; `update`; `for update`,
    `delete` and `insert`. -/
inductive Mode where
  | keyShare
  | noKeyUpdate
  | update
  deriving DecidableEq

/-- The conflicts of two locks on one row. -/
def Mode.conflicts : Mode → Mode → Bool
  | .update, _ | _, .update => true
  | .noKeyUpdate, .noKeyUpdate => true
  | _, _ => false

/-! ## The order -/

/-- The order of `subscription_work_items_pkey`. It depends on the collation of the texts. -/
structure KeyOrder where
  le : ItemKey → ItemKey → Bool
  trans : ∀ a b c, le a b = true → le b c = true → le a c = true
  total : ∀ a b, (le a b || le b a) = true
  antisymm : ∀ a b, le a b = true → le b a = true → a = b

/-- The place of the row's table in the order. -/
def Row.table : Row → ℕ
  | .subscription _ => 0
  | .workItem _ => 1
  | .snapshot _ => 2
  | .stream u => if u = "$all" then 4 else 3
  | .event _ | .link _ | .linkVersion _ => 5

/-- The order of the rows: by table, and the work items by their key. -/
inductive Row.Before (order : KeyOrder) : Row → Row → Prop
  | table {a b : Row} : a.table < b.table → Row.Before order a b
  | key {a b : ItemKey} : order.le a b = true → a ≠ b →
      Row.Before order (.workItem a) (.workItem b)

/-- The rows that `append_to_stream` inserts once it has bumped `$all`. -/
def allGuard : Row → Option (Lock Row Mode)
  | .event _ | .link _ | .linkVersion _ => some ⟨.stream "$all", .noKeyUpdate⟩
  | _ => none

/-! ## Statements -/

/-- A transaction that runs one procedure. -/
abbrev LockProgram := Program Db Row Mode

/-- A check that may raise, which ends the transaction. -/
def checked {α : Type} (x : Except SqlError α) (next : α → LockProgram) : LockProgram :=
  match x with
  | .ok a => next a
  | .error _ => .done

/-- A statement that locks one row; without the row the procedure ends. -/
def lockRow (row : Row) (mode : Mode) (next : LockProgram) : LockProgram :=
  .lock ⟨row, mode⟩ fun found => if found then next else .done

/-- A statement that locks the rows one after the other. -/
def lockAll (mode : Mode) (rows : List Row) (next : LockProgram) : LockProgram :=
  rows.foldr (fun row rest => .lock ⟨row, mode⟩ fun _ => rest) next

/-- `insert`; a row whose key is there raises. -/
def insertAll (rows : List Row) (next : LockProgram) : LockProgram :=
  rows.foldr (fun row rest => lockRow row .update rest) next

/-- The work items of one statement, in the order of the primary key. -/
def KeyOrder.sorted (order : KeyOrder) (keys : List ItemKey) : List Row :=
  (keys.mergeSort order.le).map .workItem

/-! ## `append_to_stream` -/

/-- The value of step (1), once its row is locked. -/
def written (r : AppendRequest) (next : StreamRow → LockProgram) : LockProgram :=
  .look fun db => checked (Instructed.resolveStream db.store db.streamIdSeq r) next

/-- Step (1). -/
def resolveStream (r : AppendRequest) (next : StreamRow → LockProgram) : LockProgram :=
  match r.expected with
  | .any => .lock ⟨.stream r.streamUuid, .update⟩ fun inserted =>
      if inserted then written r next
      else lockRow (.stream r.streamUuid) .noKeyUpdate (written r next)
  | .noStream => lockRow (.stream r.streamUuid) .update (written r next)
  | .streamExists => lockRow (.stream r.streamUuid) .noKeyUpdate (written r next)
  | .exact v => .lock ⟨.stream r.streamUuid, .update⟩ fun found =>
      if found then written r fun row => lockRow (.stream r.streamUuid) .noKeyUpdate (next row)
      else if v = 0 then lockRow (.stream r.streamUuid) .update (written r next)
      else .done

/-- Steps (3) and (4). The CTE chain inserts into two tables and leaves the order of its rows open:
    `priority` decides it. -/
def insertEvents (now : Timestamp) (priority : Row → ℕ) (r : AppendRequest) (row all : StreamRow) :
    LockProgram :=
  checked (newEvents now r.events) fun es =>
    let ls := newLinks row.streamId (row.streamVersion - r.n) (all.streamVersion - r.n) es
    let rows := es.map (fun e => Row.event e.eventId) ++ ls.map (fun l => .link l.pkey) ++
      ls.map fun l => .linkVersion l.versionKey
    insertAll (rows.mergeSort fun a b => priority a ≤ priority b) <|
      lockAll .keyShare (es.map (fun e => .event e.eventId) ++
        [.stream r.streamUuid, .stream "$all"]) .done

/-- `append_to_stream`. -/
def appendToStream (now : Timestamp) (priority : Row → ℕ) (a : AppendArgs) : LockProgram :=
  checked (validateAppend a) fun r =>
  resolveStream r fun row =>
  lockRow (.stream "$all") .noKeyUpdate <|
  .look fun db => checked (bumpAll db.store r.n) fun all => insertEvents now priority r row all

/-! ## Snapshots -/

/-- `_upsert_snapshot`. -/
def upsertSnapshot (sourceUuid : String) : LockProgram :=
  .lock ⟨.snapshot sourceUuid, .update⟩ fun inserted =>
    if inserted then .done else lockRow (.snapshot sourceUuid) .noKeyUpdate .done

/-- `record_snapshot`. -/
def recordSnapshot (now : Timestamp) (sourceUuid sourceType : Option String)
    (sourceVersion : Option ℤ) (data metadata : Option Json) : LockProgram :=
  .look fun db =>
    checked (Instructed.recordSnapshot now sourceUuid sourceType sourceVersion data metadata db.store)
      fun _ => checked (notNull "record_snapshot" "p_source_uuid" sourceUuid) upsertSnapshot

/-- `delete_snapshot`. -/
def deleteSnapshot (sourceUuid : Option String) : LockProgram :=
  checked (notNull "delete_snapshot" "p_source_uuid" sourceUuid) fun u =>
  lockRow (.snapshot u) .update .done

/-! ## Subscriptions -/

/-- The locked branch of `claim_subscription` (lines 1480–1540). -/
def reclaim (now : Timestamp) (worker : String) (key : ℕ × String) : LockProgram :=
  .tryLock ⟨.subscription key, .update⟩ fun found =>
    if found then .look fun db =>
      match db.store.subscriptions.find? key with
      | some row => if row.claimable worker now then lockRow (.subscription key) .noKeyUpdate .done
          else .done
      | none => .done
    else .done

/-- `claim_subscription`. -/
def claimSubscription (now : Timestamp) (streamUuid subscriptionName workerId : Option String)
    (leaseSeconds : Option ℤ) (options : Option Json) : LockProgram :=
  checked (notNull "claim_subscription" "p_stream_uuid" streamUuid) fun u =>
  checked (notEmpty "claim_subscription" "p_subscription_name" subscriptionName) fun name =>
  checked (notEmpty "claim_subscription" "p_worker_id" workerId) fun worker =>
  checked (positive "claim_subscription" "p_lease_seconds" leaseSeconds) fun _ =>
  .look fun db =>
    match db.store.streamByUuid u with
    | none => .done
    | some stream =>
      let key := (stream.streamId, name)
      .look fun db =>
        match db.store.subscriptions.find? key with
        | none =>
          checked (startCursor ((options.bind fun o => o.getText? "start_from").getD "origin") stream)
            fun _ => .lock ⟨.subscription key, .update⟩ fun inserted =>
              if inserted then lockRow (.stream u) .keyShare .done else reclaim now worker key
        | some row => if row.heldByOther worker now then .done else reclaim now worker key

/-- `release_subscription`. -/
def releaseSubscription (streamUuid subscriptionName workerId : Option String) : LockProgram :=
  checked (notNull "release_subscription" "p_stream_uuid" streamUuid) fun u =>
  checked (notEmpty "release_subscription" "p_subscription_name" subscriptionName) fun name =>
  checked (notEmpty "release_subscription" "p_worker_id" workerId) fun worker =>
  .look fun db => checked (requireStream "release_subscription" u db.store) fun stream =>
  let key := (stream.streamId, name)
  lockRow (.subscription key) .update <|
  .look fun db =>
    checked (requireSubscription "release_subscription" stream.streamId name u db.store) fun row =>
  if row.claimedBy ≠ some worker then .done else lockRow (.subscription key) .noKeyUpdate .done

/-- `delete_subscription` (lines 1682–1723). The cascade deletes the work items. -/
def deleteSubscription (order : KeyOrder) (streamUuid subscriptionName : Option String) :
    LockProgram :=
  checked (notNull "delete_subscription" "p_stream_uuid" streamUuid) fun u =>
  checked (notEmpty "delete_subscription" "p_subscription_name" subscriptionName) fun name =>
  .look fun db => checked (requireStream "delete_subscription" u db.store) fun stream =>
  lockRow (.subscription (stream.streamId, name)) .update <|
  .look fun db => lockAll .update (order.sorted ((db.store.workItems.rows.filter fun w =>
    w.subscription = (stream.streamId, name)).map WorkItemRow.pkey)) .done

/-- `route_batch`. Its `insert` waits for the keys of the batch, and takes the new ones. -/
def routeBatch (order : KeyOrder) (streamUuid subscriptionName workerId : Option String)
    (newCursor : Option ℤ) (decisions : Option Json) : LockProgram :=
  checked (notNull "route_batch" "p_stream_uuid" streamUuid) fun u =>
  checked (notEmpty "route_batch" "p_subscription_name" subscriptionName) fun name =>
  checked (notEmpty "route_batch" "p_worker_id" workerId) fun worker =>
  checked (nonNegative "route_batch" "p_new_cursor" newCursor) fun _ =>
  checked (decisionsOf decisions) fun ds =>
  .look fun db => checked (requireStream "route_batch" u db.store) fun stream =>
  let key := (stream.streamId, name)
  lockRow (.subscription key) .update <|
  .look fun db => checked (requireSubscription "route_batch" stream.streamId name u db.store) fun row =>
  if row.claimedBy ≠ some worker then .done
  else checked (ds.mapM (decisionRow stream.streamId name)) fun items =>
    lockAll .update (order.sorted (items.map WorkItemRow.pkey)) <|
    lockAll .keyShare (items.map fun _ => .subscription key) <|
    lockRow (.subscription key) .noKeyUpdate .done

/-! ## Work items -/

/-- `for update skip locked limit 1`, and the `update` of the row found. A row that is locked and then
    found to have changed stays locked. -/
def lockCandidate (now : Timestamp) : List WorkItemRow → LockProgram
  | [] => .done
  | c :: candidates => .tryLock ⟨.workItem c.pkey, .update⟩ fun found =>
      if found then .look fun db =>
        if ((db.store.workItems.find? c.pkey).filter fun row => row.claimable now).isSome then
          lockRow (.workItem c.pkey) .noKeyUpdate .done
        else lockCandidate now candidates
      else lockCandidate now candidates

/-- `claim_work_item`. -/
def claimWorkItem (now : Timestamp) (streamUuid subscriptionName workerId : Option String)
    (leaseSeconds : Option ℤ) : LockProgram :=
  checked (notNull "claim_work_item" "p_stream_uuid" streamUuid) fun u =>
  checked (notEmpty "claim_work_item" "p_subscription_name" subscriptionName) fun name =>
  checked (notEmpty "claim_work_item" "p_worker_id" workerId) fun _ =>
  checked (positive "claim_work_item" "p_lease_seconds" leaseSeconds) fun _ =>
  .look fun db => checked (requireStream "claim_work_item" u db.store) fun stream =>
  .look fun db =>
    checked (requireSubscription "claim_work_item" stream.streamId name u db.store) fun _ =>
  .look fun db => lockCandidate now (db.store.candidates (stream.streamId, name) now)

/-- `select ... for update` of the named row. -/
def lockItem (proc : String) (r : ItemRef)
    (next : ItemKey → LockProgram) : LockProgram :=
  .look fun db => checked (r.key proc db.store) fun key => lockRow (.workItem key) .update (next key)

/-- The comparison of the row's holder with the caller. -/
def verified (proc : String) (r : ItemRef) (key : ItemKey)
    (next : LockProgram) : LockProgram :=
  .look fun db => checked (requireHolder proc r.workerId key db.store) fun _ => next

/-- `complete_work_item_projection`. -/
def completeWorkItemProjection (a : ItemArgs) : LockProgram :=
  checked (a.check "complete_work_item_projection") fun r =>
  lockItem "complete_work_item_projection" r fun key =>
  verified "complete_work_item_projection" r key <|
  lockRow (.workItem key) .update .done

/-- `complete_work_item_pm`. -/
def completeWorkItemPm (a : ItemArgs) (s : PmSnapshotArgs) : LockProgram :=
  checked (a.check "complete_work_item_pm") fun r =>
  checked (notEmpty "complete_work_item_pm" "p_snapshot_uuid" s.uuid) fun uuid =>
  checked (notEmpty "complete_work_item_pm" "p_snapshot_type" s.type) fun _ =>
  checked (nonNegative "complete_work_item_pm" "p_snapshot_version" s.version) fun _ =>
  checked (notNull "complete_work_item_pm" "p_snapshot_data" s.data) fun _ =>
  lockItem "complete_work_item_pm" r fun key =>
  verified "complete_work_item_pm" r key <|
  lockRow (.workItem key) .noKeyUpdate (upsertSnapshot uuid)

/-- `complete_pm_instance`. -/
def completePmInstance (order : KeyOrder)
    (streamUuid subscriptionName partitionKey snapshotUuid : Option String) : LockProgram :=
  checked (notNull "complete_pm_instance" "p_stream_uuid" streamUuid) fun u =>
  checked (notEmpty "complete_pm_instance" "p_subscription_name" subscriptionName) fun name =>
  checked (notNull "complete_pm_instance" "p_partition_key" partitionKey) fun p =>
  checked (notEmpty "complete_pm_instance" "p_snapshot_uuid" snapshotUuid) fun uuid =>
  .look fun db => checked (requireStream "complete_pm_instance" u db.store) fun stream =>
  .look fun db =>
    checked (requireSubscription "complete_pm_instance" stream.streamId name u db.store) fun _ =>
  .look fun db => lockAll .update (order.sorted ((db.store.workItems.rows.filter fun w =>
      w.subscription = (stream.streamId, name) ∧ w.partitionKey = p).map WorkItemRow.pkey)) <|
  lockRow (.snapshot uuid) .update .done

/-- `fail_work_item`. -/
def failWorkItem (a : ItemArgs) : LockProgram :=
  checked (a.check "fail_work_item") fun r =>
  lockItem "fail_work_item" r fun key =>
  verified "fail_work_item" r key <|
  lockRow (.workItem key) .noKeyUpdate .done

/-- `extend_work_item_claim`, which also compares the row's state. -/
def extendWorkItemClaim (a : ItemArgs) (leaseSeconds : Option ℤ) : LockProgram :=
  checked (a.check "extend_work_item_claim") fun r =>
  checked (positive "extend_work_item_claim" "p_lease_seconds" leaseSeconds) fun _ =>
  lockItem "extend_work_item_claim" r fun key =>
  .look fun db =>
    match db.store.workItems.find? key with
    | none => .done
    | some row =>
      if row.state ≠ .claimed ∨ row.claimedBy ≠ some r.workerId then .done
      else lockRow (.workItem key) .noKeyUpdate .done

/-! ## Calls -/

/-- A call of a procedure, with its arguments. -/
inductive Call where
  | appendToStream (now : Timestamp) (priority : Row → ℕ) (a : AppendArgs)
  | recordSnapshot (now : Timestamp) (sourceUuid sourceType : Option String)
      (sourceVersion : Option ℤ) (data metadata : Option Json)
  | deleteSnapshot (sourceUuid : Option String)
  | claimSubscription (now : Timestamp) (streamUuid subscriptionName workerId : Option String)
      (leaseSeconds : Option ℤ) (options : Option Json)
  | releaseSubscription (streamUuid subscriptionName workerId : Option String)
  | deleteSubscription (streamUuid subscriptionName : Option String)
  | routeBatch (streamUuid subscriptionName workerId : Option String) (newCursor : Option ℤ)
      (decisions : Option Json)
  | claimWorkItem (now : Timestamp) (streamUuid subscriptionName workerId : Option String)
      (leaseSeconds : Option ℤ)
  | extendWorkItemClaim (a : ItemArgs) (leaseSeconds : Option ℤ)
  | completeWorkItemProjection (a : ItemArgs)
  | completeWorkItemPm (a : ItemArgs) (s : PmSnapshotArgs)
  | failWorkItem (a : ItemArgs)
  | completePmInstance (streamUuid subscriptionName partitionKey snapshotUuid : Option String)

/-- The locks of the call. -/
def Call.program (order : KeyOrder) : Call → LockProgram
  | .appendToStream now priority a => Locks.appendToStream now priority a
  | .recordSnapshot now u t v data metadata => Locks.recordSnapshot now u t v data metadata
  | .deleteSnapshot u => Locks.deleteSnapshot u
  | .claimSubscription now u name worker lease options =>
    Locks.claimSubscription now u name worker lease options
  | .releaseSubscription u name worker => Locks.releaseSubscription u name worker
  | .deleteSubscription u name => Locks.deleteSubscription order u name
  | .routeBatch u name worker cursor decisions =>
    Locks.routeBatch order u name worker cursor decisions
  | .claimWorkItem now u name worker lease => Locks.claimWorkItem now u name worker lease
  | .extendWorkItemClaim a lease => Locks.extendWorkItemClaim a lease
  | .completeWorkItemProjection a => Locks.completeWorkItemProjection a
  | .completeWorkItemPm a s => Locks.completeWorkItemPm a s
  | .failWorkItem a => Locks.failWorkItem a
  | .completePmInstance u name p uuid => Locks.completePmInstance order u name p uuid

end Instructed.Locks
