import Instructed.Lib.Table
import Instructed.Sql.Values

/-!
# The schema

The tables of `sql/instructed.sql` (lines 135–392), one row type each, and the store that holds
them. Primary keys are the keys of `Relational.Table`, so no two rows of a store share one. The
further unique constraints (`streams.stream_uuid`, `stream_events (stream_id, stream_version)`) are
checked by the statements that insert.

`bigint` counters are natural numbers: a counter here counts rows of one table, and a table cannot
hold `2 ^ 63` of them. The columns `streams.created_at` and `subscriptions.created_at` are read by
no procedure and left out.
-/

namespace Instructed

open Sql Relational

/-- A row of `streams` (lines 135–141). -/
structure StreamRow where
  streamId : ℕ
  streamUuid : String
  streamVersion : ℕ
  deriving DecidableEq, Repr

/-- A row of `events` (lines 175–183). -/
structure EventRow where
  eventId : Uuid
  eventType : String
  causationId : Option Uuid
  correlationId : Option Uuid
  data : Json
  metadata : Option Json
  createdAt : Timestamp

/-- A row of `stream_events` (lines 202–210). -/
@[ext]
structure StreamEventRow where
  eventId : Uuid
  streamId : ℕ
  streamVersion : ℕ
  originalStreamId : ℕ
  originalStreamVersion : ℕ
  deriving DecidableEq

/-- `stream_events_pkey`. -/
def StreamEventRow.pkey (l : StreamEventRow) : Uuid × ℕ := (l.eventId, l.streamId)

/-- `stream_events_stream_id_stream_version_key`. -/
def StreamEventRow.versionKey (l : StreamEventRow) : ℕ × ℕ := (l.streamId, l.streamVersion)

/-- A row of `snapshots` (lines 223–230). -/
structure SnapshotRow where
  sourceUuid : String
  sourceType : String
  sourceVersion : ℕ
  data : Json
  metadata : Option Json
  createdAt : Timestamp

/-- A row of `subscriptions` (lines 250–258). -/
structure SubscriptionRow where
  streamId : ℕ
  subscriptionName : String
  lastSeen : ℕ
  claimedBy : Option String
  claimExpiresAt : Option Timestamp
  deriving DecidableEq, Repr

/-- `subscriptions_pkey`. -/
def SubscriptionRow.pkey (s : SubscriptionRow) : ℕ × String := (s.streamId, s.subscriptionName)

/-- `subscription_work_items.state`. -/
inductive WorkItemState where
  | pending | claimed | failed | done
  deriving DecidableEq, Repr

/-- The column's text. -/
def WorkItemState.text : WorkItemState → String
  | .pending => "pending"
  | .claimed => "claimed"
  | .failed => "failed"
  | .done => "done"

/-- `state in ('pending','claimed','failed')`: the row is still outstanding. -/
def WorkItemState.outstanding : WorkItemState → Bool
  | .done => false
  | _ => true

/-- A row of `subscription_work_items` (lines 365–392). -/
structure WorkItemRow where
  streamId : ℕ
  subscriptionName : String
  partitionKey : String
  eventNumber : ℤ
  state : WorkItemState
  claimedBy : Option String
  leaseExpiresAt : Option Timestamp
  failedAt : Option Timestamp
  errorText : Option String
  deriving DecidableEq, Repr

/-- `subscription_work_items_pkey`. -/
def WorkItemRow.pkey (w : WorkItemRow) : (ℕ × String) × String × ℤ :=
  ((w.streamId, w.subscriptionName), w.partitionKey, w.eventNumber)

/-- The subscription that owns the work item. -/
def WorkItemRow.subscription (w : WorkItemRow) : ℕ × String := (w.streamId, w.subscriptionName)

/-- The `instructed` schema's tables. -/
structure Store where
  streams : Table StreamRow.streamId
  events : Table EventRow.eventId
  streamEvents : Table StreamEventRow.pkey
  snapshots : Table SnapshotRow.sourceUuid
  subscriptions : Table SubscriptionRow.pkey
  workItems : Table WorkItemRow.pkey

namespace Store

/-- The store after installing the schema: the `$all` row and nothing else (lines 146–148). -/
def install : Store where
  streams := (Table.empty _).put ⟨0, "$all", 0⟩
  events := Table.empty _
  streamEvents := Table.empty _
  snapshots := Table.empty _
  subscriptions := Table.empty _
  workItems := Table.empty _

/-- `select ... from streams where stream_uuid = u`. -/
def streamByUuid (st : Store) (u : String) : Option StreamRow :=
  st.streams.rows.find? fun r => decide (r.streamUuid = u)

/-- Write a row of `streams`. -/
def putStream (st : Store) (r : StreamRow) : Store := { st with streams := st.streams.put r }

/-- The rows of `stream_events` on stream `i`, in insertion order. -/
def links (st : Store) (i : ℕ) : List StreamEventRow :=
  st.streamEvents.rows.filter fun l => decide (l.streamId = i)

section PutStream

variable (st : Store) (r : StreamRow)

@[simp] theorem putStream_streams : (st.putStream r).streams = st.streams.put r := rfl
@[simp] theorem putStream_events : (st.putStream r).events = st.events := rfl
@[simp] theorem putStream_streamEvents : (st.putStream r).streamEvents = st.streamEvents := rfl
@[simp] theorem putStream_snapshots : (st.putStream r).snapshots = st.snapshots := rfl
@[simp] theorem putStream_subscriptions : (st.putStream r).subscriptions = st.subscriptions := rfl
@[simp] theorem putStream_workItems : (st.putStream r).workItems = st.workItems := rfl
@[simp] theorem putStream_links (i : ℕ) : (st.putStream r).links i = st.links i := rfl

end PutStream

theorem mem_links {st : Store} {i : ℕ} {l : StreamEventRow} :
    l ∈ st.links i ↔ l ∈ st.streamEvents.rows ∧ l.streamId = i := by
  simp [links]

theorem streamByUuid_eq_none_iff {st : Store} {u : String} :
    st.streamByUuid u = none ↔ ∀ r ∈ st.streams.rows, r.streamUuid ≠ u := by
  simp [streamByUuid, List.find?_eq_none]

theorem mem_of_streamByUuid {st : Store} {u : String} {r : StreamRow}
    (h : st.streamByUuid u = some r) : r ∈ st.streams.rows :=
  List.mem_of_find?_eq_some h

theorem uuid_of_streamByUuid {st : Store} {u : String} {r : StreamRow}
    (h : st.streamByUuid u = some r) : r.streamUuid = u := by
  simpa using List.find?_some h

end Store

end Instructed
