import Instructed.Lib.System
import Instructed.Queue.Subscription
import Instructed.Store.AppendCorrect
import Mathlib.Data.Fintype.Basic

/-!
# Leases on subscriptions

`claim_subscription` at statement granularity: the statements of any number of calls are interleaved
with each other and with `release_subscription`, `route_batch` and `delete_subscription`. Every call is
a transaction of its own, and `now()` is the time at which it started.

* `Phase`: how far a session's call has come, and the row it has locked;
* `runClaim`: the next statement of a claim. Its reads see the tables as they are at that statement, and
  its later statements may find them changed;
* `Call`: the other procedures. A session may lock a row some time before its call commits;
* `step`: the system; `Entry`: what was committed and when, a ghost.
-/

namespace Instructed.Lease

open Sql Relational Transition

/-! ## Calls -/

/-- The checked parameters of `claim_subscription`. -/
structure ClaimCall where
  streamUuid : String
  subscriptionName : String
  worker : String
  secs : ℤ
  startFrom : String

/-- The input checks of `claim_subscription`. -/
def checkClaim (streamUuid subscriptionName workerId : Option String) (leaseSeconds : Option ℤ)
    (options : Option Json) : Except SqlError ClaimCall := do
  let u ← notNull "claim_subscription" "p_stream_uuid" streamUuid
  let name ← notEmpty "claim_subscription" "p_subscription_name" subscriptionName
  let worker ← notEmpty "claim_subscription" "p_worker_id" workerId
  let secs ← positive "claim_subscription" "p_lease_seconds" leaseSeconds
  return ⟨u, name, worker, secs, (options.bind fun o => o.getText? "start_from").getD "origin"⟩

/-- The other procedures on a subscription. -/
inductive Call where
  | release (streamUuid subscriptionName workerId : Option String)
  | routeBatch (streamUuid subscriptionName workerId : Option String) (newCursor : Option ℤ)
      (decisions : Option Json)
  | delete (streamUuid subscriptionName : Option String)

/-- What a committed call did to a lease. -/
inductive Event where
  | claimed (worker : String) (key : ℕ × String) (expires : Timestamp)
  | released (worker : String) (key : ℕ × String)
  | deleted (key : ℕ × String)
  deriving DecidableEq

/-- An event and the time of its commit. -/
structure Entry where
  time : Timestamp
  event : Event
  deriving DecidableEq

/-- `subscriptions_pkey` of the row that the parameters name. -/
def keyOf (st : Store) (streamUuid subscriptionName : Option String) : Option (ℕ × String) := do
  let u ← streamUuid
  let name ← subscriptionName
  let stream ← st.streamByUuid u
  return (stream.streamId, name)

/-- The row that the call locks. -/
def Call.key (st : Store) : Call → Option (ℕ × String)
  | .release u name _ => keyOf st u name
  | .routeBatch u name _ _ _ => keyOf st u name
  | .delete u name => keyOf st u name

/-- The tables after the call. -/
def Call.run (st : Store) : Call → Except SqlError Store
  | .release u name worker => releaseSubscription u name worker st
  | .routeBatch u name worker cursor decisions =>
    (Instructed.routeBatch u name worker cursor decisions st).map Prod.snd
  | .delete u name => deleteSubscription u name st

/-- What the call does to the lease when it succeeds. -/
def Call.event (st : Store) : Call → Option Event
  | .release u name worker => do return .released (← worker) (← keyOf st u name)
  | .routeBatch .. => none
  | .delete u name => (keyOf st u name).map .deleted

/-! ## Sessions -/

/-- How far a session's call has come. -/
inductive Phase where
  | idle
  /-- `claim_subscription`: the stream is to be looked up. -/
  | resolve (now : Timestamp) (c : ClaimCall)
  /-- The unlocked pre-check (lines 1406–1429). -/
  | precheck (now : Timestamp) (c : ClaimCall) (streamId : ℕ)
  /-- There was no row: `start_from` is to be resolved (lines 1433–1460). -/
  | start (now : Timestamp) (c : ClaimCall) (streamId : ℕ)
  /-- `insert ... on conflict do nothing` (lines 1462–1473). -/
  | insert (now : Timestamp) (c : ClaimCall) (streamId initial : ℕ)
  /-- `select ... for update skip locked` (lines 1480–1490). -/
  | select (now : Timestamp) (c : ClaimCall) (streamId : ℕ)
  /-- The row is locked, and its lease is to be verified (lines 1522–1531). -/
  | update (now : Timestamp) (c : ClaimCall) (row : SubscriptionRow)
  /-- The lease on `row` is written; the call returns `'claimed'` when it commits. -/
  | claimed (now : Timestamp) (worker : String) (expires : Timestamp) (row : SubscriptionRow)
  /-- Another procedure has locked a row. -/
  | holds (key : ℕ × String)

/-- The row of `subscriptions` that the session has locked. -/
def Phase.locks : Phase → Option (ℕ × String)
  | .update _ _ row => some row.pkey
  | .claimed _ _ _ row => some row.pkey
  | .holds key => some key
  | _ => none

/-- A row with a new lease. -/
def lease (row : SubscriptionRow) (worker : String) (expires : Timestamp) : SubscriptionRow :=
  { row with claimedBy := some worker, claimExpiresAt := some expires }

@[simp] theorem pkey_lease (row : SubscriptionRow) (worker : String) (expires : Timestamp) :
    (lease row worker expires).pkey = row.pkey := rfl

/-! ## The system -/

/-- The clock, the committed tables, the sessions, and what was committed. -/
structure World (ι : Type) where
  clock : Timestamp
  db : Db
  phase : ι → Phase
  history : List Entry

/-- What happens next. -/
inductive Op (ι : Type) where
  | tick (t : Timestamp)
  | append (now : Timestamp) (a : AppendArgs)
  /-- Call `claim_subscription`. -/
  | claim (i : ι) (streamUuid subscriptionName workerId : Option String) (leaseSeconds : Option ℤ)
      (options : Option Json)
  /-- Run the next statement of the claim. -/
  | run (i : ι)
  /-- `skip locked` finds no row, although there may be one by now. -/
  | skip (i : ι)
  | commit (i : ι)
  /-- Lock a row, for a call that is going to commit. -/
  | lock (i : ι) (key : ℕ × String)
  | call (i : ι) (c : Call)
  | abort (i : ι)

namespace World

variable {ι : Type}

def install (ι : Type) : World ι := ⟨0, Db.install, fun _ => .idle, []⟩

/-- The row of `subscriptions`, as committed. -/
def row (w : World ι) (key : ℕ × String) : Option SubscriptionRow :=
  w.db.store.subscriptions.find? key

/-- Another session has locked the row, or inserted it. -/
def Locked (w : World ι) (i : ι) (key : ℕ × String) : Prop :=
  ∃ j, j ≠ i ∧ (w.phase j).locks = some key

instance [Fintype ι] [DecidableEq ι] (w : World ι) (i : ι) (key : ℕ × String) :
    Decidable (w.Locked i key) :=
  inferInstanceAs (Decidable (∃ _, _ ∧ _))

variable [DecidableEq ι]

def set (w : World ι) (i : ι) (p : Phase) : World ι :=
  { w with phase := Function.update w.phase i p }

variable [Fintype ι]

/-- The next statement of the claim of session `i`. The call returns `'already_claimed'`, or raises,
    where the session falls idle. -/
def runClaim (w : World ι) (i : ι) : Phase → Option (World ι)
  | .resolve now c =>
    match w.db.store.streamByUuid c.streamUuid with
    | none => some (w.set i .idle)
    | some stream => some (w.set i (.precheck now c stream.streamId))
  | .precheck now c streamId =>
    match w.row (streamId, c.subscriptionName) with
    | some row =>
      if row.heldByOther c.worker now then some (w.set i .idle)
      else some (w.set i (.select now c streamId))
    | none => some (w.set i (.start now c streamId))
  | .start now c streamId =>
    match w.db.store.streams.find? streamId with
    | none => some (w.set i .idle)
    | some stream =>
      match startCursor c.startFrom stream with
      | .ok initial => some (w.set i (.insert now c streamId initial))
      | .error _ => some (w.set i .idle)
  | .insert now c streamId initial =>
    match w.row (streamId, c.subscriptionName) with
    | some _ => some (w.set i (.select now c streamId))
    | none =>
      -- An insert waits for a transaction that has inserted the key.
      if w.Locked i (streamId, c.subscriptionName) then none
      else some (w.set i (.claimed now c.worker (addSeconds now c.secs)
        ⟨streamId, c.subscriptionName, initial, none, none⟩))
  | .select now c streamId =>
    match w.row (streamId, c.subscriptionName) with
    | none => some (w.set i .idle)
    | some row =>
      if w.Locked i (streamId, c.subscriptionName) then some (w.set i .idle)
      else some (w.set i (.update now c row))
  | .update now c row =>
    if row.claimable c.worker now then
      some (w.set i (.claimed now c.worker (addSeconds now c.secs) row))
    else some (w.set i .idle)
  | _ => none

/-- A claim commits. -/
def commitClaim (w : World ι) (i : ι) (worker : String) (expires : Timestamp)
    (row : SubscriptionRow) : World ι :=
  { w.set i .idle with
    db := { w.db with store := w.db.store.putSubscription (lease row worker expires) }
    history := w.history ++ [⟨w.clock, .claimed worker row.pkey expires⟩] }

/-- Another call commits, or raises and is rolled back. -/
def call (w : World ι) (i : ι) (c : Call) : World ι :=
  match c.run w.db.store with
  | .ok st =>
    { w.set i .idle with
      db := { w.db with store := st }
      history := w.history ++ ((c.event w.db.store).map (Entry.mk w.clock)).toList }
  | .error _ => w.set i .idle

end World

variable {ι : Type} [Fintype ι] [DecidableEq ι]

/-- One step. -/
def step (w : World ι) : Op ι → Option (World ι)
  | .tick t => if w.clock ≤ t then some { w with clock := t } else none
  | .append now a => some { w with db := (w.db.append now a).2 }
  | .claim i u name worker secs options =>
    match w.phase i with
    | .idle =>
      match checkClaim u name worker secs options with
      | .ok c => some (w.set i (.resolve w.clock c))
      | .error _ => some w
    | _ => none
  | .run i => w.runClaim i (w.phase i)
  | .skip i =>
    match w.phase i with
    | .select .. => some (w.set i .idle)
    | _ => none
  | .commit i =>
    match w.phase i with
    | .claimed _ worker expires row => some (w.commitClaim i worker expires row)
    | _ => none
  | .lock i key =>
    match w.phase i with
    | .idle =>
      if w.Locked i key ∨ (w.row key).isNone then none else some (w.set i (.holds key))
    | _ => none
  | .call i c =>
    match w.phase i with
    | .idle | .holds _ =>
      if ∃ key ∈ c.key w.db.store, w.Locked i key then none else some (w.call i c)
    | _ => none
  | .abort i => some (w.set i .idle)

/-- The calls of the sessions `ι`. -/
def system (ι : Type) [Fintype ι] [DecidableEq ι] : System (World ι) (Op ι) where
  init w := w = World.install ι
  step := step

end Instructed.Lease
