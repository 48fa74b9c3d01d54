import Instructed.Lib.Lanes
import Instructed.Lib.System
import Instructed.Queue.WorkItem
import Instructed.Store.Log

/-!
# The work queue

Any number of callers run the work-queue procedures in any order, with any arguments and clocks. Each
call is atomic, except that the candidate query of `claim_work_item` may read an older state than the
one its row is locked and updated in: a claim is opened, which fixes what its statement sees, and runs
later.

* `Call`, `Op`, `step`: the system. A call that raises leaves the world as it is;
* `Event`: the history of the rows, a ghost;
* `Change`, `Call.run_change`: what a successful call does to the tables, said once.
-/

namespace Instructed.Queue

open Sql Relational Transition

/-- `subscription_work_items_pkey`. -/
abbrev Key := (ℕ × String) × String × ℤ

/-- A partition of a subscription. -/
abbrev Lane := (ℕ × String) × String

/-- The partition of a row. -/
def lane (row : WorkItemRow) : Lane := (row.subscription, row.partitionKey)

/-! ## The calls -/

/-- A call of a procedure, except `claim_work_item`. -/
inductive Call where
  | claimSubscription (now : Timestamp) (streamUuid subscriptionName workerId : Option String)
      (leaseSeconds : Option ℤ) (options : Option Json)
  | releaseSubscription (streamUuid subscriptionName workerId : Option String)
  | routeBatch (streamUuid subscriptionName workerId : Option String) (newCursor : Option ℤ)
      (decisions : Option Json)
  | extend (now : Timestamp) (a : ItemArgs) (leaseSeconds : Option ℤ)
  | completeProjection (a : ItemArgs)
  | completePm (now : Timestamp) (a : ItemArgs) (s : PmSnapshotArgs)
  | fail (now : Timestamp) (a : ItemArgs) (errorText : Option String)
  | completePmInstance (streamUuid subscriptionName partitionKey snapshotUuid : Option String)

/-- What happened to a row. -/
inductive Event where
  | inserted (key : Key)
  | claimed (worker : String) (key : Key)
  | completed (worker : String) (key : Key)
  | failed (worker : String) (key : Key)
  /-- Deleted with its partition by `complete_pm_instance`. -/
  | removed (key : Key)
  deriving DecidableEq

/-- The caller and the row that the parameters name. -/
def named (a : ItemArgs) (st : Store) : Option (String × Key) := do
  let u ← a.streamUuid
  let name ← a.subscriptionName
  let worker ← a.workerId
  let p ← a.partitionKey
  let n ← a.eventNumber
  let stream ← st.streamByUuid u
  return (worker, (stream.streamId, name), p, n)

/-- The keys of the rows that were inserted: new rows come last. -/
def insertedKeys (st st' : Store) : List Key :=
  (st'.workItems.rows.drop st.workItems.rows.length).map WorkItemRow.pkey

/-- The keys of the rows that are gone. -/
def removedKeys (st st' : Store) : List Key :=
  (st.workItems.rows.map WorkItemRow.pkey).filter fun key => (st'.workItems.find? key).isNone

/-- The store after the call, and what happened to rows. -/
def Call.run (st : Store) : Call → Except SqlError (Store × List Event)
  | .claimSubscription now u name worker lease options =>
    (Instructed.claimSubscription now u name worker lease options st).map fun r => (r.2, [])
  | .releaseSubscription u name worker =>
    (Instructed.releaseSubscription u name worker st).map fun st' => (st', [])
  | .routeBatch u name worker cursor decisions =>
    (Instructed.routeBatch u name worker cursor decisions st).map fun r =>
      (r.2, (insertedKeys st r.2).map .inserted)
  | .extend now a lease => (extendWorkItemClaim now a lease st).map fun r => (r.2, [])
  | .completeProjection a => (completeWorkItemProjection a st).map fun st' =>
      (st', ((named a st).map fun k => Event.completed k.1 k.2).toList)
  | .completePm now a s => (completeWorkItemPm now a s st).map fun st' =>
      (st', ((named a st).map fun k => Event.completed k.1 k.2).toList)
  | .fail now a text => (failWorkItem now a text st).map fun st' =>
      (st', ((named a st).map fun k => Event.failed k.1 k.2).toList)
  | .completePmInstance u name p uuid =>
    (Instructed.completePmInstance u name p uuid st).map fun r =>
      (r.2, (removedKeys st r.2).map .removed)

/-- A call of `claim_work_item` whose candidate query reads `snapshot`. -/
def runClaim (now : Timestamp) (snapshot : Store) (locked : WorkItemRow → Bool)
    (streamUuid subscriptionName workerId : Option String) (leaseSeconds : Option ℤ) (st : Store) :
    Except SqlError (Store × List Event) := do
  let (item, st') ←
    claimWorkItem now snapshot locked streamUuid subscriptionName workerId leaseSeconds st
  let key (it : ClaimedItem) : Option (String × Key) :=
    named ⟨streamUuid, subscriptionName, workerId, some it.partitionKey, some it.eventNumber⟩ st
  return (st', ((item.bind key).map fun k => Event.claimed k.1 k.2).toList)

/-! ## The system -/

/-- The database, the snapshots of the claims that are open, and the history. -/
structure World (κ : Type) where
  db : Db
  snapshots : κ → Option Store
  events : List Event

/-- What happens next. -/
inductive Op (κ : Type) where
  | append (now : Timestamp) (a : AppendArgs)
  | call (c : Call)
  /-- The candidate query of a `claim_work_item` takes its snapshot. -/
  | openClaim (i : κ)
  /-- The same call locks a row and updates it; other transactions have locked `locked`. -/
  | claimItem (i : κ) (now : Timestamp) (locked : WorkItemRow → Bool)
      (streamUuid subscriptionName workerId : Option String) (leaseSeconds : Option ℤ)

section System

variable {κ : Type} [DecidableEq κ]

def World.install : World κ := ⟨Db.install, fun _ => none, []⟩

/-- The world after a transaction that succeeded with this result, or was rolled back. -/
def World.commit (w : World κ) : Except SqlError (Store × List Event) → World κ
  | .ok (st, events) =>
    { w with db := { w.db with store := st }, events := w.events ++ events }
  | .error _ => w

/-- One step. -/
def step (w : World κ) : Op κ → Option (World κ)
  | .append now a => some { w with db := (w.db.append now a).2 }
  | .call c => some (w.commit (c.run w.db.store))
  | .openClaim i =>
    match w.snapshots i with
    | none => some { w with snapshots := Function.update w.snapshots i (some w.db.store) }
    | some _ => none
  | .claimItem i now locked u name worker lease =>
    match w.snapshots i with
    | some snapshot =>
      let w' := w.commit (runClaim now snapshot locked u name worker lease w.db.store)
      some { w' with snapshots := Function.update w.snapshots i none }
    | none => none

/-- The subscription that a call claims, releases or routes for. -/
def Call.target (st : Store) : Call → Option (ℕ × String)
  | .claimSubscription _ u name _ _ _ | .releaseSubscription u name _ | .routeBatch u name _ _ _ => do
    let u ← u
    let name ← name
    let stream ← st.streamByUuid u
    return (stream.streamId, name)
  | _ => none

/-- The subscription that an operation claims, releases or routes for. -/
def Op.target (st : Store) : Op κ → Option (ℕ × String)
  | .call c => c.target st
  | _ => none

/-- The work queue on a fresh install. -/
def system : System (World κ) (Op κ) where
  init w := w = World.install
  step := step

end System

/-! ## What a successful call does -/

/-- A row of `subscriptions` may be written when its stream exists and its cursor does not fall. -/
structure SubscriptionAllowed (st : Store) (row : SubscriptionRow) : Prop where
  stream : ∃ stream ∈ st.streams.rows, stream.streamId = row.streamId
  lastSeen_le : ∀ old, st.subscriptions.find? row.pkey = some old → old.lastSeen ≤ row.lastSeen

/-- The changes of the tables, with what happened to the rows. -/
inductive Change (st : Store) : Store → List Event → Prop
  | same {st' : Store} : st'.subscriptions = st.subscriptions → st'.workItems = st.workItems →
      st'.snapshots = st.snapshots → Change st st' []
  | subscription {row : SubscriptionRow} : SubscriptionAllowed st row →
      Change st (st.putSubscription row) []
  | routed {row : SubscriptionRow} {items : List WorkItemRow} : SubscriptionAllowed st row →
      (∀ item ∈ items, item.state = .pending ∧ item.claimedBy = none) →
      (∀ item ∈ items, item.subscription = row.pkey) →
      Change st ((st.insertItems items).putSubscription row)
        ((insertedKeys st (st.insertItems items)).map .inserted)
  | extended {row : WorkItemRow} {expires : Timestamp} :
      st.workItems.find? row.pkey = some row → row.state = .claimed →
      ({ row with leaseExpiresAt := some expires } : WorkItemRow).checks = true →
      Change st { st with workItems := st.workItems.put { row with leaseExpiresAt := some expires } }
        []
  | claimed {row : WorkItemRow} {now expires : Timestamp} {worker : String} :
      st.workItems.find? row.pkey = some row → row.claimable now = true →
      ({ row with
        state := .claimed, claimedBy := some worker,
        leaseExpiresAt := some expires } : WorkItemRow).checks = true →
      Change st { st with workItems := st.workItems.put { row with
        state := .claimed, claimedBy := some worker, leaseExpiresAt := some expires } }
        [.claimed worker row.pkey]
  | deleted {row : WorkItemRow} {worker : String} :
      st.workItems.find? row.pkey = some row → row.claimedBy = some worker →
      Change st { st with workItems := st.workItems.deleteWhere fun w => w.pkey = row.pkey }
        [.completed worker row.pkey]
  | done {row : WorkItemRow} {worker uuid type : String} {now : Timestamp} {version : ℕ} {data : Json}
      {metadata : Option Json} :
      st.workItems.find? row.pkey = some row → row.claimedBy = some worker →
      ({ row with state := .done, claimedBy := none, leaseExpiresAt := none } :
        WorkItemRow).checks = true →
      Change st (upsertSnapshot now uuid type version data metadata { st with
        workItems := st.workItems.put
          { row with state := .done, claimedBy := none, leaseExpiresAt := none } })
        [.completed worker row.pkey]
  | failed {row row' : WorkItemRow} {worker : String} :
      st.workItems.find? row.pkey = some row → row.claimedBy = some worker → row'.pkey = row.pkey →
      row'.state = .failed → row'.claimedBy = none → row'.checks = true →
      Change st { st with workItems := st.workItems.put row' } [.failed worker row.pkey]
  | instanceDeleted {st' : Store} {sub : ℕ × String} {p uuid : String} :
      st' = { st with
        workItems := st.workItems.deleteWhere fun w => w.subscription = sub ∧ w.partitionKey = p
        snapshots := st.snapshots.deleteWhere fun s => s.sourceUuid = uuid } →
      Change st st' ((removedKeys st st').map .removed)

theorem ItemRef.key_ok {proc : String} {r : ItemRef} {st : Store} {key : Key}
    (h : r.key proc st = .ok key) : ∃ stream, st.streamByUuid r.streamUuid = some stream ∧
      key = ((stream.streamId, r.subscriptionName), r.partitionKey, (r.eventNumber : ℤ)) := by
  obtain ⟨stream, hstream, h⟩ := bind_eq_ok.mp h
  obtain ⟨_, -, h⟩ := bind_eq_ok.mp h
  cases h
  exact ⟨stream, requireStream_ok hstream, rfl⟩

theorem ItemArgs.check_ok {proc : String} {a : ItemArgs} {r : ItemRef} (h : a.check proc = .ok r) :
    a = ⟨some r.streamUuid, some r.subscriptionName, some r.workerId, some r.partitionKey,
      some (r.eventNumber : ℤ)⟩ := by
  obtain ⟨u, hu, h⟩ := bind_eq_ok.mp h
  obtain ⟨name, hname, h⟩ := bind_eq_ok.mp h
  obtain ⟨worker, hworker, h⟩ := bind_eq_ok.mp h
  obtain ⟨p, hp, h⟩ := bind_eq_ok.mp h
  obtain ⟨n, hn, h⟩ := bind_eq_ok.mp h
  cases h
  obtain ⟨_, _, _, _, _⟩ := a
  simp [← notNull_ok hu, ← notEmpty_ok hname, ← notEmpty_ok hworker, ← notNull_ok hp,
    ← nonNegative_ok hn]

/-- Checked parameters name the caller and the row. -/
theorem named_of_check {proc : String} {a : ItemArgs} {r : ItemRef} {st : Store} {key : Key}
    (hr : a.check proc = .ok r) (hkey : r.key proc st = .ok key) :
    named a st = some (r.workerId, key) := by
  obtain ⟨stream, hstream, rfl⟩ := ItemRef.key_ok hkey
  rw [ItemArgs.check_ok hr]
  simp [named, hstream]

theorem SubscriptionAllowed.of_find {st : Store} {row row' : SubscriptionRow} {stream : StreamRow}
    {u name : String} (hstream : st.streamByUuid u = some stream)
    (h : st.subscriptions.find? (stream.streamId, name) = some row) (hkey : row'.pkey = row.pkey)
    (hle : row.lastSeen ≤ row'.lastSeen) : SubscriptionAllowed st row' := by
  have hrow := Table.key_of_find? h
  refine ⟨⟨stream, Store.mem_of_streamByUuid hstream, ?_⟩, fun old hold => ?_⟩
  · exact (congrArg Prod.fst (hkey.trans hrow)).symm
  · rw [hkey, hrow, h] at hold
    cases hold
    exact hle

/-- **The changes of a call.** It leaves the event store alone. -/
theorem Call.run_change {c : Call} {st st' : Store} {events : List Event}
    (h : c.run st = .ok (st', events)) : Change st st' events ∧ st.SameEvents st' := by
  cases c with
  | claimSubscription now u name worker lease options =>
    obtain ⟨⟨r, s⟩, hr, heq⟩ := map_eq_ok.mp h
    cases heq
    obtain ⟨_, name, worker, secs, stream, -, -, -, hstream, hclaim⟩ := claimSubscription_ok hr
    cases hclaim with
    | alreadyClaimed _ => exact ⟨.same rfl rfl rfl, ⟨rfl, rfl, rfl⟩⟩
    | created hnone _ =>
      have hmem := Store.mem_of_streamByUuid hstream
      refine ⟨.subscription ⟨⟨stream, hmem, rfl⟩, fun old hold => ?_⟩, ⟨rfl, rfl, rfl⟩⟩
      exact nomatch hnone.symm.trans hold
    | taken hrow _ => exact ⟨.subscription (.of_find hstream hrow rfl le_rfl), ⟨rfl, rfl, rfl⟩⟩
  | releaseSubscription u name worker =>
    obtain ⟨s, hs, heq⟩ := map_eq_ok.mp h
    cases heq
    obtain ⟨_, _, _, _, row, -, -, -, hstream, hrow, -, rfl⟩ := releaseSubscription_ok hs
    exact ⟨.subscription (.of_find hstream hrow rfl le_rfl), ⟨rfl, rfl, rfl⟩⟩
  | routeBatch u name worker cursor decisions =>
    obtain ⟨⟨r, s⟩, hr, heq⟩ := map_eq_ok.mp h
    cases heq
    obtain ⟨_, name, _, cursor, ds, stream, row, items, -, -, -, -, -, hstream, hrow, -, hitems, -,
      rfl⟩ := routeBatch_ok hr
    have hkey := Table.key_of_find? hrow
    refine ⟨.routed (.of_find hstream hrow rfl (le_max_left ..)) (fun item hitem => ?_)
      fun item hitem => ?_, ⟨rfl, rfl, rfl⟩⟩
    all_goals
      obtain ⟨d, -, hd⟩ := mem_of_mapM_ok hitems hitem
      obtain ⟨p, n, rfl⟩ := decisionRow_ok hd
    · exact ⟨rfl, rfl⟩
    · exact hkey.symm
  | extend now a lease =>
    obtain ⟨⟨e, s⟩, hs, heq⟩ := map_eq_ok.mp h
    cases heq
    obtain ⟨r, key, row, hheld, hstate, hchecks, rfl⟩ := extendWorkItemClaim_ok hs
    obtain rfl := Table.key_of_find? hheld.find
    exact ⟨.extended hheld.find hstate hchecks, ⟨rfl, rfl, rfl⟩⟩
  | completeProjection a =>
    obtain ⟨s, hs, heq⟩ := map_eq_ok.mp h
    cases heq
    obtain ⟨r, key, row, hheld, rfl⟩ := completeWorkItemProjection_ok hs
    rw [named_of_check hheld.check hheld.key_eq]
    obtain rfl := Table.key_of_find? hheld.find
    exact ⟨.deleted hheld.find hheld.holder, ⟨rfl, rfl, rfl⟩⟩
  | completePm now a s =>
    obtain ⟨s, hs, heq⟩ := map_eq_ok.mp h
    cases heq
    obtain ⟨r, key, row, uuid, type, version, data, hheld, -, hchecks, rfl⟩ :=
      completeWorkItemPm_ok hs
    rw [named_of_check hheld.check hheld.key_eq]
    obtain rfl := Table.key_of_find? hheld.find
    exact ⟨.done hheld.find hheld.holder hchecks, ⟨rfl, rfl, rfl⟩⟩
  | fail now a text =>
    obtain ⟨s, hs, heq⟩ := map_eq_ok.mp h
    cases heq
    obtain ⟨r, key, row, row', hheld, hrow', hchecks, rfl⟩ := failWorkItem_ok hs
    rw [named_of_check hheld.check hheld.key_eq]
    obtain rfl := Table.key_of_find? hheld.find
    subst hrow'
    exact ⟨.failed hheld.find hheld.holder rfl rfl rfl hchecks, ⟨rfl, rfl, rfl⟩⟩
  | completePmInstance u name p uuid =>
    obtain ⟨⟨r, s⟩, hr, heq⟩ := map_eq_ok.mp h
    cases heq
    obtain ⟨_, _, _, _, _, -, -, -, -, -, hst⟩ := completePmInstance_ok hr
    exact ⟨.instanceDeleted hst, hst ▸ ⟨rfl, rfl, rfl⟩⟩

theorem exists_of_mem_insertedKeys {st : Store} {items : List WorkItemRow} {key : Key}
    (h : key ∈ insertedKeys st (st.insertItems items)) : ∃ item ∈ items, item.pkey = key := by
  obtain ⟨added, hadded, hsub⟩ := st.workItems.insertAllNew_rows items
  obtain ⟨row, hr, hkey⟩ := List.mem_map.mp h
  change row ∈ (st.workItems.insertAllNew items).rows.drop _ at hr
  rw [hadded, List.drop_left] at hr
  exact ⟨row, hsub.subset hr, hkey⟩

/-- **The frame of a call.** Only the claims, releases and batches of a subscription touch its row, and
    only its batches insert work items for it. -/
theorem Call.run_frame {c : Call} {st st' : Store} {events : List Event} {sub : ℕ × String}
    (h : c.run st = .ok (st', events)) (htarget : c.target st ≠ some sub) :
    st'.subscriptions.find? sub = st.subscriptions.find? sub ∧
      ∀ key, .inserted key ∈ events → key.1 ≠ sub := by
  have hput : ∀ {row : SubscriptionRow} {u name : String} {stream : StreamRow},
      st.streamByUuid u = some stream → row.pkey = (stream.streamId, name) →
        c.target st = (do
          let stream ← st.streamByUuid u
          return (stream.streamId, name)) → row.pkey ≠ sub := by
    intro row u name stream hstream hkey heq hsub
    rw [heq, hstream] at htarget
    exact htarget (congrArg some (hkey.symm.trans hsub))
  cases c with
  | claimSubscription now u name worker lease options =>
    obtain ⟨⟨r, s⟩, hr, heq⟩ := map_eq_ok.mp h
    cases heq
    obtain ⟨u, name, worker, secs, stream, rfl, rfl, -, hstream, hclaim⟩ := claimSubscription_ok hr
    refine ⟨?_, fun _ hm => nomatch hm⟩
    cases hclaim with
    | alreadyClaimed _ => rfl
    | created _ _ => exact (Table.find?_put ..).trans (if_neg (hput hstream rfl rfl))
    | taken hrow _ =>
      exact (Table.find?_put ..).trans (if_neg (hput hstream (Table.key_of_find? hrow) rfl))
  | releaseSubscription u name worker =>
    obtain ⟨s, hs, heq⟩ := map_eq_ok.mp h
    cases heq
    obtain ⟨u, name, _, _, row, rfl, rfl, -, hstream, hrow, -, rfl⟩ := releaseSubscription_ok hs
    refine ⟨?_, fun _ hm => nomatch hm⟩
    exact (Table.find?_put ..).trans (if_neg (hput hstream (Table.key_of_find? hrow) rfl))
  | routeBatch u name worker cursor decisions =>
    obtain ⟨⟨r, s⟩, hr, heq⟩ := map_eq_ok.mp h
    cases heq
    obtain ⟨u, name, _, cursor, ds, stream, row, items, rfl, rfl, -, -, -, hstream, hrow, -, hitems, -,
      rfl⟩ := routeBatch_ok hr
    have hne := hput hstream (Table.key_of_find? hrow) rfl
    refine ⟨(Table.find?_put ..).trans (if_neg hne), fun key hm hsub => ?_⟩
    obtain ⟨_, hkey, heq⟩ := List.mem_map.mp hm
    obtain rfl := Event.inserted.inj heq
    obtain ⟨item, hitem, rfl⟩ := exists_of_mem_insertedKeys hkey
    obtain ⟨d, -, hd⟩ := mem_of_mapM_ok hitems hitem
    obtain ⟨p, n, rfl⟩ := decisionRow_ok hd
    exact hne ((Table.key_of_find? hrow).trans hsub)
  | extend now a lease =>
    obtain ⟨⟨e, s⟩, hs, heq⟩ := map_eq_ok.mp h
    cases heq
    obtain ⟨_, _, _, -, -, -, rfl⟩ := extendWorkItemClaim_ok hs
    exact ⟨rfl, fun _ hm => nomatch hm⟩
  | completeProjection a =>
    obtain ⟨s, hs, heq⟩ := map_eq_ok.mp h
    cases heq
    obtain ⟨_, _, _, -, rfl⟩ := completeWorkItemProjection_ok hs
    exact ⟨rfl, fun _ hm => by simp at hm⟩
  | completePm now a s =>
    obtain ⟨_, hs, heq⟩ := map_eq_ok.mp h
    cases heq
    obtain ⟨_, _, _, _, _, _, _, -, -, -, rfl⟩ := completeWorkItemPm_ok hs
    exact ⟨rfl, fun _ hm => by simp at hm⟩
  | fail now a text =>
    obtain ⟨s, hs, heq⟩ := map_eq_ok.mp h
    cases heq
    obtain ⟨_, _, _, _, -, -, -, rfl⟩ := failWorkItem_ok hs
    exact ⟨rfl, fun _ hm => by simp at hm⟩
  | completePmInstance u name p uuid =>
    obtain ⟨⟨r, s⟩, hr, heq⟩ := map_eq_ok.mp h
    cases heq
    obtain ⟨_, _, _, _, _, -, -, -, -, -, rfl⟩ := completePmInstance_ok hr
    exact ⟨rfl, fun _ hm => by simp at hm⟩

/-- No call but `claim_work_item` hands out a row. -/
theorem Call.claimed_notMem {c : Call} {st st' : Store} {events : List Event}
    (h : c.run st = .ok (st', events)) (worker : String) (key : Key) :
    .claimed worker key ∉ events := by
  cases c <;> obtain ⟨r, -, heq⟩ := map_eq_ok.mp h <;> cases heq <;> simp

/-- `claim_work_item` hands out at most one row: it is not blocked in the snapshot. -/
theorem runClaim_change {now : Timestamp} {snapshot : Store} {locked : WorkItemRow → Bool}
    {u name worker : Option String} {lease : Option ℤ} {st st' : Store} {events : List Event}
    (h : runClaim now snapshot locked u name worker lease st = .ok (st', events)) :
    Change st st' events ∧ st.SameEvents st' ∧
      ∀ holder key, .claimed holder key ∈ events → worker = some holder ∧
        ∃ c ∈ snapshot.workItems.rows, c.pkey = key ∧ snapshot.blocked c = false := by
  obtain ⟨⟨item, s⟩, hs, h⟩ := bind_eq_ok.mp h
  cases h
  obtain ⟨u, name, worker, stream, rfl, rfl, rfl, hstream, hnone | ⟨it, row, rfl, hrow⟩⟩ :=
    claimWorkItem_ok hs
  · obtain ⟨rfl, rfl⟩ := hnone
    exact ⟨.same rfl rfl rfl, ⟨rfl, rfl, rfl⟩, fun _ _ hm => nomatch hm⟩
  · obtain ⟨c, hc, hkey⟩ := hrow.candidate
    obtain ⟨hc, hsub, -, hblocked⟩ := mem_candidates.mp hc
    obtain ⟨hp, hn, -⟩ := hrow.item_eq
    have hpkey : ((stream.streamId, name), it.partitionKey, it.eventNumber) = row.pkey := by
      have hrowsub : row.subscription = (stream.streamId, name) :=
        (congrArg Prod.fst hkey).symm.trans hsub
      rw [hp, hn, ← hrowsub]
      rfl
    have hevents : ((named ⟨some u, some name, some worker, some it.partitionKey,
        some it.eventNumber⟩ st).map fun k => Event.claimed k.1 k.2).toList =
          [.claimed worker row.pkey] := by
      simp [named, hstream, hpkey]
    simp only [Option.bind_some, hevents]
    refine ⟨hrow.store ▸ .claimed hrow.find hrow.claimable hrow.checks,
      hrow.store ▸ ⟨rfl, rfl, rfl⟩, fun holder key hm => ?_⟩
    obtain ⟨rfl, rfl⟩ := Event.claimed.inj (List.mem_singleton.mp hm)
    exact ⟨rfl, c, hc, hkey, hblocked⟩

/-- `claim_work_item` touches the work items only. -/
theorem runClaim_tables {now : Timestamp} {snapshot : Store} {locked : WorkItemRow → Bool}
    {u name worker : Option String} {lease : Option ℤ} {st st' : Store} {events : List Event}
    (h : runClaim now snapshot locked u name worker lease st = .ok (st', events)) :
    st'.subscriptions = st.subscriptions ∧ st'.snapshots = st.snapshots := by
  obtain ⟨⟨item, s⟩, hs, h⟩ := bind_eq_ok.mp h
  cases h
  obtain ⟨_, _, _, _, -, -, -, -, ⟨-, rfl⟩ | ⟨_, _, -, hrow⟩⟩ := claimWorkItem_ok hs
  · exact ⟨rfl, rfl⟩
  · rw [hrow.store]
    exact ⟨rfl, rfl⟩

theorem runClaim_frame {now : Timestamp} {snapshot : Store} {locked : WorkItemRow → Bool}
    {u name worker : Option String} {lease : Option ℤ} {st st' : Store} {events : List Event}
    (h : runClaim now snapshot locked u name worker lease st = .ok (st', events))
    (sub : ℕ × String) : st'.subscriptions.find? sub = st.subscriptions.find? sub ∧
      ∀ key, .inserted key ∈ events → key.1 ≠ sub := by
  refine ⟨congrArg (fun t => t.find? sub) (runClaim_tables h).1, fun key hm => ?_⟩
  obtain ⟨⟨item, s⟩, hs, h⟩ := bind_eq_ok.mp h
  cases h
  obtain ⟨_, -, heq⟩ := Option.map_eq_some_iff.mp (Option.mem_toList.mp hm)
  cases heq

/-! ## What a step does -/

section StepBy

variable {κ : Type} [DecidableEq κ]

/-- A step runs an append or a call, or it leaves the database as it is. -/
inductive StepRan (w : World κ) : Op κ → World κ → Prop
  | append {now : Timestamp} {a : AppendArgs} :
      StepRan w (.append now a) { w with db := (w.db.append now a).2 }
  | call {c : Call} {st : Store} {es : List Event} : c.run w.db.store = .ok (st, es) →
      StepRan w (.call c) { w with db := { w.db with store := st }, events := w.events ++ es }
  | claimItem {i : κ} {now : Timestamp} {locked : WorkItemRow → Bool} {u name worker : Option String}
      {lease : Option ℤ} {snapshot st : Store} {es : List Event} : w.snapshots i = some snapshot →
      runClaim now snapshot locked u name worker lease w.db.store = .ok (st, es) →
      StepRan w (.claimItem i now locked u name worker lease)
        ⟨{ w.db with store := st }, Function.update w.snapshots i none, w.events ++ es⟩
  /-- A claim is opened, or a transaction was rolled back. -/
  | idle {op : Op κ} {w' : World κ} : w'.db = w.db → w'.events = w.events → StepRan w op w'

theorem step_ran {w w' : World κ} {op : Op κ} (h : step w op = some w') : StepRan w op w' := by
  cases op with
  | append now a =>
    obtain rfl := Option.some.inj h
    exact .append
  | call c =>
    obtain rfl := Option.some.inj h
    cases hc : c.run w.db.store with
    | error e => exact .idle rfl rfl
    | ok r => exact .call hc
  | openClaim i =>
    simp only [step] at h
    split at h
    · obtain rfl := Option.some.inj h
      exact .idle rfl rfl
    · cases h
  | claimItem i now locked u name worker lease =>
    simp only [step] at h
    split at h
    · rename_i snapshot hi
      obtain rfl := Option.some.inj h
      cases hc : runClaim now snapshot locked u name worker lease w.db.store with
      | error e => exact .idle rfl rfl
      | ok r => exact .claimItem hi hc
    · cases h

/-- The steps: a transaction other than a claim, the opening of a claim, and a claim. -/
inductive StepBy (w : World κ) : World κ → Prop
  | change {db : Db} {events : List Event} : Change w.db.store db.store events →
      (∀ holder key, .claimed holder key ∉ events) →
      StepBy w { w with db := db, events := w.events ++ events }
  | opened {i : κ} : w.snapshots i = none →
      StepBy w { w with snapshots := Function.update w.snapshots i (some w.db.store) }
  | claim {i : κ} {snapshot : Store} {db : Db} {events : List Event} :
      w.snapshots i = some snapshot → Change w.db.store db.store events →
      (∀ holder key, .claimed holder key ∈ events →
        ∃ c ∈ snapshot.workItems.rows, c.pkey = key ∧ snapshot.blocked c = false) →
      StepBy w ⟨db, Function.update w.snapshots i none, w.events ++ events⟩

theorem step_cases {w w' : World κ} {op : Op κ} (h : step w op = some w') : StepBy w w' := by
  have hsame : Change w.db.store w.db.store [] := .same rfl rfl rfl
  cases op with
  | append now a =>
    obtain rfl := Option.some.inj h
    obtain ⟨hsub, hitems, hsnap⟩ := w.db.append_tables now a
    have hby : StepBy w { w with db := (w.db.append now a).2, events := w.events ++ [] } :=
      .change (.same hsub hitems hsnap) fun _ _ hm => nomatch hm
    rwa [List.append_nil] at hby
  | call c =>
    obtain rfl := Option.some.inj h
    cases hc : c.run w.db.store with
    | error e =>
      have hby : StepBy w { w with events := w.events ++ [] } :=
        .change hsame fun _ _ hm => nomatch hm
      rwa [List.append_nil] at hby
    | ok r => exact .change (Call.run_change hc).1 (Call.claimed_notMem hc)
  | openClaim i =>
    simp only [step] at h
    split at h
    · rename_i hi
      obtain rfl := Option.some.inj h
      exact .opened hi
    · cases h
  | claimItem i now locked u name worker lease =>
    simp only [step] at h
    split at h
    · rename_i snapshot hi
      obtain rfl := Option.some.inj h
      cases hc : runClaim now snapshot locked u name worker lease w.db.store with
      | error e =>
        have hby : StepBy w ⟨w.db, Function.update w.snapshots i none, w.events ++ []⟩ :=
          .claim hi hsame fun _ _ hm => nomatch hm
        rwa [List.append_nil] at hby
      | ok r =>
        obtain ⟨hchange, -, hclaimed⟩ := runClaim_change hc
        exact .claim hi hchange fun holder key hm => (hclaimed holder key hm).2
    · cases h

end StepBy

/-! ## A run -/

section Example

/-- `route_batch` of two events of one partition, by the worker `r`. -/
def sampleBatch : Call :=
  let decision (n : ℤ) : Json := .obj [("partition_key", .str "p"), ("event_number", .int n)]
  .routeBatch (some "$all") (some "orders") (some "r") (some 2) (some (.arr [decision 1, decision 2]))

def sampleItem (worker : String) (n : ℤ) : ItemArgs :=
  ⟨some "$all", some "orders", some worker, some "p", some n⟩

/-- Worker `b` takes event 1 over from `a` and completes it, while the third claim, which saw it
    claimed by `a`, is still open. -/
def sampleRun : List (Op ℕ) :=
  let claim (i : ℕ) (now : Timestamp) (worker : String) : Op ℕ :=
    .claimItem i now (fun _ => false) (some "$all") (some "orders") (some worker) (some 5)
  [.call (.claimSubscription 10 (some "$all") (some "orders") (some "r") (some 30) none),
   .call sampleBatch, .openClaim 0, claim 0 20 "a", .openClaim 1, .openClaim 2,
   claim 1 6000000 "b", .call (.completeProjection (sampleItem "a" 1)),
   .call (.completeProjection (sampleItem "b" 1)), claim 2 6000001 "c", .openClaim 3,
   claim 3 6000002 "a", .call (.completeProjection (sampleItem "a" 2))]

end Example

end Instructed.Queue
