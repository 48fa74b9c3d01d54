import Instructed.Queue.Lifecycle
import Instructed.Queue.Restrict

/-!
# A subscription among others

The subscriptions of a database share its tables, and their workers, who may even share a worker id,
call the same procedures.

* `Reply`, `World.reply`: what a caller is told;
* `Scope`, `Scope.mine`: a subscription, as its workers name it, with the snapshots that are its own;
* `Scope.alone`: the operations, with every transaction of another subscription rolled back;
* `exec_part`: **a call of the subscription's workers does to the part of a store that is theirs what it
  does to the store, and returns the same**;
* `run_other`: **a call of another subscription leaves the part alone.**
-/

namespace Instructed.Queue

open Sql Relational Transition

/-! ## Replies -/

/-- The result of a procedure, or of the statement that calls it. -/
inductive Reply where
  | done
  | subscription (r : ClaimResult)
  | routed (inserted lastSeen : ℕ)
  | extended (leaseExpiresAt : Timestamp)
  | ended (workItemsDeleted : ℕ) (snapshotDeleted : Bool)
  | item (it : Option ClaimedItem)
  deriving DecidableEq

/-- The procedure that is called. -/
def Call.exec (st : Store) : Call → Except SqlError (Reply × Store)
  | .claimSubscription now u name worker lease options =>
    (Instructed.claimSubscription now u name worker lease options st).map
      (Prod.map Reply.subscription id)
  | .releaseSubscription u name worker =>
    (Instructed.releaseSubscription u name worker st).map (Prod.mk Reply.done)
  | .routeBatch u name worker cursor decisions =>
    (Instructed.routeBatch u name worker cursor decisions st).map
      (Prod.map (fun r => Reply.routed r.1 r.2) id)
  | .extend now a lease => (extendWorkItemClaim now a lease st).map (Prod.map Reply.extended id)
  | .completeProjection a => (completeWorkItemProjection a st).map (Prod.mk Reply.done)
  | .completePm now a s => (completeWorkItemPm now a s st).map (Prod.mk Reply.done)
  | .fail now a text => (failWorkItem now a text st).map (Prod.mk Reply.done)
  | .completePmInstance u name p uuid =>
    (Instructed.completePmInstance u name p uuid st).map
      (Prod.map (fun r => Reply.ended r.1 r.2) id)

section Worlds

variable {κ : Type} [DecidableEq κ]

/-- What the operation tells its caller. -/
def World.reply (w : World κ) : Act κ → Option (Except SqlError Reply)
  | .op (.append _ _) | .op (.openClaim _) => none
  | .op (.call c) => some ((c.exec w.db.store).map Prod.fst)
  | .op (.claimItem i now locked u name worker lease) =>
    (w.snapshots i).map fun snapshot =>
      (claimWorkItem now snapshot locked u name worker lease w.db.store).map fun r => .item r.1
  | .deleteSubscription u name =>
    some ((Instructed.deleteSubscription u name w.db.store).map fun _ => .done)

end Worlds

/-! ## A subscription among others -/

/-- The stream and the subscription that a call names. -/
def Call.subject : Call → Option String × Option String
  | .claimSubscription _ u name _ _ _ | .releaseSubscription u name _ | .routeBatch u name _ _ _
  | .completePmInstance u name _ _ => (u, name)
  | .extend _ a _ | .completeProjection a | .completePm _ a _ | .fail _ a _ =>
    (a.streamUuid, a.subscriptionName)

/-- The snapshot that a call writes or deletes. -/
def Call.snapshotUuid : Call → Option String
  | .completePm _ _ s => s.uuid
  | .completePmInstance _ _ _ uuid => uuid
  | _ => none

/-- The stream and the subscription that an operation names, if it names any. -/
def Act.subject {κ : Type} : Act κ → Option (Option String × Option String)
  | .op (.append _ _) | .op (.openClaim _) => none
  | .op (.call c) => some c.subject
  | .op (.claimItem _ _ _ u name _ _) | .deleteSubscription u name => some (u, name)

def Act.snapshotUuid {κ : Type} : Act κ → Option String
  | .op (.call c) => c.snapshotUuid
  | _ => none

/-- The claim that the operation ends. -/
def Act.claim {κ : Type} : Act κ → Option κ
  | .op (.claimItem i _ _ _ _ _ _) => some i
  | _ => none

/-- The same operation, in a transaction that is rolled back: its parameters are null. -/
def Act.rolledBack {κ : Type} : Act κ → Act κ
  | .op (.call _) => .op (.call (.releaseSubscription none none none))
  | .op (.claimItem i now locked _ _ _ _) => .op (.claimItem i now locked none none none none)
  | .deleteSubscription _ _ => .deleteSubscription none none
  | .op (.append now a) => .op (.append now a)
  | .op (.openClaim i) => .op (.openClaim i)

/-- A subscription, as its workers name it, with the snapshots that are its own. -/
structure Scope where
  streamUuid : String
  name : String
  owns : String → Bool

variable {κ : Type} (T : Scope)

/-- The operation is one of the subscription's workers. -/
def Scope.mine (a : Act κ) : Bool := decide (a.subject = some (some T.streamUuid, some T.name))

/-- Only the subscription's workers write the snapshots that are its own, and they write no other. -/
def Scope.Tidy (a : Act κ) : Prop := ∀ uuid ∈ a.snapshotUuid, T.owns uuid = T.mine a

instance (a : Act κ) : Decidable (T.Tidy a) :=
  inferInstanceAs (Decidable (∀ uuid ∈ a.snapshotUuid, T.owns uuid = T.mine a))

/-- The operation, rolled back if it is another subscription's. -/
def Scope.alone (a : Act κ) : Act κ := if a.subject = none ∨ T.mine a then a else a.rolledBack

/-- The key of the subscription. -/
def Scope.key (st : Store) : Option (ℕ × String) := subscriptionKey st T.streamUuid T.name

/-- What a store holds of the subscription whose key is `sub`. -/
def Scope.part (sub : Option (ℕ × String)) (st : Store) : Store := st.restrict sub T.owns

/-! ## The procedures of the subscription, and those of the others -/

section Calls

variable {T : Scope} {st st' : Store} {sub : Option (ℕ × String)} {c : Call} {es : List Event}

/-- `run` is `exec` with a history in place of the reply. -/
theorem run_store (c : Call) (st : Store) :
    (c.run st).map Prod.fst = (c.exec st).map Prod.snd := by
  cases c with
  | claimSubscription now u name worker lease options =>
    simp only [Call.run, Call.exec]
    cases Instructed.claimSubscription now u name worker lease options st <;> rfl
  | releaseSubscription u name worker =>
    simp only [Call.run, Call.exec]
    cases Instructed.releaseSubscription u name worker st <;> rfl
  | routeBatch u name worker cursor decisions =>
    simp only [Call.run, Call.exec]
    cases Instructed.routeBatch u name worker cursor decisions st <;> rfl
  | extend now a lease =>
    simp only [Call.run, Call.exec]
    cases extendWorkItemClaim now a lease st <;> rfl
  | completeProjection a =>
    simp only [Call.run, Call.exec]
    cases completeWorkItemProjection a st <;> rfl
  | completePm now a s =>
    simp only [Call.run, Call.exec]
    cases completeWorkItemPm now a s st <;> rfl
  | fail now a text =>
    simp only [Call.run, Call.exec]
    cases failWorkItem now a text st <;> rfl
  | completePmInstance u name p uuid =>
    simp only [Call.run, Call.exec]
    cases Instructed.completePmInstance u name p uuid st <;> rfl

/-- **A call of the subscription's workers cannot tell the store from the part that is theirs.** -/
theorem exec_part (hmine : c.subject = (some T.streamUuid, some T.name))
    (howns : ∀ uuid ∈ c.snapshotUuid, T.owns uuid = true)
    (hsub : ∀ stream, st.streamByUuid T.streamUuid = some stream →
      sub = some (stream.streamId, T.name)) :
    c.exec (T.part sub st) = (c.exec st).map (Prod.map id (T.part sub)) := by
  have hpair : ∀ {α : Type} {x : Except SqlError (α × Store)} {f : α → Reply},
      (x.map (Prod.map id fun s => s.restrict sub T.owns)).map (Prod.map f id) =
        (x.map (Prod.map f id)).map (Prod.map id (T.part sub)) := by
    intro α x f
    cases x <;> rfl
  have hstore : ∀ {x : Except SqlError Store} {r : Reply},
      (x.map fun s => s.restrict sub T.owns).map (Prod.mk r) =
        (x.map (Prod.mk r)).map (Prod.map id (T.part sub)) := by
    intro x r
    cases x <;> rfl
  cases c with
  | claimSubscription now u name worker lease options =>
    obtain ⟨rfl, rfl⟩ := Prod.mk.inj hmine
    simp only [Call.exec, Scope.part, claimSubscription_restrict hsub]
    exact hpair
  | releaseSubscription u name worker =>
    obtain ⟨rfl, rfl⟩ := Prod.mk.inj hmine
    simp only [Call.exec, Scope.part, releaseSubscription_restrict hsub]
    exact hstore
  | routeBatch u name worker cursor decisions =>
    obtain ⟨rfl, rfl⟩ := Prod.mk.inj hmine
    simp only [Call.exec, Scope.part, routeBatch_restrict hsub]
    exact hpair
  | extend now a lease =>
    simp only [Call.exec, Scope.part, extendWorkItemClaim_restrict hsub (Prod.mk.inj hmine)]
    exact hpair
  | completeProjection a =>
    simp only [Call.exec, Scope.part, completeWorkItemProjection_restrict hsub (Prod.mk.inj hmine)]
    exact hstore
  | completePm now a s =>
    simp only [Call.exec, Scope.part,
      completeWorkItemPm_restrict hsub (Prod.mk.inj hmine) now howns]
    exact hstore
  | fail now a text =>
    simp only [Call.exec, Scope.part, failWorkItem_restrict hsub (Prod.mk.inj hmine)]
    exact hstore
  | completePmInstance u name p uuid =>
    obtain ⟨rfl, rfl⟩ := Prod.mk.inj hmine
    have howns' : ∀ x, uuid = some x → T.owns x = true := howns
    simp only [Call.exec, Scope.part, completePmInstance_restrict hsub p howns']
    exact hpair

theorem part_putSubscription (row : SubscriptionRow) (h : sub ≠ some row.pkey) :
    T.part sub (st.putSubscription row) = T.part sub st := by
  have hput : (st.subscriptions.put row).restrict (fun k => decide (some k = sub)) =
      st.subscriptions.restrict fun k => decide (some k = sub) :=
    Table.put_restrict_of_not (decide_eq_false fun heq => h heq.symm)
  simp only [Scope.part, Store.restrict, Store.putSubscription, hput]

theorem part_putItem (row : WorkItemRow) (h : sub ≠ some row.pkey.1) :
    T.part sub { st with workItems := st.workItems.put row } = T.part sub st := by
  have hput : (st.workItems.put row).restrict (fun k => decide (some k.1 = sub)) =
      st.workItems.restrict fun k => decide (some k.1 = sub) :=
    Table.put_restrict_of_not (decide_eq_false fun heq => h heq.symm)
  simp only [Scope.part, Store.restrict, hput]

theorem restrict_deleteItems {key : ℕ × String} {p : WorkItemRow → Bool}
    (hp : ∀ w, p w = true → w.pkey.1 = key) (h : sub ≠ some key) :
    (st.workItems.deleteWhere p).restrict (fun k => decide (some k.1 = sub)) =
      st.workItems.restrict fun k => decide (some k.1 = sub) :=
  Table.deleteWhere_restrict_of_not fun w hw => decide_eq_false fun heq => h <| by
    rw [← heq, hp w hw]

/-- **A call of another subscription leaves the part alone.** -/
theorem run_other (h : c.run st = .ok (st', es)) (howns : ∀ uuid ∈ c.snapshotUuid, T.owns uuid = false)
    (hother : ∀ u name stream, c.subject = (some u, some name) → st.streamByUuid u = some stream →
      sub ≠ some (stream.streamId, name)) : T.part sub st' = T.part sub st := by
  have hheld : ∀ {proc : String} {a : ItemArgs} {r : ItemRef} {key : Key} {row : WorkItemRow},
      Held proc a st r key row → c.subject = (a.streamUuid, a.subscriptionName) →
        sub ≠ some row.pkey.1 ∧ row.pkey = key := by
    intro proc a r key row hheld hsubject
    have ha := ItemArgs.check_ok hheld.check
    obtain ⟨stream, hstream, hk⟩ := ItemRef.key_ok hheld.key_eq
    have hkey := Table.key_of_find? hheld.find
    refine ⟨?_, hkey⟩
    rw [hkey, hk]
    refine hother _ _ stream ?_ hstream
    rw [hsubject, ha]
  cases c with
  | claimSubscription now u name worker lease options =>
    obtain ⟨⟨r, s⟩, hr, heq⟩ := map_eq_ok.mp h
    cases heq
    obtain ⟨u, name, worker, secs, stream, rfl, rfl, rfl, hstream, hclaim⟩ := claimSubscription_ok hr
    have hne := hother u name stream rfl hstream
    cases hclaim with
    | alreadyClaimed _ => rfl
    | created _ _ => exact part_putSubscription _ hne
    | taken hrow _ =>
      have hkey := Table.key_of_find? hrow
      rw [← hkey] at hne
      exact part_putSubscription _ hne
  | releaseSubscription u name worker =>
    obtain ⟨s, hs, heq⟩ := map_eq_ok.mp h
    cases heq
    obtain ⟨u, name, worker, stream, row, rfl, rfl, rfl, hstream, hrow, -, rfl⟩ :=
      releaseSubscription_ok hs
    have hne := hother u name stream rfl hstream
    rw [← Table.key_of_find? hrow] at hne
    exact part_putSubscription _ hne
  | routeBatch u name worker cursor decisions =>
    obtain ⟨⟨r, s⟩, hr, heq⟩ := map_eq_ok.mp h
    cases heq
    obtain ⟨u, name, worker, cursor, ds, stream, row, items, rfl, rfl, rfl, rfl, -, hstream, hrow, -,
      hitems, -, rfl⟩ := routeBatch_ok hr
    have hne := hother u name stream rfl hstream
    have hout : ∀ item ∈ items, decide (some item.pkey.1 = sub) = false := by
      intro item hmem
      obtain ⟨d, -, hd⟩ := mem_of_mapM_ok hitems hmem
      obtain ⟨p, n, rfl⟩ := decisionRow_ok hd
      exact decide_eq_false fun heq => hne heq.symm
    rw [← Table.key_of_find? hrow] at hne
    refine (part_putSubscription { row with lastSeen := max row.lastSeen cursor } hne).trans ?_
    have hinsert : (st.workItems.insertAllNew items).restrict (fun k => decide (some k.1 = sub)) =
        st.workItems.restrict fun k => decide (some k.1 = sub) :=
      Table.insertAllNew_restrict_of_not hout
    simp only [Scope.part, Store.restrict, Store.insertItems, hinsert]
  | extend now a lease =>
    obtain ⟨⟨e, s⟩, hs, heq⟩ := map_eq_ok.mp h
    cases heq
    obtain ⟨r, key, row, hrow, -, -, rfl⟩ := extendWorkItemClaim_ok hs
    exact part_putItem _ (hheld hrow rfl).1
  | completeProjection a =>
    obtain ⟨s, hs, heq⟩ := map_eq_ok.mp h
    cases heq
    obtain ⟨r, key, row, hrow, rfl⟩ := completeWorkItemProjection_ok hs
    obtain ⟨hne, hkey⟩ := hheld hrow rfl
    have hdelete : (st.workItems.deleteWhere fun w => w.pkey = key).restrict
        (fun k => decide (some k.1 = sub)) =
          st.workItems.restrict fun k => decide (some k.1 = sub) :=
      restrict_deleteItems (fun w hw => congrArg Prod.fst (of_decide_eq_true hw)) (hkey ▸ hne)
    simp only [Scope.part, Store.restrict, hdelete]
  | completePm now a s =>
    obtain ⟨s', hs, heq⟩ := map_eq_ok.mp h
    cases heq
    obtain ⟨r, key, row, uuid, type, version, data, hrow, huuid, -, rfl⟩ := completeWorkItemPm_ok hs
    have hput := Table.put_restrict_of_not (t := st.snapshots) (p := T.owns)
      (r := ⟨uuid, type, version, data, s.metadata, now⟩) (howns uuid huuid)
    refine Eq.trans ?_ (part_putItem { row with
      state := .done, claimedBy := none, leaseExpiresAt := none } (hheld hrow rfl).1)
    simp only [Scope.part, Store.restrict, upsertSnapshot]
    rw [hput]
  | fail now a text =>
    obtain ⟨s, hs, heq⟩ := map_eq_ok.mp h
    cases heq
    obtain ⟨r, key, row, row', hrow, rfl, -, rfl⟩ := failWorkItem_ok hs
    exact part_putItem _ (hheld hrow rfl).1
  | completePmInstance u name p uuid =>
    obtain ⟨⟨r, s⟩, hr, heq⟩ := map_eq_ok.mp h
    cases heq
    obtain ⟨u, name, p, uuid, stream, rfl, rfl, rfl, rfl, hstream, hst⟩ := completePmInstance_ok hr
    have hne := hother u name stream rfl hstream
    have hitems : (st.workItems.deleteWhere fun w => decide
        (w.subscription = (stream.streamId, name) ∧ w.partitionKey = p)).restrict
          (fun k => decide (some k.1 = sub)) = st.workItems.restrict fun k => decide (some k.1 = sub) :=
      restrict_deleteItems (fun _ hw => (of_decide_eq_true hw).1) hne
    have hsnapshots : (st.snapshots.deleteWhere fun s => decide (s.sourceUuid = uuid)).restrict T.owns =
        st.snapshots.restrict T.owns := by
      refine Table.deleteWhere_restrict_of_not fun s hs => ?_
      rw [of_decide_eq_true hs]
      exact howns uuid rfl
    subst hst
    simp only [Scope.part, Store.restrict, hitems, hsnapshots]

theorem runClaim_other {now : Timestamp} {snapshot : Store} {locked : WorkItemRow → Bool}
    {u name worker : Option String} {lease : Option ℤ}
    (h : runClaim now snapshot locked u name worker lease st = .ok (st', es))
    (hother : ∀ u' name' stream, (u, name) = (some u', some name') →
      st.streamByUuid u' = some stream → sub ≠ some (stream.streamId, name')) :
    T.part sub st' = T.part sub st := by
  obtain ⟨⟨item, s⟩, hs, h⟩ := bind_eq_ok.mp h
  cases h
  obtain ⟨u, name, worker, stream, rfl, rfl, rfl, hstream, ⟨-, rfl⟩ | ⟨it, row, -, hrow⟩⟩ :=
    claimWorkItem_ok hs
  · rfl
  · obtain ⟨c, hc, hkey⟩ := hrow.candidate
    have hsub : row.pkey.1 = (stream.streamId, name) := hkey ▸ (mem_candidates.mp hc).2.1
    rw [hrow.store]
    refine part_putItem { row with
      state := .claimed, claimedBy := some worker,
      leaseExpiresAt := some it.leaseExpiresAt } ?_
    show sub ≠ some row.pkey.1
    rw [hsub]
    exact hother u name stream rfl hstream

theorem deleteSubscription_other {u name : Option String}
    (h : deleteSubscription u name st = .ok st')
    (hother : ∀ u' name' stream, (u, name) = (some u', some name') →
      st.streamByUuid u' = some stream → sub ≠ some (stream.streamId, name')) :
    T.part sub st' = T.part sub st := by
  obtain ⟨u, name, stream, row, rfl, rfl, hstream, -, rfl⟩ := deleteSubscription_ok h
  have hne := hother u name stream rfl hstream
  have hitems : (st.workItems.deleteWhere fun w => decide
      (w.subscription = (stream.streamId, name))).restrict (fun k => decide (some k.1 = sub)) =
        st.workItems.restrict fun k => decide (some k.1 = sub) :=
    restrict_deleteItems (fun w hw => of_decide_eq_true hw) hne
  have hsubscriptions : (st.subscriptions.deleteWhere fun s => decide
      (s.pkey = (stream.streamId, name))).restrict (fun k => decide (some k = sub)) =
        st.subscriptions.restrict fun k => decide (some k = sub) :=
    Table.deleteWhere_restrict_of_not fun s hs => decide_eq_false fun heq => hne <| by
      rw [← heq, of_decide_eq_true hs]
  simp only [Scope.part, Store.restrict, hitems, hsubscriptions]

end Calls

end Instructed.Queue
