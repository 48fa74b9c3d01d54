import Instructed.Queue.Fencing
import Instructed.Store.Refine

/-!
# What the queue leaves alone

A step of the work queue only appends to the event log, keeps the streams under their ids, and touches
a subscription only when it claims, releases or routes for it.

* `Grounded`: the event store is consistent, the rows match their history, and every subscription is
  on a stream that exists;
* `Store.subscription?`: the row of a subscription that is named by its stream;
* `Grounded.subscription_frame`: the row of a subscription, across the steps that are not its own.
-/

namespace Instructed.Queue

open Sql Relational Transition

section Frame

variable {κ : Type} [DecidableEq κ] {w w' : World κ} {op : Op κ}

/-- A step is an append, or leaves the event store alone. -/
theorem step_db (h : step w op = some w') :
    (∃ now a, op = .append now a ∧ w' = { w with db := (w.db.append now a).2 }) ∨
      (w'.db.streamIdSeq = w.db.streamIdSeq ∧ w.db.store.SameEvents w'.db.store) := by
  cases step_ran h with
  | @append now a => exact Or.inl ⟨now, a, rfl, rfl⟩
  | call hc => exact Or.inr ⟨rfl, (Call.run_change hc).2⟩
  | claimItem _ hc => exact Or.inr ⟨rfl, (runClaim_change hc).2.1⟩
  | idle hdb _ =>
    rw [hdb]
    exact Or.inr ⟨rfl, rfl, rfl, rfl⟩

theorem step_consistent (hc : w.db.Consistent) (h : step w op = some w') : w'.db.Consistent := by
  rcases step_db h with ⟨now, a, -, rfl⟩ | ⟨hseq, hsame⟩
  · exact hc.append now a
  · exact ⟨hsame.consistent hc.store, hseq ▸ hc.seq_pos, hseq ▸ hsame.streams ▸ hc.seq⟩

/-- The event log only grows. -/
theorem step_log (hc : w.db.Consistent) (h : step w op = some w') :
    w.db.store.log <+: w'.db.store.log := by
  rcases step_db h with ⟨now, a, -, rfl⟩ | ⟨-, hsame⟩
  · rcases hc.append_cases now a with ⟨new, -, -, hlog⟩ | ⟨_, -, hlog⟩
    · exact hlog ▸ List.prefix_append ..
    · exact hlog ▸ List.prefix_refl _
  · exact hsame.log ▸ List.prefix_refl _

/-- A stream keeps its id. -/
theorem step_streams (hc : w.db.Consistent) (h : step w op = some w') :
    (∀ r ∈ w.db.store.streams.rows, ∃ r' ∈ w'.db.store.streams.rows,
      r'.streamId = r.streamId ∧ r'.streamUuid = r.streamUuid) ∧
    ∀ r' ∈ w'.db.store.streams.rows, w.db.store.streams.find? r'.streamId = none ∨
      ∃ r ∈ w.db.store.streams.rows, r.streamId = r'.streamId ∧ r.streamUuid = r'.streamUuid := by
  rcases step_db h with ⟨now, a, -, rfl⟩ | ⟨-, hsame⟩
  · exact hc.append_streams now a
  · rw [hsame.streams]
    exact ⟨fun r hr => ⟨r, hr, rfl, rfl⟩, fun r hr => Or.inr ⟨r, hr, rfl, rfl⟩⟩

/-- The history grows, and a row is new or comes from a row that was there. -/
theorem step_origin (h : step w op = some w') : ∃ es, w'.events = w.events ++ es ∧
    ∀ row' ∈ w'.db.store.workItems.rows,
      (w.db.store.workItems.find? row'.pkey = none ∧ .inserted row'.pkey ∈ es) ∨
        ∃ row ∈ w.db.store.workItems.rows, RowStep es row row' := by
  have horigin : ∀ {db : Db} {es : List Event}, Change w.db.store db.store es →
      ∀ row' ∈ db.store.workItems.rows,
        (w.db.store.workItems.find? row'.pkey = none ∧ .inserted row'.pkey ∈ es) ∨
          ∃ row ∈ w.db.store.workItems.rows, RowStep es row row' := fun hc row' hr =>
    (hc.origin hr).imp_left fun h => ⟨h.1, h.2.1⟩
  cases step_cases h with
  | @change db es hc _ => exact ⟨es, rfl, horigin hc⟩
  | opened _ => exact ⟨[], (List.append_nil _).symm, fun row' hr => Or.inr ⟨row', hr, .same⟩⟩
  | @claim _ _ db es _ hc _ => exact ⟨es, rfl, horigin hc⟩

/-! ## Grounded worlds -/

/-- The event store is consistent, the rows match their history, and subscriptions are on streams. -/
structure Grounded (w : World κ) : Prop where
  consistent : w.db.Consistent
  history : HistoryInv w
  streams : ∀ row ∈ w.db.store.subscriptions.rows,
    ∃ stream ∈ w.db.store.streams.rows, stream.streamId = row.streamId

theorem Change.subscription_stream {st st' : Store} {es : List Event} (h : Change st st' es)
    {row : SubscriptionRow} (hr : row ∈ st'.subscriptions.rows) : row ∈ st.subscriptions.rows ∨
      ∃ stream ∈ st.streams.rows, stream.streamId = row.streamId := by
  have hput : ∀ {x : SubscriptionRow}, SubscriptionAllowed st x →
      row ∈ (st.subscriptions.put x).rows → row ∈ st.subscriptions.rows ∨
        ∃ stream ∈ st.streams.rows, stream.streamId = row.streamId := by
    intro x hallowed hr
    rcases Table.mem_put.mp hr with rfl | ⟨hr, -⟩
    · exact Or.inr hallowed.stream
    · exact Or.inl hr
  cases h with
  | same hsub _ _ => exact Or.inl (hsub ▸ hr)
  | subscription hallowed => exact hput hallowed hr
  | routed hallowed _ _ => exact hput hallowed hr
  | instanceDeleted hst =>
    subst hst
    exact Or.inl hr
  | _ => exact Or.inl hr

theorem Grounded.step (h : Grounded w) (hstep : Queue.step w op = some w') : Grounded w' := by
  refine ⟨step_consistent h.consistent hstep, h.history.step hstep, fun row hr => ?_⟩
  have hold : row ∈ w.db.store.subscriptions.rows ∨
      ∃ stream ∈ w.db.store.streams.rows, stream.streamId = row.streamId := by
    cases step_cases hstep with
    | change hc _ => exact hc.subscription_stream hr
    | opened _ => exact Or.inl hr
    | claim _ hc _ => exact hc.subscription_stream hr
  obtain ⟨stream, hs, hid⟩ := hold.elim (h.streams row) id
  obtain ⟨stream', hs', hid', -⟩ := (step_streams h.consistent hstep).1 stream hs
  exact ⟨stream', hs', hid'.trans hid⟩

theorem Grounded.install : Grounded (World.install : World κ) :=
  ⟨Db.install_consistent, .of_reachable (.init rfl), fun _ hr => nomatch hr⟩

/-! ## One subscription -/

/-- The key of the subscription `name` on the stream `u`. -/
def subscriptionKey (st : Store) (u name : String) : Option (ℕ × String) :=
  (st.streamByUuid u).map fun stream => (stream.streamId, name)

/-- The row of the subscription `name` on the stream `u`. -/
def subscription (st : Store) (u name : String) : Option SubscriptionRow :=
  (subscriptionKey st u name).bind st.subscriptions.find?

variable {u name : String}

theorem subscriptionKey_of_subscription {st : Store} {row : SubscriptionRow}
    (h : subscription st u name = some row) : subscriptionKey st u name = some row.pkey := by
  obtain ⟨key, hkey, hrow⟩ := Option.bind_eq_some_iff.mp h
  rw [hkey, Table.key_of_find? hrow]

theorem find?_of_subscription {st : Store} {row : SubscriptionRow}
    (h : subscription st u name = some row) : st.subscriptions.find? row.pkey = some row := by
  obtain ⟨key, hkey, hrow⟩ := Option.bind_eq_some_iff.mp h
  rwa [Table.key_of_find? hrow]

theorem subscription_of_find {st : Store} {stream : StreamRow} (h : st.streamByUuid u = some stream) :
    subscription st u name = st.subscriptions.find? (stream.streamId, name) := by
  rw [subscription, subscriptionKey, h]
  rfl

/-- A subscription keeps its key. A key that is new belongs to no subscription. -/
theorem Grounded.subscriptionKey_step (h : Grounded w) (hstep : Queue.step w op = some w')
    (u name : String) :
    (∀ key, subscriptionKey w.db.store u name = some key →
      subscriptionKey w'.db.store u name = some key) ∧
    ∀ key, subscriptionKey w'.db.store u name = some key → subscriptionKey w.db.store u name = none →
      w.db.store.subscriptions.find? key = none := by
  have hc' := step_consistent h.consistent hstep
  obtain ⟨hkept, hnew⟩ := step_streams h.consistent hstep
  constructor
  · intro key hkey
    obtain ⟨stream, hstream, rfl⟩ := Option.map_eq_some_iff.mp hkey
    obtain ⟨stream', hmem', hid, huuid⟩ := hkept stream (Store.mem_of_streamByUuid hstream)
    have hfind := hc'.store.streamByUuid_of_mem hmem'
    rw [huuid, Store.uuid_of_streamByUuid hstream] at hfind
    rw [subscriptionKey, hfind, Option.map_some, hid]
  · intro key hkey hnone
    obtain ⟨stream', hstream', rfl⟩ := Option.map_eq_some_iff.mp hkey
    have hnone' := Option.map_eq_none_iff.mp hnone
    have hunused : w.db.store.streams.find? stream'.streamId = none := by
      rcases hnew stream' (Store.mem_of_streamByUuid hstream') with hunused | ⟨r, hr, -, hu⟩
      · exact hunused
      · rw [Store.uuid_of_streamByUuid hstream'] at hu
        exact absurd hu (Store.streamByUuid_eq_none_iff.mp hnone' r hr)
    rw [Table.find?_eq_none_iff]
    intro row hrow heq
    obtain ⟨stream, hs, hid⟩ := h.streams row hrow
    exact Table.find?_eq_none_iff.mp hunused stream hs (hid.trans (congrArg Prod.fst heq))

/-- The frame of a step that is not the subscription's own. -/
structure SubscriptionFrame (w w' : World κ) (key : ℕ × String) : Prop where
  row : w'.db.store.subscriptions.find? key = w.db.store.subscriptions.find? key
  items : ∀ item ∈ w'.db.store.workItems.rows, item.subscription = key →
    ∃ old ∈ w.db.store.workItems.rows, old.pkey = item.pkey
  events : ∃ es, w'.events = w.events ++ es ∧ ∀ k, .inserted k ∈ es → k.1 ≠ key

theorem Change.old_item {st st' : Store} {es : List Event} {key : ℕ × String}
    (h : Change st st' es) (hes : ∀ k, .inserted k ∈ es → k.1 ≠ key) {item : WorkItemRow}
    (hr : item ∈ st'.workItems.rows) (hkey : item.subscription = key) :
    ∃ old ∈ st.workItems.rows, old.pkey = item.pkey := by
  rcases h.origin hr with ⟨-, hmem, -⟩ | ⟨old, hold, hstep⟩
  · exact absurd hkey (hes _ hmem)
  · exact ⟨old, hold, hstep.pkey_eq.symm⟩

theorem step_frame (h : Queue.step w op = some w') {key : ℕ × String}
    (htarget : op.target w.db.store ≠ some key) : SubscriptionFrame w w' key := by
  have hsame : ∀ {v : World κ}, v.db.store.subscriptions = w.db.store.subscriptions →
      v.db.store.workItems = w.db.store.workItems → v.events = w.events →
        SubscriptionFrame w v key := by
    intro v hsub hitems hevents
    refine ⟨congrArg (fun t => t.find? key) hsub, fun item hr _ => ⟨item, hitems ▸ hr, rfl⟩, [], ?_,
      fun _ hm => nomatch hm⟩
    rw [hevents, List.append_nil]
  cases step_ran h with
  | @append now a =>
    obtain ⟨hsub, hitems, -⟩ := w.db.append_tables now a
    exact hsame hsub hitems rfl
  | call hc =>
    obtain ⟨hrow, hes⟩ := Call.run_frame hc htarget
    exact ⟨hrow, fun item hr hk => (Call.run_change hc).1.old_item hes hr hk, _, rfl, hes⟩
  | claimItem _ hc =>
    obtain ⟨hrow, hes⟩ := runClaim_frame hc key
    exact ⟨hrow, fun item hr hk => (runClaim_change hc).1.old_item hes hr hk, _, rfl, hes⟩
  | idle hdb hevents => exact hsame (hdb ▸ rfl) (hdb ▸ rfl) hevents

/-- **The row of a subscription, across a step that is not its own.** -/
theorem Grounded.subscription_frame (h : Grounded w) (hstep : Queue.step w op = some w')
    (htarget : ∀ key, subscriptionKey w.db.store u name = some key →
      op.target w.db.store ≠ some key) :
    subscription w'.db.store u name = subscription w.db.store u name := by
  obtain ⟨hkept, hnew⟩ := h.subscriptionKey_step hstep u name
  cases hkey : subscriptionKey w.db.store u name with
  | some key =>
    rw [subscription, subscription, hkey, hkept key hkey]
    exact (step_frame hstep (htarget key hkey)).row
  | none =>
    have hnone : subscription w.db.store u name = none := by rw [subscription, hkey]; rfl
    rw [hnone]
    cases hkey' : subscriptionKey w'.db.store u name with
    | none => rw [subscription, hkey']; rfl
    | some key =>
      rw [subscription, hkey', ← hnew key hkey' hkey]
      rcases step_db hstep with ⟨now, a, -, rfl⟩ | ⟨-, hsame⟩
      · exact congrArg (fun t => t.find? key) (w.db.append_tables now a).1
      · rw [subscriptionKey, Store.streamByUuid, hsame.streams] at hkey'
        have habsurd := hkey.symm.trans hkey'
        cases habsurd

theorem Change.lastSeen_le {st st' : Store} {es : List Event} (h : Change st st' es)
    {key : ℕ × String} {row : SubscriptionRow} (hrow : st.subscriptions.find? key = some row) :
    ∃ row', st'.subscriptions.find? key = some row' ∧ row.lastSeen ≤ row'.lastSeen := by
  have hput : ∀ {x : SubscriptionRow}, SubscriptionAllowed st x →
      ∃ row', (st.subscriptions.put x).find? key = some row' ∧ row.lastSeen ≤ row'.lastSeen := by
    intro x hallowed
    rw [Table.find?_put]
    split_ifs with hkey
    · exact ⟨x, rfl, hallowed.lastSeen_le row (hkey ▸ hrow)⟩
    · exact ⟨row, hrow, le_rfl⟩
  cases h with
  | same hsub _ _ => exact ⟨row, hsub ▸ hrow, le_rfl⟩
  | subscription hallowed => exact hput hallowed
  | routed hallowed _ _ => exact hput hallowed
  | instanceDeleted hst => exact ⟨row, hst ▸ hrow, le_rfl⟩
  | _ => exact ⟨row, hrow, le_rfl⟩

/-- **A subscription stays, and its cursor never falls.** -/
theorem Grounded.lastSeen_le (h : Grounded w) (hstep : Queue.step w op = some w')
    {row : SubscriptionRow} (hrow : subscription w.db.store u name = some row) :
    ∃ row', subscription w'.db.store u name = some row' ∧ row'.pkey = row.pkey ∧
      row.lastSeen ≤ row'.lastSeen := by
  have hkey := (h.subscriptionKey_step hstep u name).1 _ (subscriptionKey_of_subscription hrow)
  have hfind := find?_of_subscription hrow
  obtain ⟨row', hrow', hle⟩ : ∃ row', w'.db.store.subscriptions.find? row.pkey = some row' ∧
      row.lastSeen ≤ row'.lastSeen := by
    cases step_cases hstep with
    | change hchange _ => exact hchange.lastSeen_le hfind
    | opened _ => exact ⟨row, hfind, le_rfl⟩
    | claim _ hchange _ => exact hchange.lastSeen_le hfind
  refine ⟨row', ?_, Table.key_of_find? hrow', hle⟩
  rw [subscription, hkey]
  exact hrow'

end Frame

end Instructed.Queue
