import Instructed.Queue.Isolation

/-!
# The foreign keys of the queue

`subscriptions` refer to `streams`, and `subscription_work_items` to `subscriptions`. The procedures
insert no row without the row that it refers to, and `delete_subscription` deletes both.

* `Referenced`: every work item has its subscription;
* `Rooted.of_reachable`, `Referenced.of_reachable`: **both references hold in every run.**
-/

namespace Instructed.Queue

open Sql Relational Transition

/-- Every work item has its subscription. -/
def Referenced (st : Store) : Prop :=
  ∀ item ∈ st.workItems.rows, ∃ row ∈ st.subscriptions.rows, row.pkey = item.subscription

section Change

variable {st st' : Store} {es : List Event}

theorem Referenced.mono (h : Referenced st)
    (hsub : ∀ row ∈ st.subscriptions.rows, ∃ row' ∈ st'.subscriptions.rows, row'.pkey = row.pkey)
    (hitems : ∀ item ∈ st'.workItems.rows, ∃ old ∈ st.workItems.rows,
      old.subscription = item.subscription) : Referenced st' := by
  intro item hi
  obtain ⟨old, hold, heq⟩ := hitems item hi
  obtain ⟨row, hr, hkey⟩ := h old hold
  obtain ⟨row', hr', hkey'⟩ := hsub row hr
  exact ⟨row', hr', hkey'.trans (hkey.trans heq)⟩

/-- A row that is written keeps its key. -/
theorem exists_pkey_put (t : Table SubscriptionRow.pkey) (x : SubscriptionRow) :
    ∀ row ∈ t.rows, ∃ row' ∈ (t.put x).rows, row'.pkey = row.pkey := by
  intro row hr
  by_cases hkey : x.pkey = row.pkey
  · exact ⟨x, Table.mem_put.mpr (Or.inl rfl), hkey⟩
  · exact ⟨row, Table.mem_put.mpr (Or.inr ⟨hr, fun heq => hkey heq.symm⟩), rfl⟩

theorem Referenced.change (h : Referenced st) (hc : Change st st' es) : Referenced st' := by
  have hkeep : ∀ row ∈ st.subscriptions.rows, ∃ row' ∈ st.subscriptions.rows, row'.pkey = row.pkey :=
    fun row hr => ⟨row, hr, rfl⟩
  have hput : ∀ {old new item : WorkItemRow}, item ∈ (st.workItems.put new).rows →
      st.workItems.find? old.pkey = some old → new.pkey = old.pkey →
        ∃ old ∈ st.workItems.rows, old.subscription = item.subscription := by
    intro old new item hi hold hkey
    rcases Table.mem_put.mp hi with rfl | ⟨hi, -⟩
    · exact ⟨old, Table.mem_of_find? hold, (congrArg Prod.fst hkey).symm⟩
    · exact ⟨item, hi, rfl⟩
  cases hc with
  | same hsub hitems _ =>
    exact h.mono (hsub ▸ hkeep) fun item hi => ⟨item, hitems ▸ hi, rfl⟩
  | @subscription row _ =>
    exact h.mono (exists_pkey_put st.subscriptions row) fun item hi => ⟨item, hi, rfl⟩
  | @routed row items _ _ hitems =>
    intro item hi
    rcases Table.mem_of_mem_insertAllNew hi with hold | ⟨hnew, -⟩
    · obtain ⟨r, hr, hkey⟩ := h item hold
      obtain ⟨r', hr', hkey'⟩ := exists_pkey_put st.subscriptions row r hr
      exact ⟨r', hr', hkey'.trans hkey⟩
    · exact ⟨row, Table.mem_put.mpr (Or.inl rfl), (hitems item hnew).symm⟩
  | extended hold _ _ => exact h.mono hkeep fun item hi => hput hi hold rfl
  | claimed hold _ _ => exact h.mono hkeep fun item hi => hput hi hold rfl
  | deleted _ _ =>
    exact h.mono hkeep fun item hi => ⟨item, (Table.mem_deleteWhere.mp hi).1, rfl⟩
  | done hold _ _ => exact h.mono hkeep fun item hi => hput hi hold rfl
  | failed hold _ hkey _ _ _ => exact h.mono hkeep fun item hi => hput hi hold hkey
  | instanceDeleted hst =>
    subst hst
    exact h.mono hkeep fun item hi => ⟨item, (Table.mem_deleteWhere.mp hi).1, rfl⟩

/-- The work items of a subscription go with it. -/
theorem Referenced.delete {u name : Option String} (h : Referenced st)
    (hd : deleteSubscription u name st = .ok st') : Referenced st' := by
  obtain ⟨_, name, stream, _, -, -, -, -, rfl⟩ := deleteSubscription_ok hd
  intro item hi
  obtain ⟨hi, hne⟩ := Table.mem_deleteWhere.mp hi
  obtain ⟨row, hr, hkey⟩ := h item hi
  refine ⟨row, Table.mem_deleteWhere.mpr ⟨hr, ?_⟩, hkey⟩
  rw [hkey]
  exact hne

end Change

section Worlds

variable {κ : Type} [DecidableEq κ] {w w' : World κ} {a : Act κ}

theorem Referenced.act (h : Referenced w.db.store) (hact : w.act a = some w') :
    Referenced w'.db.store := by
  cases a with
  | op o =>
    cases step_cases hact with
    | change hc _ => exact h.change hc
    | opened _ => exact h
    | claim _ hc _ => exact h.change hc
  | deleteSubscription u name =>
    obtain rfl := Option.some.inj hact
    cases hd : Instructed.deleteSubscription u name w.db.store with
    | error e => exact h
    | ok st => exact h.delete hd

theorem Referenced.of_reachable (hw : Reachable (lifecycle (κ := κ)) w) : Referenced w.db.store := by
  refine hw.invariant (P := fun v : World κ => Referenced v.db.store) ?_ fun _ _ _ h _ hs => h.act hs
  rintro _ rfl item hi
  cases hi

theorem Rooted.of_reachable (hw : Reachable (lifecycle (κ := κ)) w) : Rooted w := by
  refine hw.invariant (P := fun v : World κ => Rooted v) ?_ fun _ _ _ h _ hs => h.act hs
  rintro _ rfl
  exact .install

end Worlds

end Instructed.Queue
