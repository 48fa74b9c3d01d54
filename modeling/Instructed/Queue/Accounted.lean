import Instructed.Queue.Frame

/-!
# Every work item is accounted for

A row that was inserted waits until its worker completes it, or until `complete_pm_instance` removes it
with its partition. A failed row waits too.

* `Change.fate`: what a call makes of a row;
* `Finished`: the row was completed or removed, by its history;
* `Accounted`, `Accounted.step`: **every row that was inserted is outstanding or finished**.
-/

namespace Instructed.Queue

open Sql Relational Transition

/-- The row was completed by its worker, or removed with its partition. -/
def Finished (events : List Event) (key : Key) : Prop :=
  (∃ worker, .completed worker key ∈ events) ∨ .removed key ∈ events

/-- The row is there and outstanding. -/
def Waiting (st : Store) (key : Key) : Prop :=
  ∃ row, st.workItems.find? key = some row ∧ row.state.outstanding = true

/-- Every row that was inserted is outstanding or finished. -/
def Accounted (st : Store) (events : List Event) : Prop :=
  ∀ key, .inserted key ∈ events → Waiting st key ∨ Finished events key

section Accounted

variable {st st' : Store} {events es : List Event} {row row' : WorkItemRow} {key : Key}

theorem Finished.mono (h : Finished events key) (hsub : events ⊆ es) : Finished es key :=
  h.imp (fun ⟨worker, hmem⟩ => ⟨worker, hsub hmem⟩) fun hmem => hsub hmem

theorem finished_append : Finished (events ++ es) key ↔ Finished events key ∨ Finished es key := by
  simp only [Finished, List.mem_append, exists_or]
  tauto

/-- The rows after one of them was written. -/
theorem fate_put (hrow : st.workItems.find? key = some row)
    (hfind : st.workItems.find? row'.pkey = some row') {x : WorkItemRow} (hkey : x.pkey = row'.pkey)
    (hstep : RowStep es row' x) :
    ∃ y, (st.workItems.put x).find? key = some y ∧ RowStep es row y := by
  rw [Table.find?_put]
  split_ifs with heq
  · rw [← heq, hkey, hfind] at hrow
    obtain rfl := Option.some.inj hrow
    exact ⟨x, rfl, hstep⟩
  · exact ⟨row, hrow, .same⟩

/-- **What a call makes of a row.** It is still there, or it was completed and deleted, or removed. -/
theorem Change.fate (h : Change st st' es) (hrow : st.workItems.find? key = some row) :
    (∃ row', st'.workItems.find? key = some row' ∧ RowStep es row row') ∨
      st'.workItems.find? key = none ∧ Finished es key := by
  have hsame : ∀ {t : Table WorkItemRow.pkey}, t.find? key = some row →
      ∃ row', t.find? key = some row' ∧ RowStep es row row' := fun h => ⟨row, h, .same⟩
  cases h with
  | same _ hitems _ => exact Or.inl (hsame (hitems ▸ hrow))
  | subscription _ => exact Or.inl (hsame hrow)
  | routed _ _ _ => exact Or.inl (hsame (Table.find?_insertAllNew hrow))
  | extended hfind hstate _ => exact Or.inl (fate_put hrow hfind rfl (.extended hstate))
  | claimed hfind hclaim _ =>
    exact Or.inl (fate_put hrow hfind rfl (.claimed hclaim (List.mem_singleton.mpr rfl)))
  | @done r worker _ _ _ _ _ _ hfind hholder _ =>
    have hstep : RowStep [.completed worker r.pkey] r
        { r with state := .done, claimedBy := none, leaseExpiresAt := none } :=
      .finished hholder rfl rfl (Or.inl ⟨rfl, List.mem_singleton.mpr rfl⟩)
    exact Or.inl (fate_put hrow hfind rfl hstep)
  | failed hfind hholder hkey hstate hnone _ =>
    exact Or.inl (fate_put hrow hfind hkey
      (.finished hholder hnone hkey (Or.inr ⟨hstate, List.mem_singleton.mpr rfl⟩)))
  | @deleted r worker hfind _ =>
    change (∃ row', (st.workItems.deleteWhere _).find? key = some row' ∧ _) ∨
      (st.workItems.deleteWhere _).find? key = none ∧ _
    rw [Table.find?_deleteWhere, hrow, Option.filter_some]
    split_ifs with hne
    · exact Or.inl ⟨row, rfl, .same⟩
    · have heq : row.pkey = r.pkey := by simpa using hne
      rw [← Table.key_of_find? hrow, heq]
      exact Or.inr ⟨rfl, Or.inl ⟨worker, List.mem_singleton.mpr rfl⟩⟩
  | instanceDeleted hst =>
    cases hgone : st'.workItems.find? key with
    | none =>
      refine Or.inr ⟨rfl, Or.inr (List.mem_map_of_mem ?_)⟩
      refine List.mem_filter.mpr ⟨?_, by rw [hgone]; rfl⟩
      exact List.mem_map.mpr ⟨row, Table.mem_of_find? hrow, Table.key_of_find? hrow⟩
    | some row' =>
      have hmem : row' ∈ st.workItems.rows := by
        have hr := Table.mem_of_find? hgone
        subst hst
        exact (Table.mem_deleteWhere.mp hr).1
      have hkey := (Table.key_of_find? hgone).trans (Table.key_of_find? hrow).symm
      obtain rfl := st.workItems.eq_of_key_eq hmem (Table.mem_of_find? hrow) hkey
      exact Or.inl ⟨row', rfl, .same⟩

/-- A call finishes an outstanding row, or leaves it outstanding. -/
theorem Change.remains (h : Change st st' es) (hwaiting : Waiting st key) :
    Waiting st' key ∨ Finished es key := by
  obtain ⟨row, hrow, hout⟩ := hwaiting
  rcases h.fate hrow with ⟨row', hrow', hstep⟩ | ⟨-, hfinished⟩
  · cases hstep with
    | same => exact Or.inl ⟨_, hrow', hout⟩
    | extended _ => exact Or.inl ⟨_, hrow', hout⟩
    | claimed _ _ => exact Or.inl ⟨_, hrow', rfl⟩
    | @finished worker _ _ _ _ hend =>
      rcases hend with ⟨-, hmem⟩ | ⟨hfailed, -⟩
      · rw [Table.key_of_find? hrow] at hmem
        exact Or.inr (Or.inl ⟨worker, hmem⟩)
      · exact Or.inl ⟨_, hrow', hfailed ▸ rfl⟩
  · exact Or.inr hfinished

/-- A row that a call inserts is outstanding. -/
theorem Change.waiting_of_inserted (h : Change st st' es) (hmem : .inserted key ∈ es) :
    Waiting st' key := by
  cases h with
  | @routed sub items _ hnew _ =>
    obtain ⟨k, hk, heq⟩ := List.mem_map.mp hmem
    obtain rfl := Event.inserted.inj heq
    obtain ⟨added, hadded, hsub⟩ := st.workItems.insertAllNew_rows items
    obtain ⟨row, hr, rfl⟩ := List.mem_map.mp hk
    change row ∈ (st.workItems.insertAllNew items).rows.drop _ at hr
    rw [hadded, List.drop_left] at hr
    refine ⟨row, Table.find?_key (hadded ▸ List.mem_append_right _ hr), ?_⟩
    rw [(hnew row (hsub.subset hr)).1]
    rfl
  | claimed _ _ _ => cases List.mem_singleton.mp hmem
  | deleted _ _ => cases List.mem_singleton.mp hmem
  | done _ _ _ => cases List.mem_singleton.mp hmem
  | failed _ _ _ _ _ _ => cases List.mem_singleton.mp hmem
  | instanceDeleted _ =>
    obtain ⟨_, -, heq⟩ := List.mem_map.mp hmem
    cases heq
  | _ => cases hmem

theorem Accounted.change (h : Accounted st events) (hc : Change st st' es) :
    Accounted st' (events ++ es) := by
  intro key hmem
  have hright : es ⊆ events ++ es := List.subset_append_right ..
  rcases List.mem_append.mp hmem with hmem | hmem
  · rcases h key hmem with hwaiting | hfinished
    · exact (hc.remains hwaiting).imp_right fun hf => hf.mono hright
    · exact Or.inr (hfinished.mono (List.subset_append_left ..))
  · exact Or.inl (hc.waiting_of_inserted hmem)

/-- **Every step keeps the rows accounted for.** -/
theorem Accounted.step {κ : Type} [DecidableEq κ] {w w' : World κ} {op : Op κ}
    (h : Accounted w.db.store w.events) (hstep : Queue.step w op = some w') :
    Accounted w'.db.store w'.events := by
  cases step_cases hstep with
  | change hc _ => exact h.change hc
  | opened _ => exact h
  | claim _ hc _ => exact h.change hc

end Accounted

end Instructed.Queue
