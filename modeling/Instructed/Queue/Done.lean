import Instructed.Queue.Accounted
import Instructed.Queue.Order

/-!
# The done rows of a partition

A process manager keeps the rows that it has finished, and rebuilds its state from them. They change
only when the row that is served is completed, or when the partition is removed.

* `doneIn`: the done rows of a lane, `completions_of_done`: each of them was completed;
* `Change.doneIn_eq`: the done rows of a lane stay when nothing is completed or removed there;
* `Change.snapshots_of_unfinished`: only a completion writes a snapshot;
* `Change.held_origin`: who holds a row held it before, or has just claimed it;
* `Change.quiet_of_held`: **while a row is held, nothing else is completed or removed in its lane**.
-/

namespace Instructed.Queue

open Sql Relational Transition Lanes

/-- The event numbers of the done rows of a lane. -/
def doneIn (st : Store) (l : Lane) : Set ℤ :=
  { n | ∃ row ∈ st.workItems.rows, row.state = .done ∧ lane row = l ∧ row.eventNumber = n }

/-- A row of the lane was completed or removed. -/
def Event.endsIn (l : Lane) : Event → Prop
  | .completed _ key | .removed key => (key.1, key.2.1) = l
  | _ => False

section Done

variable {st st' : Store} {events es : List Event} {row row' : WorkItemRow} {l : Lane}

theorem doneIn_congr (h : st'.workItems = st.workItems) : doneIn st' l = doneIn st l := by
  rw [doneIn, doneIn, h]

/-- A row that is not done was written, and is not done after. -/
theorem doneIn_put (hrow : st.workItems.find? row.pkey = some row) (hkey : row'.pkey = row.pkey)
    (hstate : row.state ≠ .done) (hstate' : row'.state ≠ .done) :
    doneIn { st with workItems := st.workItems.put row' } l = doneIn st l := by
  ext n
  constructor
  · rintro ⟨x, hx, hdone, hl, hn⟩
    rcases Table.mem_put.mp hx with rfl | ⟨hx, -⟩
    · exact absurd hdone hstate'
    · exact ⟨x, hx, hdone, hl, hn⟩
  · rintro ⟨x, hx, hdone, hl, hn⟩
    refine ⟨x, Table.mem_put.mpr (Or.inr ⟨hx, fun heq => ?_⟩), hdone, hl, hn⟩
    have hxrow := st.workItems.eq_of_key_eq hx (Table.mem_of_find? hrow) (heq.trans hkey)
    exact hstate (hxrow ▸ hdone)

theorem state_ne_done_of_holder (hok : HolderOk row) {worker : String}
    (hholder : row.claimedBy = some worker) : row.state ≠ .done := by
  intro hdone
  have hclaimed := hok.mp (Option.isSome_iff_exists.mpr ⟨worker, hholder⟩)
  rw [hdone] at hclaimed
  cases hclaimed

/-- The row that its holder completes joins the done rows. -/
theorem doneIn_done (hkey : row'.pkey = row.pkey) (hdone : row'.state = .done) :
    doneIn { st with workItems := st.workItems.put row' } (lane row) =
      insert row.eventNumber (doneIn st (lane row)) := by
  obtain ⟨hlane, hn⟩ := Prod.mk.inj (lane_eventNumber_eq.mpr hkey)
  ext n
  constructor
  · rintro ⟨x, hx, hx', hl, rfl⟩
    rcases Table.mem_put.mp hx with rfl | ⟨hx, -⟩
    · exact Set.mem_insert_iff.mpr (Or.inl hn)
    · exact Set.mem_insert_of_mem _ ⟨x, hx, hx', hl, rfl⟩
  · intro hmem
    rcases Set.mem_insert_iff.mp hmem with rfl | ⟨x, hx, hx', hl, rfl⟩
    · exact ⟨row', Table.mem_put.mpr (Or.inl rfl), hdone, hlane, hn⟩
    · by_cases heq : x.pkey = row'.pkey
      · obtain ⟨-, hn'⟩ := Prod.mk.inj (lane_eventNumber_eq.mpr heq)
        exact ⟨row', Table.mem_put.mpr (Or.inl rfl), hdone, hlane, hn'.symm⟩
      · exact ⟨x, Table.mem_put.mpr (Or.inr ⟨hx, heq⟩), hx', hl, rfl⟩

/-- **The done rows of a lane stay, when no row of the lane is completed or removed.** -/
theorem Change.doneIn_eq (h : Change st st' es) (hok : ∀ row ∈ st.workItems.rows, HolderOk row)
    (hquiet : ∀ e ∈ es, ¬ e.endsIn l) : doneIn st' l = doneIn st l := by
  have hnot : ∀ {row : WorkItemRow} {worker : String}, st.workItems.find? row.pkey = some row →
      row.claimedBy = some worker → row.state ≠ .done := fun hrow hholder =>
    state_ne_done_of_holder (hok _ (Table.mem_of_find? hrow)) hholder
  cases h with
  | same _ hitems _ => exact doneIn_congr hitems
  | subscription _ => rfl
  | @routed sub items _ hnew _ =>
    ext n
    constructor
    · rintro ⟨x, hx, hdone, hl, hn⟩
      rcases Table.mem_of_mem_insertAllNew hx with hx | ⟨hx, -⟩
      · exact ⟨x, hx, hdone, hl, hn⟩
      · rw [(hnew x hx).1] at hdone
        cases hdone
    · rintro ⟨x, hx, hdone, hl, hn⟩
      refine ⟨x, ?_, hdone, hl, hn⟩
      have hfind : (st.workItems.insertAllNew items).find? x.pkey = some x :=
        Table.find?_insertAllNew (Table.find?_key hx)
      exact Table.mem_of_find? hfind
  | extended hrow hstate _ =>
    have hclaimed := hstate
    exact doneIn_put hrow rfl (by rw [hstate]; simp) (by simp [hclaimed])
  | claimed hrow hclaim _ =>
    refine doneIn_put hrow rfl (fun hdone => ?_) (by simp)
    have hout := claimable_outstanding hclaim
    rw [hdone] at hout
    cases hout
  | @deleted row worker hrow hholder =>
    ext n
    constructor
    · rintro ⟨x, hx, hdone, hl, hn⟩
      exact ⟨x, (Table.mem_deleteWhere.mp hx).1, hdone, hl, hn⟩
    · rintro ⟨x, hx, hdone, hl, hn⟩
      refine ⟨x, Table.mem_deleteWhere.mpr ⟨hx, decide_eq_false fun heq => ?_⟩, hdone, hl, hn⟩
      have hxrow := st.workItems.eq_of_key_eq hx (Table.mem_of_find? hrow) heq
      exact hnot hrow hholder (hxrow ▸ hdone)
  | @done row worker _ _ _ _ _ _ hrow hholder _ =>
    have hne : lane row ≠ l := hquiet _ (List.mem_singleton.mpr rfl)
    ext n
    constructor
    · rintro ⟨x, hx, hdone, hl, hn⟩
      rcases Table.mem_put.mp hx with rfl | ⟨hx, -⟩
      · exact absurd hl hne
      · exact ⟨x, hx, hdone, hl, hn⟩
    · rintro ⟨x, hx, hdone, hl, hn⟩
      refine ⟨x, Table.mem_put.mpr (Or.inr ⟨hx, fun heq => hne ?_⟩), hdone, hl, hn⟩
      exact (Prod.mk.inj (lane_eventNumber_eq.mpr heq)).1.symm.trans hl
  | failed hrow hholder hkey hstate _ _ =>
    exact doneIn_put hrow hkey (hnot hrow hholder) (by rw [hstate]; simp)
  | @instanceDeleted _ sub p uuid hst =>
    ext n
    constructor
    · rintro ⟨x, hx, hdone, hl, hn⟩
      subst hst
      exact ⟨x, (Table.mem_deleteWhere.mp hx).1, hdone, hl, hn⟩
    · rintro ⟨x, hx, hdone, hl, hn⟩
      refine ⟨x, ?_, hdone, hl, hn⟩
      by_contra hgone
      refine hquiet (.removed x.pkey) (List.mem_map_of_mem ?_) hl
      refine List.mem_filter.mpr ⟨List.mem_map_of_mem hx, ?_⟩
      rw [Option.isNone_iff_eq_none, Table.find?_eq_none_iff]
      intro y hy hkey
      have hy' := hy
      subst hst
      have hyx := st.workItems.eq_of_key_eq (Table.mem_deleteWhere.mp hy').1 hx hkey
      exact hgone (hyx ▸ hy)

/-- **Who holds a row held it before, or has just claimed it.** -/
theorem Change.held_origin (h : Change st st' es) (hr : row' ∈ st'.workItems.rows) {worker : String}
    (hholder : row'.claimedBy = some worker) :
    (∃ row ∈ st.workItems.rows, row.pkey = row'.pkey ∧ row.claimedBy = some worker) ∨
      .claimed worker row'.pkey ∈ es := by
  rcases h.origin hr with ⟨-, -, -, hnone⟩ | ⟨row, hrow, hstep⟩
  · rw [hnone] at hholder
    cases hholder
  · cases hstep with
    | same => exact Or.inl ⟨row', hrow, rfl, hholder⟩
    | extended _ => exact Or.inl ⟨row, hrow, rfl, hholder⟩
    | claimed _ hmem =>
      obtain rfl := Option.some.inj hholder
      exact Or.inr hmem
    | finished _ hnone _ _ =>
      rw [hnone] at hholder
      cases hholder

/-- **While a row is held, no row of its lane is completed or removed.** -/
theorem Change.quiet_of_held (h : Change st st' es) (hordered : RowsOrdered st)
    (hr : row ∈ st.workItems.rows) {worker worker' : String} (hholder : row.claimedBy = some worker)
    (hr' : row' ∈ st'.workItems.rows) (hkey : row'.pkey = row.pkey)
    (hholder' : row'.claimedBy = some worker') : ∀ e ∈ es, ¬ e.endsIn (lane row) := by
  have hfirst := hordered.first_of_holder (Table.find?_key hr) hholder
  -- The row that is completed is held, and a lane has one row that is held.
  have hsame : ∀ {x : WorkItemRow} {v : String}, st.workItems.find? x.pkey = some x →
      x.claimedBy = some v → lane x = lane row → x = row := by
    intro x v hx hv hlane
    have hfirst' := hordered.first_of_holder hx hv
    rw [hlane] at hfirst'
    have hn := hfirst'.2.eq hfirst'.1 hfirst.1 hfirst.2
    exact st.workItems.eq_of_key_eq (Table.mem_of_find? hx) hr
      (lane_eventNumber_eq.mp (Prod.ext hlane hn))
  intro e he hends
  cases h with
  | same _ _ _ => cases he
  | subscription _ => cases he
  | routed _ _ _ =>
    obtain ⟨k, -, rfl⟩ := List.mem_map.mp he
    exact hends
  | extended _ _ _ => cases he
  | claimed _ _ _ =>
    obtain rfl := List.mem_singleton.mp he
    exact hends
  | deleted hrow hx =>
    obtain rfl := List.mem_singleton.mp he
    obtain rfl := hsame hrow hx hends
    exact of_decide_eq_false (Table.mem_deleteWhere.mp hr').2 hkey
  | done hrow hx _ =>
    obtain rfl := List.mem_singleton.mp he
    obtain rfl := hsame hrow hx hends
    rcases Table.mem_put.mp hr' with rfl | ⟨-, hne⟩
    · cases hholder'
    · exact hne hkey
  | failed _ _ _ _ _ _ =>
    obtain rfl := List.mem_singleton.mp he
    exact hends
  | @instanceDeleted _ sub p uuid hst =>
    obtain ⟨k, hk, rfl⟩ := List.mem_map.mp he
    obtain ⟨hk, hgone⟩ := List.mem_filter.mp hk
    obtain ⟨x, hx, rfl⟩ := List.mem_map.mp hk
    subst hst
    have hlane : lane x = lane row := hends
    have hin : row.subscription = sub ∧ row.partitionKey = p := by
      have hxin : x.subscription = sub ∧ x.partitionKey = p := by
        by_contra hout
        have hmem : x ∈ (st.workItems.deleteWhere fun w =>
            w.subscription = sub ∧ w.partitionKey = p).rows :=
          Table.mem_deleteWhere.mpr ⟨hx, decide_eq_false hout⟩
        have hfind := Table.find?_key hmem
        rw [Option.isNone_iff_eq_none] at hgone
        cases hgone.symm.trans hfind
      obtain ⟨hsub, hp⟩ := Prod.mk.inj hlane
      exact ⟨hsub ▸ hxin.1, hp ▸ hxin.2⟩
    obtain ⟨hmem, hout⟩ := Table.mem_deleteWhere.mp hr'
    have heq := st.workItems.eq_of_key_eq hmem hr hkey
    exact of_decide_eq_false hout (heq ▸ hin)

theorem quiet_of_unfinished (h : ∀ key, ¬ Finished es key) (l : Lane) : ∀ e ∈ es, ¬ e.endsIn l := by
  intro e he hends
  cases e with
  | completed worker key => exact h key (Or.inl ⟨worker, he⟩)
  | removed key => exact h key (Or.inr he)
  | _ => exact hends

/-- **A change that completes no row writes no snapshot.** -/
theorem Change.snapshots_of_unfinished (h : Change st st' es) (hquiet : ∀ key, ¬ Finished es key)
    {u : String} {snap : SnapshotRow} (hsnap : st'.snapshots.find? u = some snap) :
    st.snapshots.find? u = some snap := by
  cases h with
  | same _ _ heq => exact heq ▸ hsnap
  | done _ _ _ => exact absurd (Or.inl ⟨_, List.mem_singleton.mpr rfl⟩) (hquiet _)
  | instanceDeleted hst =>
    subst hst
    change (st.snapshots.deleteWhere _).find? u = some snap at hsnap
    rw [Table.find?_deleteWhere, Option.filter_eq_some_iff] at hsnap
    exact hsnap.1
  | _ => exact hsnap

/-- A row that is done was completed. -/
def Completed (st : Store) (events : List Event) : Prop :=
  ∀ row ∈ st.workItems.rows, row.state = .done →
    (lane row, row.eventNumber) ∈ completions events

theorem Completed.change (h : Completed st events) (hc : Change st st' es) :
    Completed st' (events ++ es) := by
  intro row' hr hdone
  rw [completions_append, List.mem_append]
  rcases hc.origin hr with ⟨-, -, hpending, -⟩ | ⟨row, hrow, hstep⟩
  · rw [hpending] at hdone
    cases hdone
  · obtain ⟨hlane, hn⟩ := hstep.lane_eq
    cases hstep with
    | same => exact Or.inl (h _ hrow hdone)
    | extended hstate =>
      rw [show row.state = .done from hdone] at hstate
      cases hstate
    | claimed _ _ => cases hdone
    | finished _ _ _ hend =>
      rcases hend with ⟨-, hmem⟩ | ⟨hfailed, -⟩
      · refine Or.inr (List.mem_filterMap.mpr ⟨_, hmem, ?_⟩)
        rw [hlane, hn]
        rfl
      · rw [hfailed] at hdone
        cases hdone

/-- A done row lies below every outstanding row of its lane. -/
theorem lt_of_done (hcompleted : Completed st events)
    (hdone : Ordered (completions events) (outstanding st) (watermark st)) {n m : ℤ}
    (hn : n ∈ doneIn st l) (hm : (l, m) ∈ outstanding st) : n < m := by
  obtain ⟨row, hrow, hstate, rfl, rfl⟩ := hn
  exact (hdone.below _ (hcompleted row hrow hstate)).2 m hm

end Done

end Instructed.Queue
