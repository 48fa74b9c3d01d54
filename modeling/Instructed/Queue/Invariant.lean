import Instructed.Queue.System
import Mathlib

/-!
# Rows and lanes

The work items as numbered lanes: a lane is a partition of a subscription, its watermark is the
subscription's cursor, and the outstanding items are the rows that are not done.

* `RowStep`, `Change.origin`: where a row of the tables after a call comes from;
* `InsertsAbove`: the rows a call inserts lie above the cursor and at or under the new one, as those
  of the routing worker do;
* `Change.advance`: the tables change as numbered lanes may.
-/

namespace Instructed.Queue

open Sql Relational Transition Lanes

/-- The outstanding rows. -/
def outstanding (st : Store) : Set (Lane × ℤ) :=
  { x | ∃ row ∈ st.workItems.rows, row.state.outstanding = true ∧ (lane row, row.eventNumber) = x }

/-- The cursor of the lane's subscription. -/
def watermark (st : Store) (l : Lane) : WithBot ℤ :=
  match st.subscriptions.find? l.1 with
  | some row => ((row.lastSeen : ℤ) : WithBot ℤ)
  | none => ⊥

/-- Every row that is new lies above the cursor before and not above the cursor after. -/
def InsertsAbove (st st' : Store) : Prop :=
  ∀ row ∈ st'.workItems.rows, st.workItems.find? row.pkey = none →
    watermark st (lane row) < row.eventNumber ∧ row.eventNumber ≤ watermark st' (lane row)

/-- A row that holds no claim is not claimed, and conversely. -/
def HolderOk (row : WorkItemRow) : Prop := row.claimedBy.isSome = true ↔ row.state = .claimed

/-- What a call does to a row that stays. -/
inductive RowStep (events : List Event) (row : WorkItemRow) : WorkItemRow → Prop
  | same : RowStep events row row
  | extended {expires : Timestamp} : row.state = .claimed →
      RowStep events row { row with leaseExpiresAt := some expires }
  | claimed {worker : String} {now expires : Timestamp} : row.claimable now = true →
      .claimed worker row.pkey ∈ events →
      RowStep events row { row with
        state := .claimed, claimedBy := some worker, leaseExpiresAt := some expires }
  | finished {worker : String} {row' : WorkItemRow} : row.claimedBy = some worker →
      row'.claimedBy = none → row'.pkey = row.pkey →
      (row'.state = .done ∧ .completed worker row.pkey ∈ events ∨
        row'.state = .failed ∧ .failed worker row.pkey ∈ events) → RowStep events row row'

section RowStep

variable {st st' : Store} {events : List Event} {row row' : WorkItemRow}

theorem RowStep.pkey_eq (h : RowStep events row row') : row'.pkey = row.pkey := by
  cases h with
  | finished _ _ hkey _ => exact hkey
  | _ => rfl

theorem claimable_outstanding {now : Timestamp} (h : row.claimable now = true) :
    row.state.outstanding = true := by
  unfold WorkItemRow.claimable at h
  split at h <;> simp_all [WorkItemState.outstanding]

/-- No row becomes outstanding again. -/
theorem RowStep.outstanding_of (h : RowStep events row row') (hok : HolderOk row)
    (hout : row'.state.outstanding = true) : row.state.outstanding = true := by
  cases h with
  | same => exact hout
  | extended hstate => exact hstate ▸ rfl
  | claimed hclaim _ => exact claimable_outstanding hclaim
  | finished hholder _ _ _ =>
    have hstate := hok.mp (Option.isSome_iff_exists.mpr ⟨_, hholder⟩)
    exact hstate ▸ rfl

theorem RowStep.holderOk (h : RowStep events row row') (hok : HolderOk row) : HolderOk row' := by
  cases h with
  | same => exact hok
  | extended hstate => exact hok
  | claimed _ _ => exact ⟨fun _ => rfl, fun _ => rfl⟩
  | finished _ hnone _ hstate =>
    refine ⟨fun h => ?_, fun h => ?_⟩
    · rw [hnone] at h
      cases h
    · rcases hstate with ⟨hs, -⟩ | ⟨hs, -⟩ <;> rw [hs] at h <;> cases h

theorem mem_insertedKeys {items : List WorkItemRow} (hr : row ∈ (st.insertItems items).workItems.rows)
    (hnone : st.workItems.find? row.pkey = none) :
    row.pkey ∈ insertedKeys st (st.insertItems items) := by
  obtain ⟨added, hadded, -⟩ := st.workItems.insertAllNew_rows items
  rw [insertedKeys]
  apply List.mem_map_of_mem
  change row ∈ (st.workItems.insertAllNew items).rows at hr
  change row ∈ (st.workItems.insertAllNew items).rows.drop _
  rw [hadded] at hr ⊢
  rw [List.drop_left]
  rcases List.mem_append.mp hr with hr | hr
  · exact absurd rfl (Table.find?_eq_none_iff.mp hnone row hr)
  · exact hr

/-- Where a row comes from: it is new and pending, or the call changed it as `RowStep` says. -/
theorem Change.origin (h : Change st st' events) (hr : row' ∈ st'.workItems.rows) :
    (st.workItems.find? row'.pkey = none ∧ .inserted row'.pkey ∈ events ∧ row'.state = .pending ∧
        row'.claimedBy = none) ∨
      ∃ row ∈ st.workItems.rows, RowStep events row row' := by
  have hput : ∀ {row x : WorkItemRow}, st.workItems.find? row.pkey = some row →
      RowStep events row x → row' ∈ (st.workItems.put x).rows →
        ∃ r ∈ st.workItems.rows, RowStep events r row' := by
    intro row x hrow hx hr
    rcases Table.mem_put.mp hr with rfl | ⟨hr, -⟩
    · exact ⟨row, Table.mem_of_find? hrow, hx⟩
    · exact ⟨row', hr, .same⟩
  cases h with
  | same _ hitems _ => exact Or.inr ⟨row', hitems ▸ hr, .same⟩
  | subscription _ => exact Or.inr ⟨row', hr, .same⟩
  | routed _ hnew _ =>
    have hmem := hr
    rcases Table.mem_of_mem_insertAllNew hr with hr | ⟨hr, hnone⟩
    · exact Or.inr ⟨row', hr, .same⟩
    · refine Or.inl ⟨hnone, List.mem_map_of_mem (mem_insertedKeys ?_ hnone), hnew row' hr⟩
      exact hmem
  | extended hrow hstate _ => exact Or.inr (hput hrow (.extended hstate) hr)
  | claimed hrow hclaim _ =>
    exact Or.inr (hput hrow (.claimed hclaim (List.mem_singleton.mpr rfl)) hr)
  | deleted _ _ => exact Or.inr ⟨row', (Table.mem_deleteWhere.mp hr).1, .same⟩
  | @done row worker _ _ _ _ _ _ hrow hholder _ =>
    have hstep : RowStep [.completed worker row.pkey] row
        { row with state := .done, claimedBy := none, leaseExpiresAt := none } :=
      .finished hholder rfl rfl (Or.inl ⟨rfl, List.mem_singleton.mpr rfl⟩)
    exact Or.inr (hput hrow hstep hr)
  | failed hrow hholder hkey hstate hnone _ =>
    refine Or.inr (hput hrow (.finished hholder hnone hkey (Or.inr ⟨hstate, ?_⟩)) hr)
    exact List.mem_singleton.mpr rfl
  | instanceDeleted hst =>
    subst hst
    exact Or.inr ⟨row', (Table.mem_deleteWhere.mp hr).1, .same⟩

theorem Change.holderOk (h : Change st st' events)
    (hok : ∀ row ∈ st.workItems.rows, HolderOk row) : ∀ row ∈ st'.workItems.rows, HolderOk row := by
  intro row' hr
  rcases h.origin hr with ⟨-, -, hstate, hnone⟩ | ⟨row, hrow, hstep⟩
  · simp [HolderOk, hstate, hnone]
  · exact hstep.holderOk (hok row hrow)

theorem watermark_le_of_allowed {row : SubscriptionRow} (h : SubscriptionAllowed st row) (l : Lane) :
    watermark st l ≤ watermark (st.putSubscription row) l := by
  unfold watermark Store.putSubscription
  dsimp only
  rw [Table.find?_put]
  split_ifs with hkey
  · cases hold : st.subscriptions.find? l.1 with
    | none => exact bot_le
    | some old =>
      have hle := h.lastSeen_le old (hkey ▸ hold)
      exact WithBot.coe_le_coe.mpr (by exact_mod_cast hle)
  · exact le_rfl

/-- No cursor falls. -/
theorem Change.watermark_le (h : Change st st' events) (l : Lane) :
    watermark st l ≤ watermark st' l := by
  cases h with
  | same hsub _ _ =>
    unfold watermark
    rw [hsub]
  | subscription hallowed => exact watermark_le_of_allowed hallowed l
  | routed hallowed _ _ => exact watermark_le_of_allowed hallowed l
  | instanceDeleted hst => exact hst ▸ le_rfl
  | _ => exact le_rfl

/-- **The tables change as numbered lanes may.** -/
theorem Change.advance (h : Change st st' events) (hok : ∀ row ∈ st.workItems.rows, HolderOk row)
    (habove : InsertsAbove st st') :
    Advance (outstanding st) (watermark st) (outstanding st') (watermark st') := by
  refine ⟨h.watermark_le, ?_⟩
  rintro l n ⟨row', hr, hout, heq⟩
  obtain ⟨rfl, rfl⟩ := Prod.mk.inj heq
  rcases h.origin hr with ⟨hnone, -⟩ | ⟨row, hrow, hstep⟩
  · exact Or.inr (habove row' hr hnone).1
  · refine Or.inl ⟨row, hrow, hstep.outstanding_of (hok row hrow) hout, ?_⟩
    have hkey := hstep.pkey_eq
    simp only [WorkItemRow.pkey, Prod.mk.injEq] at hkey
    obtain ⟨⟨h1, h2⟩, h3, h4⟩ := hkey
    simp [lane, WorkItemRow.subscription, h1, h2, h3, h4]

end RowStep

end Instructed.Queue
