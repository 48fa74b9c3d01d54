import Instructed.Queue.Invariant

/-!
# Partitions are served one event at a time, in order

`claim_work_item` never hands out a row while an earlier row of its partition is outstanding, although
its candidate query may read an old state: what was clear below a routed event number stays clear
(`Lanes.Clear.advance`), since `route_batch` adds rows above the cursor and moves the cursor up to them.

* `OrderInv`: every claimed row is the first outstanding row of its lane, and every unblocked row of an
  open snapshot still is, if it is outstanding at all;
* `partition_serial`: **at most one claimed row per partition, handed out and completed in order**, when
  `route_batch` inserts between the cursor before the call and the cursor after it;
* `partition_serial_fails`: it is not enough that it inserts above the cursor before the call.
-/

namespace Instructed.Queue

open Sql Relational Transition Lanes

/-- The completed rows, in the order of their completion. -/
def completions (events : List Event) : List (Lane × ℤ) :=
  events.filterMap fun
    | .completed _ key => some ((key.1, key.2.1), key.2.2)
    | _ => none

@[simp] theorem completions_append (xs ys : List Event) :
    completions (xs ++ ys) = completions xs ++ completions ys :=
  List.filterMap_append ..

theorem completions_inserted (keys : List Key) : completions (keys.map .inserted) = [] := by
  rw [completions, List.filterMap_map, List.filterMap_eq_nil_iff]
  exact fun _ _ => rfl

theorem completions_removed (keys : List Key) : completions (keys.map .removed) = [] := by
  rw [completions, List.filterMap_map, List.filterMap_eq_nil_iff]
  exact fun _ _ => rfl

/-- What the snapshot `snap` shows as unblocked is clear in the store `st`. -/
def Seen (snap st : Store) : Prop :=
  ∀ c ∈ snap.workItems.rows, snap.blocked c = false →
    Clear (outstanding st) (lane c) c.eventNumber ∧
      (c.eventNumber : WithBot ℤ) ≤ watermark st (lane c)

/-- The rows of one store. -/
structure RowsOrdered (st : Store) : Prop where
  holder : ∀ row ∈ st.workItems.rows, HolderOk row
  routed : ∀ row ∈ st.workItems.rows, (row.eventNumber : WithBot ℤ) ≤ watermark st (lane row)
  head : ∀ row ∈ st.workItems.rows, row.state = .claimed →
    Clear (outstanding st) (lane row) row.eventNumber

section Rows

variable {snap st st' : Store} {events : List Event} {row : WorkItemRow}

theorem mem_outstanding {x : WorkItemRow} (hx : x ∈ st.workItems.rows)
    (hout : x.state.outstanding = true) : (lane x, x.eventNumber) ∈ outstanding st :=
  ⟨x, hx, hout, rfl⟩

theorem lane_eventNumber_eq {a b : WorkItemRow} :
    (lane a, a.eventNumber) = (lane b, b.eventNumber) ↔ a.pkey = b.pkey := by
  simp [lane, WorkItemRow.pkey, WorkItemRow.subscription, and_assoc]

theorem clear_of_blocked (h : st.blocked row = false) :
    Clear (outstanding st) (lane row) row.eventNumber := by
  rintro m ⟨x, hx, hout, heq⟩
  obtain ⟨hlane, rfl⟩ := Prod.mk.inj heq
  obtain ⟨hsub, hp⟩ := Prod.mk.inj hlane
  by_contra hlt
  have hfalse := blocked_eq_false.mp h x hx hsub hp (by omega)
  rw [hfalse] at hout
  cases hout

theorem RowsOrdered.seen (h : RowsOrdered st) : Seen st st := fun c hc hblocked =>
  ⟨clear_of_blocked hblocked, h.routed c hc⟩

theorem Seen.advance (h : Seen snap st)
    (ha : Advance (outstanding st) (watermark st) (outstanding st') (watermark st')) :
    Seen snap st' := by
  intro c hc hblocked
  obtain ⟨hclear, hle⟩ := h c hc hblocked
  exact ⟨hclear.advance hle ha, hle.trans (ha.watermark_le _)⟩

theorem RowStep.lane_eq {row' : WorkItemRow} (h : RowStep events row row') :
    lane row' = lane row ∧ row'.eventNumber = row.eventNumber :=
  Prod.mk.inj (lane_eventNumber_eq.mpr h.pkey_eq)

/-- A call keeps the rows in order, if the rows it hands out are clear. -/
theorem RowsOrdered.change (h : RowsOrdered st) (hchange : Change st st' events)
    (habove : InsertsAbove st st')
    (hclaimed : ∀ worker, ∀ row ∈ st.workItems.rows, .claimed worker row.pkey ∈ events →
      Clear (outstanding st) (lane row) row.eventNumber) : RowsOrdered st' := by
  have ha := hchange.advance h.holder habove
  refine ⟨hchange.holderOk h.holder, ?_, ?_⟩
  · intro row' hr
    rcases hchange.origin hr with ⟨hnone, -⟩ | ⟨row, hrow, hstep⟩
    · exact (habove row' hr hnone).2
    · obtain ⟨hlane, hn⟩ := hstep.lane_eq
      rw [hlane, hn]
      exact (h.routed row hrow).trans (ha.watermark_le _)
  · intro row' hr hstate
    rcases hchange.origin hr with ⟨-, -, hpending, -⟩ | ⟨row, hrow, hstep⟩
    · rw [hpending] at hstate
      cases hstate
    · have hclear : Clear (outstanding st) (lane row) row.eventNumber := by
        cases hstep with
        | same => exact h.head _ hrow hstate
        | extended hclaim => exact h.head _ hrow hclaim
        | claimed _ hmem => exact hclaimed _ _ hrow hmem
        | finished _ _ _ hend =>
          rcases hend with ⟨hs, -⟩ | ⟨hs, -⟩ <;> rw [hs] at hstate <;> cases hstate
      obtain ⟨hlane, hn⟩ := hstep.lane_eq
      rw [hlane, hn]
      exact hclear.advance (h.routed row hrow) ha

/-- Who holds a row has claimed the first outstanding row of its lane. -/
theorem RowsOrdered.first_of_holder (h : RowsOrdered st) {worker : String}
    (hrow : st.workItems.find? row.pkey = some row) (hholder : row.claimedBy = some worker) :
    (lane row, row.eventNumber) ∈ outstanding st ∧
      Clear (outstanding st) (lane row) row.eventNumber := by
  have hm := Table.mem_of_find? hrow
  have hstate := (h.holder row hm).mp (Option.isSome_iff_exists.mpr ⟨worker, hholder⟩)
  exact ⟨mem_outstanding hm (hstate ▸ rfl), h.head row hm hstate⟩

/-- A call keeps the completions in order. -/
theorem RowsOrdered.completions (h : RowsOrdered st) (hchange : Change st st' events)
    (habove : InsertsAbove st st') {done : List (Lane × ℤ)}
    (hdone : Ordered done (outstanding st) (watermark st)) :
    Ordered (done ++ completions events) (outstanding st') (watermark st') := by
  have ha := hchange.advance h.holder habove
  have hnil : Ordered (done ++ []) (outstanding st') (watermark st') :=
    (List.append_nil done).symm ▸ hdone.advance ha
  cases hchange with
  | deleted hrow hholder =>
    obtain ⟨hmem, hclear⟩ := h.first_of_holder hrow hholder
    refine hdone.snoc hmem hclear (h.routed _ (Table.mem_of_find? hrow)) ?_
    rintro _ ⟨x, hx, hout, rfl⟩
    obtain ⟨hx, hne⟩ := Table.mem_deleteWhere.mp hx
    exact ⟨mem_outstanding hx hout, mt lane_eventNumber_eq.mp (by simpa using hne)⟩
  | done hrow hholder _ =>
    obtain ⟨hmem, hclear⟩ := h.first_of_holder hrow hholder
    refine hdone.snoc hmem hclear (h.routed _ (Table.mem_of_find? hrow)) ?_
    rintro _ ⟨x, hx, hout, rfl⟩
    rcases Table.mem_put.mp hx with rfl | ⟨hx, hne⟩
    · cases hout
    · exact ⟨mem_outstanding hx hout, mt lane_eventNumber_eq.mp hne⟩
  | routed _ _ _ => exact (completions_inserted _).symm ▸ hnil
  | instanceDeleted _ => exact (completions_removed _).symm ▸ hnil
  | _ => exact hnil

end Rows

/-! ## The invariant -/

section Order

variable {κ : Type} [DecidableEq κ] {w w' : World κ} {op : Op κ}

structure OrderInv (w : World κ) : Prop where
  rows : RowsOrdered w.db.store
  snapshots : ∀ i snap, w.snapshots i = some snap → Seen snap w.db.store
  done : Ordered (completions w.events) (outstanding w.db.store) (watermark w.db.store)

/-- The step inserts rows above the cursor before it only, and not above the cursor after it. -/
def AboveCursor (w : World κ) (op : Op κ) : Prop :=
  ∀ w' ∈ step w op, InsertsAbove w.db.store w'.db.store

/-- A row that a claim hands out was unblocked in the snapshot, hence is clear. -/
theorem Seen.clear {snap st : Store} {events : List Event} (h : Seen snap st)
    (hclaimed : ∀ holder key, .claimed holder key ∈ events →
      ∃ c ∈ snap.workItems.rows, c.pkey = key ∧ snap.blocked c = false) (worker : String)
    (row : WorkItemRow) (hmem : .claimed worker row.pkey ∈ events) :
    Clear (outstanding st) (lane row) row.eventNumber := by
  obtain ⟨c, hc, hkey, hblocked⟩ := hclaimed worker row.pkey hmem
  obtain ⟨hlane, hn⟩ := Prod.mk.inj (lane_eventNumber_eq.mpr hkey)
  exact hlane ▸ hn ▸ (h c hc hblocked).1

theorem OrderInv.step (h : OrderInv w) (habove : AboveCursor w op)
    (hstep : Queue.step w op = some w') : OrderInv w' := by
  have hins := habove w' hstep
  cases step_cases hstep with
  | change hchange hclaimed =>
    have ha := hchange.advance h.rows.holder hins
    refine ⟨h.rows.change hchange hins fun worker row _ hm => absurd hm (hclaimed worker _), ?_, ?_⟩
    · exact fun i snap hi => (h.snapshots i snap hi).advance ha
    · rw [completions_append]
      exact h.rows.completions hchange hins h.done
  | opened hi =>
    refine ⟨h.rows, fun i snap hsnap => ?_, h.done⟩
    dsimp only at hsnap
    rw [Function.update_apply] at hsnap
    split_ifs at hsnap
    · cases hsnap
      exact h.rows.seen
    · exact h.snapshots i snap hsnap
  | claim hi hchange hclaimed =>
    have ha := hchange.advance h.rows.holder hins
    refine ⟨h.rows.change hchange hins fun worker row _ hm =>
      (h.snapshots _ _ hi).clear hclaimed worker row hm, fun j snap hsnap => ?_, ?_⟩
    · dsimp only at hsnap
      rw [Function.update_apply] at hsnap
      split_ifs at hsnap
      exact (h.snapshots j snap hsnap).advance ha
    · rw [completions_append]
      exact h.rows.completions hchange hins h.done

theorem OrderInv.of_reachable (hw : ReachableWhen system AboveCursor w) : OrderInv w := by
  refine hw.invariant ?_ fun _ _ _ h hC hs => h.step hC hs
  rintro _ rfl
  refine ⟨⟨?_, ?_, ?_⟩, ?_, .nil⟩
  · exact fun _ hr => nomatch hr
  · exact fun _ hr => nomatch hr
  · exact fun _ hr => nomatch hr
  · exact fun _ _ hi => nomatch hi

/-! ## The result -/

/-- At most one row of a partition is claimed. When a row is handed out, the rows of its partition with
    smaller event numbers are gone or done. Within a partition, rows are completed in increasing
    order. -/
structure Serial (w : World κ) : Prop where
  oneClaimed : ∀ row ∈ w.db.store.workItems.rows, ∀ row' ∈ w.db.store.workItems.rows,
    row.state = .claimed → row'.state = .claimed → lane row = lane row' → row = row'
  handOut : ∀ op w', step w op = some w' →
    ∀ worker key, .claimed worker key ∈ w'.events.drop w.events.length →
      ∀ row ∈ w.db.store.workItems.rows, lane row = (key.1, key.2.1) →
        row.eventNumber < key.2.2 → row.state = .done
  increasing : (completions w.events).Pairwise fun a b => a.1 = b.1 → a.2 < b.2

/-- **Each partition is served in order**, in every run whose `route_batch` calls insert above the
    cursor that they find, and not above the cursor that they leave. -/
theorem partition_serial (hw : ReachableWhen system AboveCursor w) : Serial w := by
  have hinv := OrderInv.of_reachable hw
  refine ⟨?_, ?_, hinv.done.increasing⟩
  · intro row hrow row' hrow' hstate hstate' hlane
    have hmem := mem_outstanding hrow (hstate ▸ rfl)
    have hmem' := mem_outstanding hrow' (hstate' ▸ rfl)
    have hclear := hinv.rows.head row hrow hstate
    rw [hlane] at hmem hclear
    have hn := hclear.eq hmem hmem' (hinv.rows.head row' hrow' hstate')
    exact w.db.store.workItems.eq_of_key_eq hrow hrow'
      (lane_eventNumber_eq.mp (Prod.ext hlane hn))
  · intro op w' hstep worker key hmem row hrow hlane hlt
    cases step_cases hstep with
    | change _ hclaimed =>
      rw [List.drop_left] at hmem
      exact absurd hmem (hclaimed worker key)
    | opened _ => simp at hmem
    | claim hi _ hclaimed =>
      rw [List.drop_left] at hmem
      obtain ⟨c, hc, rfl, hblocked⟩ := hclaimed worker key hmem
      have hclear := (hinv.snapshots _ _ hi c hc hblocked).1
      have hout : row.state.outstanding = false := by
        by_contra hout
        have hmem := mem_outstanding hrow (Bool.eq_true_of_not_eq_false hout)
        rw [show lane row = lane c from hlane] at hmem
        exact absurd (hclear _ hmem) (not_le.mpr hlt)
      cases hs : row.state with
      | done => rfl
      | _ => rw [hs] at hout; cases hout

end Order

/-! ## A run -/

section Example

instance (st st' : Store) : Decidable (InsertsAbove st st') :=
  inferInstanceAs (Decidable (∀ row ∈ st'.workItems.rows, st.workItems.find? row.pkey = none → _))

instance (w : World ℕ) (op : Op ℕ) : Decidable (AboveCursor w op) :=
  inferInstanceAs (Decidable (∀ w' ∈ step w op, _))

theorem partition_serial_sampleRun : ∃ w,
    (system (κ := ℕ)).runWhen AboveCursor World.install sampleRun = some w ∧
      completions w.events = [(((0, "orders"), "p"), 1), (((0, "orders"), "p"), 2)] ∧ Serial w := by
  have hdone : ((system (κ := ℕ)).runWhen AboveCursor World.install sampleRun).map
      (fun w => completions w.events) =
        some [(((0, "orders"), "p"), 1), (((0, "orders"), "p"), 2)] := by decide +kernel
  obtain ⟨w, hw, hcompletions⟩ := Option.map_eq_some_iff.mp hdone
  exact ⟨w, hw, hcompletions, partition_serial (.runWhen (.init rfl) hw)⟩

/-- The step inserts rows above the cursor before it, maybe far above. -/
def AboveOldCursor (w : World ℕ) (op : Op ℕ) : Prop :=
  ∀ w' ∈ step w op, ∀ row ∈ w'.db.store.workItems.rows, w.db.store.workItems.find? row.pkey = none →
    watermark w.db.store (lane row) < row.eventNumber

instance (w : World ℕ) (op : Op ℕ) : Decidable (AboveOldCursor w op) :=
  inferInstanceAs (Decidable (∀ w' ∈ step w op, ∀ row ∈ w'.db.store.workItems.rows,
    w.db.store.workItems.find? row.pkey = none → _))

/-- Event 5 is routed while the cursor moves to 1, and is claimed; event 3 is routed behind it. -/
def sampleGap : List (Op ℕ) :=
  let route (cursor n : ℤ) : Op ℕ :=
    .call (.routeBatch (some "$all") (some "orders") (some "r") (some cursor) (some (.arr [.obj
      [("partition_key", .str "p"), ("event_number", .int n)]])))
  let claim (i : ℕ) (worker : String) : List (Op ℕ) :=
    [.openClaim i, .claimItem i 20 (fun _ => false) (some "$all") (some "orders") (some worker) (some 5)]
  [.call (.claimSubscription 10 (some "$all") (some "orders") (some "r") (some 30) none), route 1 5] ++
    claim 0 "a" ++ [route 6 3] ++ claim 1 "b"

/-- Two rows of one partition are claimed. -/
theorem partition_serial_fails : ∃ w,
    (system (κ := ℕ)).runWhen AboveOldCursor World.install sampleGap = some w ∧ ¬ Serial w := by
  have hrun : ((system (κ := ℕ)).runWhen AboveOldCursor World.install sampleGap).map (fun w =>
      w.db.store.workItems.rows.map fun row => (lane row, row.eventNumber, row.state)) =
        some [(((0, "orders"), "p"), 5, .claimed), (((0, "orders"), "p"), 3, .claimed)] := by
    decide +kernel
  obtain ⟨w, hw, hrows⟩ := Option.map_eq_some_iff.mp hrun
  refine ⟨w, hw, fun hserial => ?_⟩
  obtain ⟨a, t, hab, ha, hrest⟩ := List.map_eq_cons_iff.mp hrows
  obtain ⟨b, t, rfl, hb, -⟩ := List.map_eq_cons_iff.mp hrest
  have heq := hserial.oneClaimed a (by simp [hab]) b (by simp [hab]) (congrArg (·.2.2) ha)
    (congrArg (·.2.2) hb) ((congrArg Prod.fst ha).trans (congrArg Prod.fst hb).symm)
  rw [heq, hb] at ha
  cases ha

end Example

end Instructed.Queue
