import Instructed.Lib.Trace
import Instructed.Queue.Claim
import Instructed.Queue.Errors

/-!
# The life of a work item

Eight procedures write the rows of `subscription_work_items`, and `delete_subscription` deletes them by
the cascade of their foreign key. Some compare only the holder of a row with the caller, and not its
state.

* `Act`, `lifecycle`: the work queue with `delete_subscription`;
* `RowOk`: the columns of a row, by its state;
* `Life`: what an operation may do to a row, with the procedure that does it;
* `Call.life`, `step_life`: every step leads each row along one of these arrows;
* `documented_call`: no procedure is refused by the constraints of the table;
* `workItem_life`: **all of it, for every run, and a row that is done or failed stays so.**
-/

namespace Instructed.Queue

open Sql Relational Transition Trace

/-! ## The system -/

/-- An operation of the work queue, or a call of `delete_subscription`. -/
inductive Act (κ : Type) where
  | op (o : Op κ)
  | deleteSubscription (streamUuid subscriptionName : Option String)

section System

variable {κ : Type} [DecidableEq κ]

def World.act (w : World κ) : Act κ → Option (World κ)
  | .op o => step w o
  | .deleteSubscription u name =>
    some (w.commit ((Instructed.deleteSubscription u name w.db.store).map fun st => (st, [])))

/-- The work queue on a fresh install, with `delete_subscription`. -/
def lifecycle : System (World κ) (Act κ) where
  init w := w = World.install
  step := World.act

/-- The error that an operation raises, if its procedure writes work items. -/
def Act.error? (w : World κ) : Act κ → Option SqlError
  | .op (.call c) =>
    match c.run w.db.store with
    | .ok _ => none
    | .error e => some e
  | .op (.claimItem i now locked u name worker lease) =>
    match (w.snapshots i).map fun snapshot =>
      runClaim now snapshot locked u name worker lease w.db.store with
    | some (.error e) => some e
    | _ => none
  | .op (.append _ _) | .op (.openClaim _) => none
  | .deleteSubscription u name =>
    match Instructed.deleteSubscription u name w.db.store with
    | .ok _ => none
    | .error e => some e

/-- The row under the key. -/
def World.item (w : World κ) (key : Key) : Option WorkItemRow := w.db.store.workItems.find? key

end System

/-! ## The rows -/

/-- The columns of a row, by its state. -/
structure RowOk (row : WorkItemRow) : Prop where
  holder : row.claimedBy.isSome = true ↔ row.state = .claimed
  lease : row.leaseExpiresAt.isSome = true ↔ row.state = .claimed
  failedAt : row.failedAt.isSome = true ↔ row.state = .failed
  errorText : row.errorText.isSome = true → row.state = .failed

/-- What an operation may do to a row. -/
inductive Life {κ : Type} : Option WorkItemRow → Act κ → Option WorkItemRow → Prop
  | kept {r : Option WorkItemRow} {a : Act κ} : Life r a r
  | inserted {row : WorkItemRow} {u name worker : Option String} {cursor : Option ℤ}
      {decisions : Option Json} : row.state = .pending → RowOk row →
      Life none (.op (.call (.routeBatch u name worker cursor decisions))) (some row)
  | taken {row : WorkItemRow} {i : κ} {now expires : Timestamp} {locked : WorkItemRow → Bool}
      {u name : Option String} {worker : String} {lease : Option ℤ} : row.state = .pending →
      Life (some row) (.op (.claimItem i now locked u name (some worker) lease)) (some { row with
        state := .claimed, claimedBy := some worker, leaseExpiresAt := some expires })
  | takenOver {row : WorkItemRow} {i : κ} {now expired expires : Timestamp}
      {locked : WorkItemRow → Bool} {u name : Option String} {worker : String} {lease : Option ℤ} :
      row.state = .claimed → row.leaseExpiresAt = some expired → expired < now →
      Life (some row) (.op (.claimItem i now locked u name (some worker) lease)) (some { row with
        state := .claimed, claimedBy := some worker, leaseExpiresAt := some expires })
  | extended {row : WorkItemRow} {now expires : Timestamp} {a : ItemArgs} {lease : Option ℤ} :
      row.state = .claimed → row.claimedBy = a.workerId →
      Life (some row) (.op (.call (.extend now a lease)))
        (some { row with leaseExpiresAt := some expires })
  | done {row : WorkItemRow} {now : Timestamp} {a : ItemArgs} {s : PmSnapshotArgs} :
      row.state = .claimed → row.claimedBy = a.workerId →
      Life (some row) (.op (.call (.completePm now a s)))
        (some { row with state := .done, claimedBy := none, leaseExpiresAt := none })
  | failed {row : WorkItemRow} {now : Timestamp} {a : ItemArgs} {text : Option String} :
      row.state = .claimed → row.claimedBy = a.workerId →
      Life (some row) (.op (.call (.fail now a text))) (some { row with
        state := .failed, failedAt := some now, errorText := text
        claimedBy := none, leaseExpiresAt := none })
  | deleted {row : WorkItemRow} {a : ItemArgs} : row.state = .claimed → row.claimedBy = a.workerId →
      Life (some row) (.op (.call (.completeProjection a))) none
  | removed {row : WorkItemRow} {u name p uuid : Option String} :
      Life (some row) (.op (.call (.completePmInstance u name p uuid))) none
  | unsubscribed {row : WorkItemRow} {u name : Option String} :
      Life (some row) (.deleteSubscription u name) none

section Row

variable {κ : Type} {row : WorkItemRow} {r r' : Option WorkItemRow} {a : Act κ}

theorem RowOk.checks (h : RowOk row) : row.checks = true := by
  obtain ⟨sid, name, p, n, state, holder, lease, failedAt, text⟩ := row
  obtain ⟨h1, h2, h3, h4⟩ := h
  cases state <;> cases holder <;> cases lease <;> cases failedAt <;> cases text <;>
    simp_all [WorkItemRow.checks]

theorem RowOk.claim (h : RowOk row) (hstate : row.state ≠ .failed) (worker : String)
    (expires : Timestamp) : RowOk { row with
      state := .claimed, claimedBy := some worker, leaseExpiresAt := some expires } :=
  ⟨by simp, by simp, by simpa [hstate] using h.failedAt, fun ht => absurd (h.errorText ht) hstate⟩

theorem RowOk.extend (h : RowOk row) (hstate : row.state = .claimed) (expires : Timestamp) :
    RowOk { row with leaseExpiresAt := some expires } :=
  ⟨h.holder, by simp [hstate], h.failedAt, h.errorText⟩

theorem RowOk.done (h : RowOk row) (hstate : row.state = .claimed) :
    RowOk { row with state := .done, claimedBy := none, leaseExpiresAt := none } := by
  obtain ⟨-, -, h3, h4⟩ := h
  rw [hstate] at h3 h4
  exact ⟨by simp, by simp, by simpa using h3, fun ht => by simpa using h4 ht⟩

theorem RowOk.fail (row : WorkItemRow) (now : Timestamp) (text : Option String) : RowOk { row with
    state := .failed, failedAt := some now, errorText := text
    claimedBy := none, leaseExpiresAt := none } :=
  ⟨by simp, by simp, by simp, fun _ => rfl⟩

/-- An arrow keeps the rules of the columns. -/
theorem Life.rowOk (h : Life r a r') (hok : ∀ row, r = some row → RowOk row) :
    ∀ row, r' = some row → RowOk row := by
  cases h with
  | kept => exact hok
  | inserted _ hrow =>
    rintro _ ⟨⟩
    exact hrow
  | @taken row _ _ _ _ _ _ _ _ hstate =>
    rintro _ ⟨⟩
    exact (hok row rfl).claim (by simp [hstate]) _ _
  | @takenOver row _ _ _ _ _ _ _ _ _ hstate _ _ =>
    rintro _ ⟨⟩
    exact (hok row rfl).claim (by simp [hstate]) _ _
  | @extended row _ _ _ _ hstate _ =>
    rintro _ ⟨⟩
    exact (hok row rfl).extend hstate _
  | @done row _ _ _ hstate _ =>
    rintro _ ⟨⟩
    exact (hok row rfl).done hstate
  | @failed row now _ text _ _ =>
    rintro _ ⟨⟩
    exact .fail row now text
  | _ => exact fun _ hrow => by cases hrow

/-- A row that is done or failed is kept, until it is deleted. -/
theorem Life.finished (h : Life (some row) a r') (hstate : row.state = .done ∨ row.state = .failed) :
    r' = some row ∨ r' = none := by
  cases h with
  | kept => exact Or.inl rfl
  | removed => exact Or.inr rfl
  | unsubscribed => exact Or.inr rfl
  | deleted _ _ => exact Or.inr rfl
  | _ => simp_all

end Row

/-! ## What a step does to a row -/

section Step

variable {κ : Type} {st st' : Store} {row row' : WorkItemRow} {key : Key} {a : Act κ} {es : List Event}

theorem life_put (hfind : st.workItems.find? row.pkey = some row) (hkey : row'.pkey = row.pkey)
    (h : Life (some row) a (some row')) :
    Life (st.workItems.find? key) a ((st.workItems.put row').find? key) := by
  rw [Table.find?_put]
  split_ifs with heq
  · rw [← heq, hkey, hfind]
    exact h
  · exact .kept

theorem life_deleteWhere {p : WorkItemRow → Bool} (h : ∀ row, st.workItems.find? key = some row →
    p row = true → Life (some row) a none) :
    Life (st.workItems.find? key) a ((st.workItems.deleteWhere p).find? key) := by
  rw [Table.find?_deleteWhere]
  cases hfind : st.workItems.find? key with
  | none => exact .kept
  | some row =>
    rw [Option.filter_some]
    cases hp : p row with
    | true => exact h row hfind hp
    | false => exact .kept

/-- A row of a batch is new, or the row that was there stays. -/
theorem life_insertItems {items : List WorkItemRow} (hnew : ∀ item ∈ items, Life none a (some item)) :
    Life (st.workItems.find? key) a ((st.workItems.insertAllNew items).find? key) := by
  cases hfind : st.workItems.find? key with
  | some row =>
    rw [Table.find?_insertAllNew hfind]
    exact .kept
  | none =>
    cases hfind' : (st.workItems.insertAllNew items).find? key with
    | none => exact .kept
    | some row =>
      rcases Table.mem_of_mem_insertAllNew (Table.mem_of_find? hfind') with hold | ⟨hitem, -⟩
      · exact absurd (Table.key_of_find? hfind') (Table.find?_eq_none_iff.mp hfind row hold)
      · exact hnew row hitem

/-- The caller holds the row, which is then claimed. -/
theorem claimed_of_held {proc : String} {i : ItemArgs} {r : ItemRef}
    (hheld : Held proc i st r key row) (hok : RowOk row) :
    st.workItems.find? row.pkey = some row ∧ row.state = .claimed ∧ row.claimedBy = i.workerId := by
  have hfind := hheld.find
  obtain rfl := Table.key_of_find? hfind
  refine ⟨hfind, hok.holder.mp (by rw [hheld.holder]; rfl), ?_⟩
  rw [ItemArgs.check_ok hheld.check]
  exact hheld.holder

/-- **A call leads each row along an arrow.** -/
theorem Call.life {c : Call} (hok : ∀ row ∈ st.workItems.rows, RowOk row)
    (h : c.run st = .ok (st', es)) (key : Key) :
    Life (st.workItems.find? key) (.op (.call c) : Act κ) (st'.workItems.find? key) := by
  cases c with
  | claimSubscription now u name worker lease options =>
    obtain ⟨⟨r, s⟩, hr, heq⟩ := map_eq_ok.mp h
    cases heq
    obtain ⟨_, _, _, _, _, -, -, -, -, hclaim⟩ := claimSubscription_ok hr
    cases hclaim <;> exact .kept
  | releaseSubscription u name worker =>
    obtain ⟨s, hs, heq⟩ := map_eq_ok.mp h
    cases heq
    obtain ⟨_, _, _, _, _, -, -, -, -, -, -, rfl⟩ := releaseSubscription_ok hs
    exact .kept
  | routeBatch u name worker cursor decisions =>
    obtain ⟨⟨r, s⟩, hr, heq⟩ := map_eq_ok.mp h
    cases heq
    obtain ⟨_, _, _, _, _, _, _, items, -, -, -, -, -, -, -, -, hitems, -, rfl⟩ := routeBatch_ok hr
    refine life_insertItems fun item hitem => ?_
    obtain ⟨d, -, hd⟩ := mem_of_mapM_ok hitems hitem
    obtain ⟨p, n, rfl⟩ := decisionRow_ok hd
    exact .inserted rfl ⟨by simp, by simp, by simp, by simp⟩
  | extend now a lease =>
    obtain ⟨⟨e, s⟩, hs, heq⟩ := map_eq_ok.mp h
    cases heq
    obtain ⟨_, _, row, hheld, hstate, -, rfl⟩ := extendWorkItemClaim_ok hs
    obtain ⟨hfind, -, hholder⟩ := claimed_of_held hheld (hok row (Table.mem_of_find? hheld.find))
    exact life_put hfind rfl (.extended hstate hholder)
  | completeProjection a =>
    obtain ⟨s, hs, heq⟩ := map_eq_ok.mp h
    cases heq
    obtain ⟨_, _, row, hheld, rfl⟩ := completeWorkItemProjection_ok hs
    obtain ⟨hfind, hstate, hholder⟩ := claimed_of_held hheld (hok row (Table.mem_of_find? hheld.find))
    refine life_deleteWhere fun x hx hkey => ?_
    have hkey := of_decide_eq_true hkey
    obtain rfl : row = x := by
      have hrow := hheld.find
      rw [← hkey, Table.key_of_find? hx, hx] at hrow
      exact (Option.some.inj hrow).symm
    exact .deleted hstate hholder
  | completePm now a s =>
    obtain ⟨_, hs, heq⟩ := map_eq_ok.mp h
    cases heq
    obtain ⟨_, _, row, _, _, _, _, hheld, -, -, rfl⟩ := completeWorkItemPm_ok hs
    obtain ⟨hfind, hstate, hholder⟩ := claimed_of_held hheld (hok row (Table.mem_of_find? hheld.find))
    exact life_put hfind rfl (.done hstate hholder)
  | fail now a text =>
    obtain ⟨s, hs, heq⟩ := map_eq_ok.mp h
    cases heq
    obtain ⟨_, _, row, _, hheld, rfl, -, rfl⟩ := failWorkItem_ok hs
    obtain ⟨hfind, hstate, hholder⟩ := claimed_of_held hheld (hok row (Table.mem_of_find? hheld.find))
    exact life_put hfind rfl (.failed hstate hholder)
  | completePmInstance u name p uuid =>
    obtain ⟨⟨r, s⟩, hr, heq⟩ := map_eq_ok.mp h
    cases heq
    obtain ⟨_, _, _, _, _, -, -, -, -, -, rfl⟩ := completePmInstance_ok hr
    exact life_deleteWhere fun _ _ _ => .removed

theorem runClaim_life {i : κ} {now : Timestamp} {snapshot : Store} {locked : WorkItemRow → Bool}
    {u name worker : Option String} {lease : Option ℤ}
    (h : runClaim now snapshot locked u name worker lease st = .ok (st', es)) (key : Key) :
    Life (st.workItems.find? key) (.op (.claimItem i now locked u name worker lease))
      (st'.workItems.find? key) := by
  obtain ⟨⟨item, s⟩, hs, h⟩ := bind_eq_ok.mp h
  cases h
  obtain ⟨_, _, worker, _, -, -, rfl, -, ⟨-, rfl⟩ | ⟨it, row, -, hrow⟩⟩ := claimWorkItem_ok hs
  · exact .kept
  · rw [hrow.store]
    refine life_put hrow.find rfl ?_
    rcases claimable_iff_due.mp hrow.claimable with hstate | ⟨hstate, expired, hlease, hlt⟩
    · exact .taken hstate
    · exact .takenOver hstate hlease hlt

variable [DecidableEq κ] {w w' : World κ}

/-- **Every step leads each row along an arrow.** -/
theorem step_life (hok : ∀ row ∈ w.db.store.workItems.rows, RowOk row) (h : w.act a = some w')
    (key : Key) : Life (w.item key) a (w'.item key) := by
  cases a with
  | op o =>
    cases step_ran h with
    | @append now args =>
      rw [World.item, World.item, (w.db.append_tables now args).2.1]
      exact .kept
    | call hc => exact Call.life hok hc key
    | claimItem _ hc => exact runClaim_life hc key
    | idle hdb _ =>
      rw [World.item, World.item, hdb]
      exact .kept
  | deleteSubscription u name =>
    obtain rfl := Option.some.inj h
    cases hd : Instructed.deleteSubscription u name w.db.store with
    | error e => exact .kept
    | ok st =>
      obtain ⟨_, _, _, _, -, -, -, -, rfl⟩ := deleteSubscription_ok hd
      exact life_deleteWhere fun _ _ _ => .unsubscribed

theorem rowOk_step (hok : ∀ row ∈ w.db.store.workItems.rows, RowOk row) (h : w.act a = some w') :
    ∀ row ∈ w'.db.store.workItems.rows, RowOk row := by
  intro row hr
  exact (step_life hok h row.pkey).rowOk (fun x hx => hok x (Table.mem_of_find? hx)) row
    (Table.find?_key hr)

theorem rowOk_of_reachable (hw : Reachable (lifecycle (κ := κ)) w) :
    ∀ row ∈ w.db.store.workItems.rows, RowOk row := by
  refine hw.invariant (P := fun v => ∀ row ∈ v.db.store.workItems.rows, RowOk row) ?_
    fun _ _ _ hok _ hstep => rowOk_step hok hstep
  rintro _ rfl row hr
  cases hr

end Step

/-! ## The constraints of the table -/

/-- Every SQLSTATE but that of a `check` constraint. -/
def uncheckedStates : List SqlState :=
  [.IS001, .IS002, .IS003, .IS004, .IS005, .IS010, .IS020, .IS022, .IS030, .invalidParameterValue,
    .invalidTextRepresentation, .numericValueOutOfRange, .notNullViolation, .uniqueViolation]

theorem mem_uncheckedStates {s : SqlState} : s ∈ uncheckedStates ↔ s ≠ .checkViolation := by
  cases s <;> decide

section Checks

variable {st : Store} {proc : String} {a : ItemArgs}

theorem documented_check : Documented uncheckedStates (a.check proc) := by
  rw [ItemArgs.check, documented_bind_iff (documented_notNull (by decide))]
  intro u _
  rw [documented_bind_iff (documented_notEmpty (by decide))]
  intro name _
  rw [documented_bind_iff (documented_notEmpty (by decide))]
  intro worker _
  rw [documented_bind_iff (documented_notNull (by decide))]
  intro p _
  rw [documented_bind_iff (documented_nonNegative (by decide))]
  exact fun n _ => documented_ok _

theorem documented_key {r : ItemRef} : Documented uncheckedStates (r.key proc st) := by
  rw [ItemRef.key, documented_bind_iff (documented_requireStream (by decide))]
  intro stream _
  rw [documented_bind_iff (documented_requireSubscription (by decide))]
  exact fun row _ => documented_ok _

theorem documented_requireHolder {worker : String} {key : Key} :
    Documented uncheckedStates (requireHolder proc worker key st) := by
  unfold requireHolder
  split
  · rw [documented_error]
    show SqlState.IS030 ∈ uncheckedStates
    decide
  · split_ifs
    · exact (documented_raise _ _).mpr (by decide)
    · exact documented_ok _

/-- A row that keeps the rules of its columns is not refused. -/
theorem documented_updateItem {row : WorkItemRow} (h : RowOk row) :
    Documented uncheckedStates (st.updateItem row) := by
  rw [Store.updateItem, if_pos h.checks]
  exact documented_ok _

theorem documented_decisionRow {streamId : ℕ} {name : String} {d : Json} :
    Documented uncheckedStates (decisionRow streamId name d) := by
  unfold decisionRow
  split
  · refine (documented_bind_left fun n => documented_ok _).mpr ?_
    unfold bigintOfNumeric
    split_ifs
    · exact (documented_raise _ _).mpr (by decide)
    · exact documented_ok _
    · exact (documented_raise _ _).mpr (by decide)
  · exact (documented_raise _ _).mpr (by decide)

theorem documented_cursor {s : String} {stream : StreamRow} :
    Documented uncheckedStates (startCursor s stream) := by
  unfold startCursor
  split_ifs
  · exact documented_ok _
  · exact documented_ok _
  · split
    · split_ifs
      · exact (documented_raise _ _).mpr (by decide)
      · exact documented_ok _
    · rename_i e he
      split_ifs
      · exact (documented_raise _ _).mpr (by decide)
      · rw [documented_error]
        rcases bigintOfText_error he with h | h <;> rw [h] <;> decide

/-- **No call is refused by the constraints.** -/
theorem documented_call (c : Call) (hok : ∀ row ∈ st.workItems.rows, RowOk row) :
    Documented uncheckedStates (c.run st) := by
  cases c with
  | claimSubscription now u name worker lease options =>
    rw [Call.run, documented_map, claimSubscription, documented_bind_iff (documented_notNull (by decide))]
    intro u _
    rw [documented_bind_iff (documented_notEmpty (by decide))]
    intro name _
    rw [documented_bind_iff (documented_notEmpty (by decide))]
    intro worker _
    rw [documented_bind_iff (documented_positive (by decide))]
    intro secs _
    dsimp only
    split
    · exact (documented_raise _ _).mpr (by decide)
    · split
      · exact (documented_bind_left fun initial => documented_ok _).mpr documented_cursor
      · split_ifs <;> exact documented_ok _
  | releaseSubscription u name worker =>
    rw [Call.run, documented_map, releaseSubscription,
      documented_bind_iff (documented_notNull (by decide))]
    intro u _
    rw [documented_bind_iff (documented_notEmpty (by decide))]
    intro name _
    rw [documented_bind_iff (documented_notEmpty (by decide))]
    intro worker _
    rw [documented_bind_iff (documented_requireStream (by decide))]
    intro stream _
    rw [documented_bind_iff (documented_requireSubscription (by decide))]
    intro row _
    split_ifs
    · exact (documented_raise _ _).mpr (by decide)
    · exact documented_ok _
  | routeBatch u name worker cursor decisions =>
    rw [Call.run, documented_map, routeBatch, documented_bind_iff (documented_notNull (by decide))]
    intro u _
    rw [documented_bind_iff (documented_notEmpty (by decide))]
    intro name _
    rw [documented_bind_iff (documented_notEmpty (by decide))]
    intro worker _
    rw [documented_bind_iff (documented_nonNegative (by decide))]
    intro cursor _
    have hds : Documented uncheckedStates (decisionsOf decisions) := fun e he =>
      mem_uncheckedStates.mpr fun hstate => by
        have hmem := documented_decisionsOf decisions e he
        rw [hstate] at hmem
        revert hmem
        decide
    rw [documented_bind_iff hds]
    intro ds _
    rw [documented_bind_iff (documented_requireStream (by decide))]
    intro stream _
    rw [documented_bind_iff (documented_requireSubscription (by decide))]
    intro row _
    split_ifs
    · exact (documented_raise _ _).mpr (by decide)
    · refine (documented_bind_left fun items => documented_ok _).mpr fun e he => ?_
      obtain ⟨d, -, hd⟩ := mapM_eq_error he
      exact documented_decisionRow e hd
  | extend now a lease =>
    rw [Call.run, documented_map, extendWorkItemClaim, documented_bind_iff documented_check]
    intro r _
    rw [documented_bind_iff (documented_positive (by decide))]
    intro secs _
    dsimp only
    rw [documented_bind_iff documented_key]
    intro key _
    split
    · rw [documented_error]
      show SqlState.IS030 ∈ uncheckedStates
      decide
    · rename_i row hrow
      split_ifs with hlost
      · exact (documented_raise _ _).mpr (by decide)
      · refine (documented_bind_left fun st' => documented_ok _).mpr (documented_updateItem ?_)
        have hstate : row.state = .claimed := not_not.mp fun hne => hlost (Or.inl hne)
        exact (hok row (Table.mem_of_find? hrow)).extend hstate _
  | completeProjection a =>
    rw [Call.run, documented_map, completeWorkItemProjection, documented_bind_iff documented_check]
    intro r _
    rw [documented_bind_iff documented_key]
    intro key _
    rw [documented_bind_iff documented_requireHolder]
    exact fun row _ => documented_ok _
  | completePm now a s =>
    rw [Call.run, documented_map, completeWorkItemPm, documented_bind_iff documented_check]
    intro r _
    rw [documented_bind_iff (documented_notEmpty (by decide))]
    intro uuid _
    rw [documented_bind_iff (documented_notEmpty (by decide))]
    intro type _
    rw [documented_bind_iff (documented_nonNegative (by decide))]
    intro version _
    rw [documented_bind_iff (documented_notNull (by decide))]
    intro data _
    rw [documented_bind_iff documented_key]
    intro key _
    rw [documented_bind_iff documented_requireHolder]
    intro row hrow
    refine (documented_bind_left fun st' => documented_ok _).mpr (documented_updateItem ?_)
    obtain ⟨hfind, hholder⟩ := requireHolder_ok hrow
    have hrowOk := hok row (Table.mem_of_find? hfind)
    have hstate := hrowOk.holder.mp (by rw [hholder]; rfl)
    exact hrowOk.done hstate
  | fail now a text =>
    rw [Call.run, documented_map, failWorkItem, documented_bind_iff documented_check]
    intro r _
    rw [documented_bind_iff documented_key]
    intro key _
    rw [documented_bind_iff documented_requireHolder]
    exact fun row _ => documented_updateItem (.fail row now text)
  | completePmInstance u name p uuid =>
    rw [Call.run, documented_map, completePmInstance, documented_bind_iff (documented_notNull (by decide))]
    intro u _
    rw [documented_bind_iff (documented_notEmpty (by decide))]
    intro name _
    rw [documented_bind_iff (documented_notNull (by decide))]
    intro p _
    rw [documented_bind_iff (documented_notEmpty (by decide))]
    intro uuid _
    rw [documented_bind_iff (documented_requireStream (by decide))]
    intro stream _
    rw [documented_bind_iff (documented_requireSubscription (by decide))]
    exact fun row _ => documented_ok _

theorem documented_runClaim {now : Timestamp} {snapshot : Store} {locked : WorkItemRow → Bool}
    {u name worker : Option String} {lease : Option ℤ} (hok : ∀ row ∈ st.workItems.rows, RowOk row) :
    Documented uncheckedStates (runClaim now snapshot locked u name worker lease st) := by
  refine (documented_bind_left fun _ => documented_ok _).mpr ?_
  rw [claimWorkItem, documented_bind_iff (documented_notNull (by decide))]
  intro u _
  rw [documented_bind_iff (documented_notEmpty (by decide))]
  intro name _
  rw [documented_bind_iff (documented_notEmpty (by decide))]
  intro worker _
  rw [documented_bind_iff (documented_positive (by decide))]
  intro secs _
  dsimp only
  rw [documented_bind_iff (documented_requireStream (by decide))]
  intro stream _
  rw [documented_bind_iff (documented_requireSubscription (by decide))]
  intro _ _
  split
  · exact documented_ok _
  · rename_i row hrow
    obtain ⟨c, -, hfind, hclaim⟩ := lockCandidate_eq_some hrow
    refine (documented_bind_left fun st' => documented_ok _).mpr (documented_updateItem ?_)
    have hstate : row.state ≠ .failed := by
      rcases claimable_iff_due.mp hclaim with h | ⟨h, -⟩ <;> simp [h]
    exact (hok row (Table.mem_of_find? hfind)).claim hstate _ _

theorem documented_deleteSubscription {u name : Option String} :
    Documented uncheckedStates (deleteSubscription u name st) := by
  rw [deleteSubscription, documented_bind_iff (documented_notNull (by decide))]
  intro u _
  rw [documented_bind_iff (documented_notEmpty (by decide))]
  intro name _
  rw [documented_bind_iff (documented_requireStream (by decide))]
  intro stream _
  rw [documented_bind_iff (documented_requireSubscription (by decide))]
  exact fun row _ => documented_ok _

end Checks

/-! ## Whole lives -/

section Run

variable {κ : Type} [DecidableEq κ] {w w' : World κ} {acts : List (Act κ)}

omit [DecidableEq κ] in
theorem Act.error?_ne (hok : ∀ row ∈ w.db.store.workItems.rows, RowOk row) {a : Act κ} {e : SqlError}
    (h : a.error? w = some e) : e.sqlstate ≠ .checkViolation := by
  rw [← mem_uncheckedStates]
  unfold Act.error? at h
  split at h
  · split at h
    · cases h
    · rename_i he
      cases h
      exact documented_call _ hok _ he
  · split at h
    · rename_i he
      cases h
      obtain ⟨snapshot, -, he⟩ := Option.map_eq_some_iff.mp he
      exact documented_runClaim hok _ he
    · cases h
  · cases h
  · cases h
  · split at h
    · cases h
    · rename_i he
      cases h
      exact documented_deleteSubscription _ he

/-- A run leads each row along a path. -/
theorem run_life (hok : ∀ row ∈ w.db.store.workItems.rows, RowOk row)
    (h : lifecycle.run w acts = some w') (key : Key) : Path Life (w.item key) acts (w'.item key) := by
  induction acts generalizing w with
  | nil =>
    cases h
    exact .nil
  | cons a acts ih =>
    obtain ⟨u, hu, h⟩ := System.run_cons_eq_some.mp h
    exact Path.cons_iff.mpr ⟨_, step_life hok hu key, ih (rowOk_step hok hu) h⟩

/-- A row that is done or failed is kept by a run, until it is deleted. -/
theorem run_finished (hok : ∀ row ∈ w.db.store.workItems.rows, RowOk row)
    (h : lifecycle.run w acts = some w') {key : Key} {row : WorkItemRow}
    (hrow : w.item key = some row) (hstate : row.state = .done ∨ row.state = .failed)
    (hthere : lifecycle.Along (fun u _ => (u.item key).isSome = true) w acts) :
    w'.item key = some row ∨ w'.item key = none := by
  have hrun := hthere.run_invariant (P := fun u : World κ =>
    (∀ row ∈ u.db.store.workItems.rows, RowOk row) ∧ (u.item key = some row ∨ u.item key = none))
    (fun u a u' hu hsome hstep => ?_) h ⟨hok, Or.inl hrow⟩
  · exact hrun.2
  · refine ⟨rowOk_step hu.1 hstep, ?_⟩
    have hitem : u.item key = some row := hu.2.resolve_right fun hnone => by simp [hnone] at hsome
    exact (hitem ▸ step_life hu.1 hstep key).finished hstate

/-- What holds of the work items of a world, now and in every run from it. -/
structure LivesWell (w : World κ) : Prop where
  rows : ∀ row ∈ w.db.store.workItems.rows, RowOk row
  /-- No procedure aborts on the constraints of the table. -/
  unchecked : ∀ (a : Act κ) e, a.error? w = some e → e.sqlstate ≠ .checkViolation
  /-- Every row's life is a path. -/
  life : ∀ acts w', lifecycle.run w acts = some w' → ∀ key, Path Life (w.item key) acts (w'.item key)
  /-- While it is there, a row that is done or failed stays as it is. -/
  finished : ∀ acts w', lifecycle.run w acts = some w' → ∀ key row, w.item key = some row →
    row.state = .done ∨ row.state = .failed →
      lifecycle.Along (fun u _ => (u.item key).isSome = true) w acts →
        w'.item key = some row ∨ w'.item key = none

/-- **The state machine of the work items.** -/
theorem workItem_life (hw : Reachable lifecycle w) : LivesWell w := by
  have hok := rowOk_of_reachable hw
  exact ⟨hok, fun _ _ he => Act.error?_ne hok he, fun _ _ h key => run_life hok h key,
    fun _ _ h _ _ hrow hstate hthere => run_finished hok h hrow hstate hthere⟩

/-- Event 1 is handled by a process manager and event 2 fails. -/
def sampleLife : List (Act ℕ) :=
  let claim (i : ℕ) (now : Timestamp) : Op ℕ :=
    .claimItem i now (fun _ => false) (some "$all") (some "orders") (some "a") (some 5)
  [.op (.call (.claimSubscription 10 (some "$all") (some "orders") (some "r") (some 30) none)),
   .op (.call sampleBatch), .op (.openClaim 0), .op (claim 0 20),
   .op (.call (.completePm 30 (sampleItem "a" 1) ⟨some "pm-p", some "pm", some 1, some .null, none⟩)),
   .op (.openClaim 1), .op (claim 1 40), .op (.call (.fail 50 (sampleItem "a" 2) (some "boom")))]

theorem workItem_life_sampleLife : ∃ w : World ℕ, lifecycle.run World.install sampleLife = some w ∧
    LivesWell w ∧ w.db.store.workItems.rows.map WorkItemRow.state = [.done, .failed] := by
  have hdone : (lifecycle.run World.install sampleLife).map
      (fun w => w.db.store.workItems.rows.map WorkItemRow.state) = some [.done, .failed] := by
    decide +kernel
  obtain ⟨w, hw, hstates⟩ := Option.map_eq_some_iff.mp hdone
  exact ⟨w, hw, workItem_life (Reachable.run (.init rfl) hw), hstates⟩

end Run

end Instructed.Queue
