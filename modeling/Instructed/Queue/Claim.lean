import Instructed.Queue.Frame

/-!
# Which row `claim_work_item` takes

The head of a partition is its lowest-numbered row that is not done. The candidate query filters the
claimable rows by a correlated `not exists`; its candidates are the heads that are pending, or claimed
with an expired lease, and the first of them in the query's order is taken.

* `checks_of_reachable`: every row of a reachable table meets the table's constraints, so the update of
  the candidate is never refused;
* `IsHead`, `Due`, `mem_candidates_iff`: the candidates are the heads that are due;
* `HeadTaken`, `claimWorkItem_head`: what the call returns, and what it changes.
-/

namespace Instructed.Queue

open Sql Relational Transition

/-! ## The constraints of the table -/

section Checks

variable {κ : Type} [DecidableEq κ] {w w' : World κ} {op : Op κ} {st st' : Store} {es : List Event}

/-- Every row meets the `check` constraints. -/
def ChecksOk (st : Store) : Prop := ∀ row ∈ st.workItems.rows, row.checks = true

theorem ChecksOk.put (h : ChecksOk st) {row : WorkItemRow} (hrow : row.checks = true) :
    ChecksOk { st with workItems := st.workItems.put row } := by
  intro x hx
  rcases Table.mem_put.mp hx with rfl | ⟨hx, -⟩
  · exact hrow
  · exact h x hx

/-- A change keeps the constraints, as far as the rows that it does not insert go. -/
theorem Change.checksOk (h : Change st st' es) (hok : ChecksOk st)
    (hnew : ∀ row ∈ st'.workItems.rows, .inserted row.pkey ∈ es → row.checks = true) :
    ChecksOk st' := by
  cases h with
  | same _ hitems _ =>
    intro row hr
    exact hok row (hitems ▸ hr)
  | subscription _ => exact hok
  | routed _ _ _ =>
    intro row hr
    have hmem := hr
    rcases Table.mem_of_mem_insertAllNew hr with hold | ⟨-, hnone⟩
    · exact hok row hold
    · exact hnew row hmem (List.mem_map_of_mem (mem_insertedKeys hmem hnone))
  | extended _ _ hchecks => exact hok.put hchecks
  | claimed _ _ hchecks => exact hok.put hchecks
  | deleted _ _ => exact fun row hr => hok row (Table.mem_deleteWhere.mp hr).1
  | done _ _ hchecks => exact hok.put hchecks
  | failed _ _ _ _ _ hchecks => exact hok.put hchecks
  | instanceDeleted hst =>
    subst hst
    exact fun row hr => hok row (Table.mem_deleteWhere.mp hr).1

theorem Call.run_checksOk {c : Call} (h : c.run st = .ok (st', es)) (hok : ChecksOk st) :
    ChecksOk st' := by
  cases c with
  | routeBatch u name worker cursor decisions =>
    obtain ⟨⟨r, s⟩, hr, heq⟩ := map_eq_ok.mp h
    cases heq
    obtain ⟨_, _, _, _, _, _, _, items, -, -, -, -, -, -, -, -, hitems, -, rfl⟩ := routeBatch_ok hr
    intro row hrow
    rcases Table.mem_of_mem_insertAllNew hrow with hold | ⟨hitem, -⟩
    · exact hok row hold
    · obtain ⟨d, -, hd⟩ := mem_of_mapM_ok hitems hitem
      obtain ⟨p, n, rfl⟩ := decisionRow_ok hd
      rfl
  | _ =>
    refine (run_change h).1.checksOk hok fun row _ hmem => ?_
    obtain ⟨r, -, heq⟩ := map_eq_ok.mp h
    cases heq
    simp at hmem

theorem step_checksOk (h : step w op = some w') (hok : ChecksOk w.db.store) :
    ChecksOk w'.db.store := by
  cases step_ran h with
  | @append now a =>
    intro row hr
    exact hok row ((w.db.append_tables now a).2.1 ▸ hr)
  | call hc => exact Call.run_checksOk hc hok
  | claimItem _ hc =>
    refine (runClaim_change hc).1.checksOk hok fun row _ hmem => ?_
    exact absurd rfl ((runClaim_frame hc row.pkey.1).2 row.pkey hmem)
  | idle hdb _ => exact hdb ▸ hok

/-- **The rows of a reachable table meet its constraints.** -/
theorem checks_of_reachable (hw : Reachable (system (κ := κ)) w) : ChecksOk w.db.store := by
  refine hw.invariant (P := fun v => ChecksOk v.db.store) ?_ fun _ _ _ hok _ hs =>
    step_checksOk hs hok
  rintro _ rfl row hr
  cases hr

end Checks

/-! ## Heads -/

section Heads

variable {st : Store} {sub : ℕ × String} {row : WorkItemRow} {now : Timestamp}

/-- The lowest-numbered row of a partition of `sub` that is not done. -/
structure IsHead (st : Store) (sub : ℕ × String) (row : WorkItemRow) : Prop where
  mem : row ∈ st.workItems.rows
  subscription : row.subscription = sub
  not_done : row.state ≠ .done
  lowest : ∀ other ∈ st.workItems.rows, lane other = lane row → other.state ≠ .done →
    row.eventNumber ≤ other.eventNumber

/-- Pending, or claimed with an expired lease. -/
def Due (now : Timestamp) (row : WorkItemRow) : Prop :=
  row.state = .pending ∨
    row.state = .claimed ∧ ∃ expires, row.leaseExpiresAt = some expires ∧ expires < now

/-- Claimed with a live lease. -/
def Live (now : Timestamp) (row : WorkItemRow) : Prop :=
  row.state = .claimed ∧ ∃ expires, row.leaseExpiresAt = some expires ∧ now ≤ expires

theorem claimable_iff_due : row.claimable now = true ↔ Due now row := by
  unfold WorkItemRow.claimable Due
  split <;> simp_all

theorem outstanding_iff {s : WorkItemState} : s.outstanding = true ↔ s ≠ .done := by
  cases s <;> simp [WorkItemState.outstanding]

/-- A row that is not done is the head of its partition when no earlier row blocks it. -/
theorem isHead_iff (hmem : row ∈ st.workItems.rows) (hsub : row.subscription = sub)
    (hdone : row.state ≠ .done) : IsHead st sub row ↔ st.blocked row = false := by
  rw [blocked_eq_false]
  constructor
  · intro h other ho hsub' hp hlt
    by_contra hout
    have hle := h.lowest other ho (Prod.ext hsub' hp) (outstanding_iff.mp (by simpa using hout))
    omega
  · intro h
    refine ⟨hmem, hsub, hdone, fun other ho hlane hne => ?_⟩
    by_contra hlt
    have hout := h other ho (congrArg Prod.fst hlane) (congrArg Prod.snd hlane) (by omega)
    rw [outstanding_iff.mpr hne] at hout
    cases hout

/-- **The candidates are the heads that are due.** -/
theorem mem_candidates_iff : row ∈ st.candidates sub now ↔ IsHead st sub row ∧ Due now row := by
  rw [mem_candidates, claimable_iff_due]
  constructor
  · rintro ⟨hmem, hsub, hdue, hblocked⟩
    have hdone := outstanding_iff.mp (claimable_outstanding (claimable_iff_due.mpr hdue))
    exact ⟨(isHead_iff hmem hsub hdone).mpr hblocked, hdue⟩
  · rintro ⟨hhead, hdue⟩
    have hblocked := (isHead_iff hhead.mem hhead.subscription hhead.not_done).mp hhead
    exact ⟨hhead.mem, hhead.subscription, hdue, hblocked⟩

/-- The candidates come in the order of their numbers. -/
theorem candidates_pairwise :
    (st.candidates sub now).Pairwise fun a b => a.eventNumber ≤ b.eventNumber := by
  unfold Store.candidates
  refine (List.pairwise_mergeSort ?_ ?_ _).imp fun h => of_decide_eq_true h
  · intro a b c hab hbc
    simp only [decide_eq_true_eq] at hab hbc ⊢
    omega
  · intro a b
    simp only [Bool.or_eq_true, decide_eq_true_eq]
    omega

/-- The first candidate has the smallest number. -/
theorem le_of_head? {other : WorkItemRow} (h : (st.candidates sub now).head? = some row)
    (hother : other ∈ st.candidates sub now) : row.eventNumber ≤ other.eventNumber := by
  have hpair : (st.candidates sub now).Pairwise fun a b => a.eventNumber ≤ b.eventNumber :=
    candidates_pairwise
  obtain ⟨cs, hcs⟩ := List.head?_eq_some_iff.mp h
  rw [hcs] at hpair hother
  rcases List.mem_cons.mp hother with rfl | hother
  · exact le_rfl
  · exact (List.pairwise_cons.mp hpair).1 other hother

/-- With nothing locked, the first candidate is taken. -/
theorem lockCandidate_eq_head? : st.lockCandidate now (fun _ => false) (st.candidates sub now) =
    (st.candidates sub now).head? := by
  cases hc : st.candidates sub now with
  | nil => rfl
  | cons c cs =>
    have hmem := mem_candidates.mp (hc ▸ List.mem_cons_self : c ∈ st.candidates sub now)
    have hfind : st.workItems.find? c.pkey = some c := Table.find?_key hmem.1
    simp [Store.lockCandidate, hfind, hmem.2.2.1]

/-- A row that is due may be claimed under the table's constraints. -/
theorem checks_claimed (h : row.checks = true) (hdue : Due now row) (worker : String)
    (expires : Timestamp) : ({ row with
      state := .claimed, claimedBy := some worker,
      leaseExpiresAt := some expires } : WorkItemRow).checks = true := by
  have hfailed : row.state ≠ .failed := by
    rcases hdue with hs | ⟨hs, -⟩ <;> rw [hs] <;> decide
  simp only [WorkItemRow.checks, Bool.and_eq_true, hfailed, decide_false, Bool.or_false] at h ⊢
  simp_all

/-- A row that is neither done nor due is failed, or its lease is live. -/
theorem failed_or_live (h : row.checks = true) (hdone : row.state ≠ .done) (hnot : ¬ Due now row) :
    row.state = .failed ∨ Live now row := by
  cases hs : row.state with
  | pending => exact absurd (Or.inl hs) hnot
  | claimed =>
    right
    have hlease : row.leaseExpiresAt.isSome = true := by
      simp [WorkItemRow.checks, hs] at h
      exact h.1.1.2
    obtain ⟨expires, he⟩ := Option.isSome_iff_exists.mp hlease
    refine ⟨hs, expires, he, ?_⟩
    by_contra hlt
    exact hnot (Or.inr ⟨hs, expires, he, lt_of_not_ge hlt⟩)
  | failed => exact Or.inl rfl
  | done => exact absurd hs hdone

theorem not_due (h : row.state = .failed ∨ Live now row) : ¬ Due now row := by
  rintro (hs | ⟨hs, expires, he, hlt⟩)
  · rcases h with h | ⟨h, -⟩ <;> rw [hs] at h <;> cases h
  · rcases h with h | ⟨-, expires', he', hle⟩
    · rw [hs] at h
      cases h
    · obtain rfl := Option.some.inj (he.symm.trans he')
      exact absurd hlt (not_lt.mpr hle)

end Heads

/-! ## The call -/

/-- The call took the head `row`, and returned `it`. -/
structure HeadTaken (st st' : Store) (sub : ℕ × String) (worker : String) (now expires : Timestamp)
    (it : ClaimedItem) (row : WorkItemRow) : Prop where
  head : IsHead st sub row
  due : Due now row
  smallest : ∀ other, IsHead st sub other → Due now other → row.eventNumber ≤ other.eventNumber
  item : it.partitionKey = row.partitionKey ∧ it.eventNumber = row.eventNumber ∧
    it.claimedBy = worker ∧ it.leaseExpiresAt = expires
  takeover : it.wasTakeover = true ↔ ∃ holder, row.claimedBy = some holder ∧ holder ≠ worker
  prior : ∀ holder, it.priorClaimedBy = some holder ↔ row.claimedBy = some holder ∧ holder ≠ worker
  written : st'.workItems.find? row.pkey = some { row with
    state := .claimed, claimedBy := some worker, leaseExpiresAt := some expires }
  others : ∀ key, key ≠ row.pkey → st'.workItems.find? key = st.workItems.find? key
  frame : st' = { st with workItems := st'.workItems }

section Call

variable {κ : Type} [DecidableEq κ] {w : World κ} {u name worker : String} {now : Timestamp} {secs : ℤ}
  {sub : SubscriptionRow}

/-- **`claim_work_item` takes the right row.** -/
theorem claimWorkItem_head (hw : Reachable (system (κ := κ)) w)
    (hsub : subscription w.db.store u name = some sub) (hname : name ≠ "") (hworker : worker ≠ "")
    (hsecs : 0 < secs) :
    ∃ item st', claimWorkItem now w.db.store (fun _ => false) (some u) (some name) (some worker)
        (some secs) w.db.store = .ok (item, st') ∧
      (item.isSome = true ↔ ∃ row, IsHead w.db.store sub.pkey row ∧ Due now row) ∧
      (item = none ↔ ∀ row, IsHead w.db.store sub.pkey row → row.state = .failed ∨ Live now row) ∧
      (item = none → st' = w.db.store) ∧
      ∀ it, item = some it → ∃ row,
        HeadTaken w.db.store st' sub.pkey worker now (addSeconds now secs) it row := by
  have hok := checks_of_reachable hw
  obtain ⟨stream, hstream, hfind, hpkey⟩ : ∃ stream, w.db.store.streamByUuid u = some stream ∧
      w.db.store.subscriptions.find? (stream.streamId, name) = some sub ∧
        sub.pkey = (stream.streamId, name) := by
    obtain ⟨key, hkey, hfind⟩ := Option.bind_eq_some_iff.mp hsub
    obtain ⟨stream, hstream, rfl⟩ := Option.map_eq_some_iff.mp hkey
    exact ⟨stream, hstream, hfind, Table.key_of_find? hfind⟩
  have hlock : w.db.store.lockCandidate now (fun _ => false) (w.db.store.candidates sub.pkey now) =
      (w.db.store.candidates sub.pkey now).head? := lockCandidate_eq_head?
  cases hhead : (w.db.store.candidates sub.pkey now).head? with
  | none =>
    have hnone : ∀ row, IsHead w.db.store sub.pkey row → ¬ Due now row := by
      intro row hrow hdue
      have hmem := mem_candidates_iff.mpr ⟨hrow, hdue⟩
      rw [List.head?_eq_none_iff.mp hhead] at hmem
      cases hmem
    refine ⟨none, w.db.store, ?_, ?_, ?_, fun _ => rfl, fun _ h => nomatch h⟩
    · rw [hhead, hpkey] at hlock
      simp [claimWorkItem, notNull, notEmpty_of_ne hname, notEmpty_of_ne hworker,
        positive_of_pos hsecs, requireStream, hstream, requireSubscription, hfind, hlock, bind,
        Except.bind, pure, Except.pure]
    · simpa using hnone
    · refine iff_of_true rfl fun row hrow => ?_
      exact failed_or_live (hok row hrow.mem) hrow.not_done (hnone row hrow)
  | some row =>
    obtain ⟨hrow, hdue⟩ := mem_candidates_iff.mp (List.mem_of_head? hhead)
    have hchecks := checks_claimed (hok row hrow.mem) hdue worker (addSeconds now secs)
    have hrun : claimWorkItem now w.db.store (fun _ => false) (some u) (some name) (some worker)
        (some secs) w.db.store = .ok (some ⟨row.partitionKey, row.eventNumber, worker,
          addSeconds now secs, (row.claimedBy.filter fun holder => holder ≠ worker).isSome,
          row.claimedBy.filter fun holder => holder ≠ worker⟩, { w.db.store with
        workItems := w.db.store.workItems.put { row with
          state := .claimed, claimedBy := some worker,
          leaseExpiresAt := some (addSeconds now secs) } }) := by
      rw [hhead, hpkey] at hlock
      simp [claimWorkItem, notNull, notEmpty_of_ne hname, notEmpty_of_ne hworker,
        positive_of_pos hsecs, requireStream, hstream, requireSubscription, hfind, hlock,
        Store.updateItem, hchecks, bind, Except.bind, pure, Except.pure]
    refine ⟨_, _, hrun, ?_, ?_, by simp, ?_⟩
    · exact iff_of_true rfl ⟨row, hrow, hdue⟩
    · exact iff_of_false (by simp) fun h => not_due (h row hrow) hdue
    · rintro it ⟨rfl⟩
      refine ⟨row, hrow, hdue, ?_, ⟨rfl, rfl, rfl, rfl⟩, ?_, ?_, ?_, ?_, rfl⟩
      · exact fun other ho hd => le_of_head? hhead (mem_candidates_iff.mpr ⟨ho, hd⟩)
      · cases row.claimedBy <;> simp
      · simp [Option.filter_eq_some_iff]
      · exact (Table.find?_put ..).trans (if_pos rfl)
      · intro key hne
        exact (Table.find?_put ..).trans (if_neg fun h => hne h.symm)

theorem claimWorkItem_head_sampleRun : ∃ (w : World ℕ) (sub : SubscriptionRow),
    system.run World.install (sampleRun.take 2) = some w ∧
      ∃ item st', claimWorkItem 20 w.db.store (fun _ => false) (some "$all") (some "orders") (some "a")
        (some 5) w.db.store = .ok (item, st') ∧
        (item.isSome = true ↔ ∃ row, IsHead w.db.store sub.pkey row ∧ Due 20 row) := by
  have hrun : ((system.run (World.install : World ℕ) (sampleRun.take 2)).bind fun w =>
      (subscription w.db.store "$all" "orders").map fun sub => sub.claimedBy) = some (some "r") := by
    decide +kernel
  obtain ⟨w, hw, hrun⟩ := Option.bind_eq_some_iff.mp hrun
  obtain ⟨sub, hsub, -⟩ := Option.map_eq_some_iff.mp hrun
  obtain ⟨item, st', hclaim, hsome, -⟩ := @claimWorkItem_head ℕ _ w "$all" "orders" "a" 20 5
    sub (Reachable.run (.init rfl) hw) hsub (by decide) (by decide) (by decide)
  exact ⟨w, sub, hw, item, st', hclaim, hsome⟩

end Call

end Instructed.Queue
