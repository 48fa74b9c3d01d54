import Instructed.Locks.Procedures
import Mathlib.Data.Prod.Lex
import Mathlib.Data.String.Basic

/-!
# Freedom from deadlock

Every procedure locks in the order `Row.Before`: subscriptions, their work items, a snapshot; or
a subscription, a stream, `$all`. What `append_to_stream` inserts afterwards it locks under `$all`, which
it holds alone.

* `lockRow_held`, `lockRow_after`, `lockAll_items`, `insertAll_guarded`: the statements;
* `Call.disciplined`: every procedure keeps the order;
* `deadlock_free`: **the calls of any number of sessions never wait for each other in a circle.**
-/

namespace Instructed.Locks

open Sql Relational Locking Transition

/-! ## Modes and rows -/

theorem Mode.conflicts_symm (a b : Mode) : a.conflicts b = b.conflicts a := by
  cases a <;> cases b <;> rfl

theorem covers_update (m : Mode) : Covers Mode.conflicts .update m := by
  intro k _
  cases k <;> rfl

theorem covers_keyShare (m : Mode) : Covers Mode.conflicts m .keyShare := by
  intro k hk
  cases k with
  | update => rfl
  | _ => cases hk

section Order

variable {order : KeyOrder}

theorem Row.not_before_self (a : Row) : ¬ Row.Before order a a := by
  intro h
  cases h with
  | table hlt => exact lt_irrefl _ hlt
  | key _ hne => exact hne rfl

theorem Row.Before.trans {a b c : Row} (hab : Row.Before order a b) (hbc : Row.Before order b c) :
    Row.Before order a c := by
  cases hab with
  | table hlt =>
    cases hbc with
    | table hlt' => exact .table (hlt.trans hlt')
    | key _ _ => exact .table hlt
  | key hle hne =>
    cases hbc with
    | table hlt' => exact .table hlt'
    | key hle' hne' =>
      refine .key (order.trans _ _ _ hle hle') ?_
      rintro rfl
      exact hne (order.antisymm _ _ hle hle')

end Order

/-! ## Statements -/

section Statements

variable {order : KeyOrder} {held : List (Lock Row Mode)} {row : Row} {mode m : Mode}
  {next : LockProgram}

variable (order) in
/-- The program keeps the order, from the locks `held` on. -/
abbrev Kept (held : List (Lock Row Mode)) (p : LockProgram) : Prop :=
  Disciplined Mode.conflicts allGuard (Row.Before order) held p

theorem guarded_of_none (h : allGuard row = none) : Guarded allGuard held row := by
  intro g hg
  rw [h] at hg
  cases hg

theorem checked_kept {α : Type} {x : Except SqlError α} {f : α → LockProgram}
    (h : ∀ a, Kept order held (f a)) : Kept order held (checked x f) := by
  cases x with
  | ok a => exact h a
  | error e => exact trivial

/-- A row that is locked already. -/
theorem lockRow_held (hguard : allGuard row = none) (hheld : ⟨row, m⟩ ∈ held)
    (hcovers : Covers Mode.conflicts m mode) (h : Kept order (⟨row, mode⟩ :: held) next) :
    Kept order held (lockRow row mode next) :=
  ⟨guarded_of_none hguard, Or.inr (Or.inl ⟨_, hheld, rfl, hcovers⟩), h, trivial⟩

/-- A row of a later table than all rows held. -/
theorem lockRow_after (hguard : allGuard row = none) (htable : ∀ l ∈ held, l.row.table < row.table)
    (h : Kept order (⟨row, mode⟩ :: held) next) : Kept order held (lockRow row mode next) :=
  ⟨guarded_of_none hguard, Or.inr (Or.inr fun l hl => .table (htable l hl)), h, trivial⟩

/-- Rows whose key shares are implied by what is held. -/
theorem lockAll_keyShare {rows : List Row}
    (hheld : ∀ r ∈ rows, Guarded allGuard held r ∧ ∃ l ∈ held, l.row = r)
    (h : ∀ held', held ⊆ held' → Kept order held' next) :
    Kept order held (lockAll .keyShare rows next) := by
  induction rows generalizing held with
  | nil => exact h held (List.Subset.refl _)
  | cons r rows ih =>
    obtain ⟨hguard, l, hl, hrow⟩ := hheld r List.mem_cons_self
    have htail : ∀ r ∈ rows, Guarded allGuard held r ∧ ∃ l ∈ held, l.row = r :=
      fun r hr => hheld r (List.mem_cons_of_mem _ hr)
    refine ⟨hguard, Or.inr (Or.inl ⟨l, hl, hrow, covers_keyShare _⟩), ?_, ih htail h⟩
    refine ih (fun r hr => ?_) fun held' hsub => h held' fun x hx => hsub (List.mem_cons_of_mem _ hx)
    obtain ⟨hguard', l', hl', hrow'⟩ := htail r hr
    exact ⟨hguard'.cons, l', List.mem_cons_of_mem _ hl', hrow'⟩

/-- Work items in key order, behind rows of earlier tables and work items with smaller keys. -/
theorem lockAll_items {keys : List ItemKey}
    (hsorted : keys.Pairwise fun a b => order.le a b = true)
    (hheld : ∀ l ∈ held, l.row.table = 0 ∨
      ∃ k, l = ⟨.workItem k, .update⟩ ∧ ∀ key ∈ keys, order.le k key = true)
    (h : ∀ held', held ⊆ held' → (∀ l ∈ held', l.row.table ≤ 1) → Kept order held' next) :
    Kept order held (lockAll .update (keys.map .workItem) next) := by
  induction keys generalizing held with
  | nil =>
    refine h held (List.Subset.refl _) fun l hl => ?_
    rcases hheld l hl with h0 | ⟨k, rfl, -⟩
    · omega
    · exact le_rfl
  | cons key keys ih =>
    obtain ⟨hle, hsorted⟩ := List.pairwise_cons.mp hsorted
    have htail : ∀ l ∈ held, l.row.table = 0 ∨
        ∃ k, l = ⟨.workItem k, .update⟩ ∧ ∀ key ∈ keys, order.le k key = true := by
      intro l hl
      refine (hheld l hl).imp_right ?_
      rintro ⟨k, rfl, hk⟩
      exact ⟨k, rfl, fun key hkey => hk key (List.mem_cons_of_mem _ hkey)⟩
    refine ⟨guarded_of_none rfl, Or.inr ?_, ih hsorted ?_ fun held' hsub => ?_, ih hsorted htail h⟩
    · by_cases hmem : ⟨Row.workItem key, Mode.update⟩ ∈ held
      · exact Or.inl ⟨_, hmem, rfl, covers_update _⟩
      · refine Or.inr fun l hl => ?_
        rcases hheld l hl with h0 | ⟨k, rfl, hk⟩
        · exact .table (h0 ▸ Nat.zero_lt_one)
        · refine .key (hk key List.mem_cons_self) ?_
          rintro rfl
          exact hmem hl
    · intro l hl
      rcases List.mem_cons.mp hl with rfl | hl
      · exact Or.inr ⟨key, rfl, hle⟩
      · exact htail l hl
    · exact h held' fun x hx => hsub (List.mem_cons_of_mem _ hx)

theorem lockAll_sorted {keys : List ItemKey}
    (hheld : ∀ l ∈ held, l.row.table = 0)
    (h : ∀ held', held ⊆ held' → (∀ l ∈ held', l.row.table ≤ 1) → Kept order held' next) :
    Kept order held (lockAll .update (order.sorted keys) next) := by
  refine lockAll_items ?_ (fun l hl => Or.inl (hheld l hl)) h
  exact List.pairwise_mergeSort order.trans order.total keys

/-- Rows that are inserted under the lock on `$all`. -/
theorem insertAll_guarded {rows : List Row}
    (hrows : ∀ r ∈ rows, allGuard r = some ⟨.stream "$all", .noKeyUpdate⟩)
    (hheld : ⟨.stream "$all", .noKeyUpdate⟩ ∈ held)
    (h : ∀ held', held ⊆ held' → (∀ r ∈ rows, ⟨r, .update⟩ ∈ held') → Kept order held' next) :
    Kept order held (insertAll rows next) := by
  induction rows generalizing held with
  | nil => exact h held (List.Subset.refl _) fun r hr => absurd hr List.not_mem_nil
  | cons r rows ih =>
    have hguard := hrows r List.mem_cons_self
    refine ⟨fun g hg => ?_, Or.inl (Option.isSome_iff_exists.mpr ⟨_, hguard⟩), ?_, trivial⟩
    · obtain rfl := Option.some.inj (hguard.symm.trans hg)
      exact hheld
    · refine ih (fun r hr => hrows r (List.mem_cons_of_mem _ hr)) (List.mem_cons_of_mem _ hheld) ?_
      intro held' hsub hall
      refine h held' (fun x hx => hsub (List.mem_cons_of_mem _ hx)) fun x hx => ?_
      rcases List.mem_cons.mp hx with rfl | hx
      · exact hsub List.mem_cons_self
      · exact hall x hx

end Statements

/-! ## `append_to_stream` -/

section Append

variable {order : KeyOrder} {r : AppendRequest} {held : List (Lock Row Mode)} {next : StreamRow → LockProgram}

theorem written_kept (h : ∀ row, Kept order held (next row)) : Kept order held (written r next) :=
  fun _ => checked_kept h

/-- The row of the target is locked alone, once or twice. -/
theorem resolveStream_kept
    (h : ∀ held row, (∀ l ∈ held, l.row = .stream r.streamUuid) → held ≠ [] → Kept order held (next row)) :
    Kept order [] (resolveStream r next) := by
  have hone : ∀ m row, Kept order [⟨.stream r.streamUuid, m⟩] (next row) := fun m row =>
    h _ row (by simp) (by simp)
  have htwo : ∀ m m' row, Kept order [⟨.stream r.streamUuid, m⟩, ⟨.stream r.streamUuid, m'⟩] (next row) :=
    fun m m' row => h _ row (by simp) (by simp)
  have hlock : ∀ m, Kept order [] (lockRow (.stream r.streamUuid) m (written r next)) := fun m =>
    lockRow_after rfl (by simp) (written_kept (hone m))
  unfold resolveStream
  split
  · exact ⟨guarded_of_none rfl, Or.inr (Or.inr (by simp)), written_kept (hone _), hlock _⟩
  · exact hlock _
  · exact hlock _
  · refine ⟨guarded_of_none rfl, Or.inr (Or.inr (by simp)), written_kept fun row => ?_, ?_⟩
    · exact lockRow_held rfl List.mem_cons_self (covers_update _) (htwo _ _ row)
    · dsimp only
      rw [if_neg Bool.false_ne_true]
      split_ifs
      · exact hlock _
      · exact trivial

theorem insertEvents_kept {now : Timestamp} {priority : Row → ℕ} {row all : StreamRow}
    (hall : ⟨.stream "$all", .noKeyUpdate⟩ ∈ held)
    (htarget : ∃ l ∈ held, l.row = .stream r.streamUuid) :
    Kept order held (insertEvents now priority r row all) := by
  refine checked_kept fun es => insertAll_guarded (fun x hx => ?_) hall fun held' hsub hnew => ?_
  · rw [List.mem_mergeSort, List.mem_append, List.mem_append, List.mem_map, List.mem_map,
      List.mem_map] at hx
    rcases hx with (⟨e, -, rfl⟩ | ⟨l, -, rfl⟩) | ⟨l, -, rfl⟩ <;> rfl
  · refine lockAll_keyShare (fun x hx => ?_) fun _ _ => trivial
    rcases List.mem_append.mp hx with hx | hx
    · -- An event that this statement inserted.
      obtain ⟨e, he, rfl⟩ := List.mem_map.mp hx
      refine ⟨fun g hg => ?_, ⟨.event e.eventId, .update⟩, hnew _ ?_, rfl⟩
      · obtain rfl := Option.some.inj hg
        exact hsub hall
      · rw [List.mem_mergeSort, List.mem_append, List.mem_append]
        exact Or.inl (Or.inl (List.mem_map_of_mem he))
    · rcases List.mem_cons.mp hx with rfl | hx
      · obtain ⟨l, hl, hrow⟩ := htarget
        exact ⟨guarded_of_none rfl, l, hsub hl, hrow⟩
      · rw [List.mem_singleton] at hx
        subst hx
        exact ⟨guarded_of_none rfl, _, hsub hall, rfl⟩

theorem appendToStream_kept (now : Timestamp) (priority : Row → ℕ) (a : AppendArgs) :
    Kept order [] (appendToStream now priority a) := by
  refine checked_kept fun r => resolveStream_kept fun held row htarget hne => ?_
  have htable : ∀ l ∈ held, l.row.table < (Row.stream "$all").table := by
    intro l hl
    rw [htarget l hl]
    simp [Row.table, r.not_all]
  refine lockRow_after rfl htable fun db => checked_kept fun all => ?_
  obtain ⟨l, hl⟩ := List.exists_mem_of_ne_nil held hne
  exact insertEvents_kept List.mem_cons_self ⟨l, List.mem_cons_of_mem _ hl, htarget l hl⟩

end Append

/-! ## The other procedures -/

section Procedures

variable {order : KeyOrder} {held : List (Lock Row Mode)}

theorem upsertSnapshot_kept {u : String} (h : ∀ l ∈ held, l.row.table < 2) :
    Kept order held (upsertSnapshot u) :=
  ⟨guarded_of_none rfl, Or.inr (Or.inr fun l hl => .table (h l hl)), trivial,
    lockRow_after rfl h trivial⟩

theorem recordSnapshot_kept (now : Timestamp) (u t : Option String) (v : Option ℤ)
    (data metadata : Option Json) : Kept order [] (recordSnapshot now u t v data metadata) :=
  fun _ => checked_kept fun _ => checked_kept fun _ => upsertSnapshot_kept (by simp)

theorem deleteSnapshot_kept (u : Option String) : Kept order [] (deleteSnapshot u) :=
  checked_kept fun _ => lockRow_after rfl (by simp) trivial

theorem reclaim_kept {now : Timestamp} {worker : String} {key : ℕ × String} :
    Kept order [] (reclaim now worker key) := by
  refine ⟨guarded_of_none rfl, fun db => ?_, trivial⟩
  dsimp only
  split
  · split_ifs
    · exact lockRow_held rfl List.mem_cons_self (covers_update _) trivial
    · exact trivial
  · exact trivial

theorem claimSubscription_kept (now : Timestamp) (u name worker : Option String) (lease : Option ℤ)
    (options : Option Json) : Kept order [] (claimSubscription now u name worker lease options) := by
  refine checked_kept fun u => checked_kept fun name => checked_kept fun worker =>
    checked_kept fun _ db => ?_
  dsimp only
  split
  · exact trivial
  · intro db
    dsimp only
    split
    · refine checked_kept fun _ => ⟨guarded_of_none rfl, Or.inr (Or.inr (by simp)), ?_, reclaim_kept⟩
      refine lockRow_after rfl ?_ trivial
      simp only [List.mem_singleton, forall_eq, Row.table]
      split_ifs <;> omega
    · split_ifs
      · exact trivial
      · exact reclaim_kept

theorem releaseSubscription_kept (u name worker : Option String) :
    Kept order [] (releaseSubscription u name worker) := by
  refine checked_kept fun u => checked_kept fun name => checked_kept fun worker db =>
    checked_kept fun stream => lockRow_after rfl (by simp) fun db => checked_kept fun row => ?_
  split_ifs
  · exact trivial
  · exact lockRow_held rfl List.mem_cons_self (covers_update _) trivial

theorem deleteSubscription_kept (u name : Option String) :
    Kept order [] (deleteSubscription order u name) := by
  refine checked_kept fun u => checked_kept fun name db => checked_kept fun stream =>
    lockRow_after rfl (by simp) fun db => ?_
  exact lockAll_sorted (by simp [Row.table]) fun _ _ _ => trivial

theorem routeBatch_kept (u name worker : Option String) (cursor : Option ℤ)
    (decisions : Option Json) : Kept order [] (routeBatch order u name worker cursor decisions) := by
  refine checked_kept fun u => checked_kept fun name => checked_kept fun worker =>
    checked_kept fun _ => checked_kept fun ds db => checked_kept fun stream =>
    lockRow_after rfl (by simp) fun db => checked_kept fun row => ?_
  split_ifs
  · exact trivial
  · refine checked_kept fun items => lockAll_sorted (by simp [Row.table]) fun held hsub _ => ?_
    have hsub' := hsub List.mem_cons_self
    refine lockAll_keyShare (fun x hx => ?_) fun held' hheld => ?_
    · obtain ⟨_, -, rfl⟩ := List.mem_map.mp hx
      exact ⟨guarded_of_none rfl, _, hsub', rfl⟩
    · exact lockRow_held rfl (hheld hsub') (covers_update _) trivial

theorem lockCandidate_kept {now : Timestamp} (candidates : List WorkItemRow) :
    Kept order held (lockCandidate now candidates) := by
  induction candidates generalizing held with
  | nil => exact trivial
  | cons c candidates ih =>
    refine ⟨guarded_of_none rfl, fun db => ?_, ih⟩
    dsimp only
    split_ifs
    · exact lockRow_held rfl List.mem_cons_self (covers_update _) trivial
    · exact ih

theorem claimWorkItem_kept (now : Timestamp) (u name worker : Option String) (lease : Option ℤ) :
    Kept order [] (claimWorkItem now u name worker lease) :=
  checked_kept fun _ => checked_kept fun _ => checked_kept fun _ => checked_kept fun _ _ =>
    checked_kept fun _ _ => checked_kept fun _ _ => lockCandidate_kept _

theorem lockItem_kept {proc : String} {r : ItemRef}
    {next : ItemKey → LockProgram}
    (h : ∀ key, Kept order [⟨.workItem key, .update⟩] (next key)) : Kept order [] (lockItem proc r next) :=
  fun _ => checked_kept fun key => lockRow_after rfl (by simp) (h key)

theorem verified_kept {proc : String} {r : ItemRef} {key : ItemKey}
    {next : LockProgram} (h : Kept order held next) : Kept order held (verified proc r key next) :=
  fun _ => checked_kept fun _ => h

theorem completeWorkItemProjection_kept (a : ItemArgs) : Kept order [] (completeWorkItemProjection a) :=
  checked_kept fun _ => lockItem_kept fun _ => verified_kept <|
    lockRow_held rfl List.mem_cons_self (covers_update _) trivial

theorem completeWorkItemPm_kept (a : ItemArgs) (s : PmSnapshotArgs) :
    Kept order [] (completeWorkItemPm a s) :=
  checked_kept fun _ => checked_kept fun _ => checked_kept fun _ => checked_kept fun _ =>
    checked_kept fun _ => lockItem_kept fun _ => verified_kept <|
    lockRow_held rfl List.mem_cons_self (covers_update _) <|
    upsertSnapshot_kept (by simp [Row.table])

theorem failWorkItem_kept (a : ItemArgs) : Kept order [] (failWorkItem a) :=
  checked_kept fun _ => lockItem_kept fun _ => verified_kept <|
    lockRow_held rfl List.mem_cons_self (covers_update _) trivial

theorem extendWorkItemClaim_kept (a : ItemArgs) (lease : Option ℤ) :
    Kept order [] (extendWorkItemClaim a lease) := by
  refine checked_kept fun r => checked_kept fun _ => lockItem_kept fun key db => ?_
  dsimp only
  split
  · exact trivial
  · split_ifs
    · exact trivial
    · exact lockRow_held rfl List.mem_cons_self (covers_update _) trivial

theorem completePmInstance_kept (u name p uuid : Option String) :
    Kept order [] (completePmInstance order u name p uuid) := by
  refine checked_kept fun u => checked_kept fun name => checked_kept fun p =>
    checked_kept fun uuid db => checked_kept fun stream db => checked_kept fun _ db => ?_
  refine lockAll_sorted (by simp) fun held _ htable => lockRow_after rfl ?_ trivial
  exact fun l hl => Nat.lt_of_le_of_lt (htable l hl) Nat.one_lt_two

end Procedures

/-! ## All calls -/

/-- Every procedure keeps the order. -/
theorem Call.disciplined (order : KeyOrder) (c : Call) : Kept order [] (c.program order) := by
  cases c with
  | appendToStream now priority a => exact appendToStream_kept now priority a
  | recordSnapshot now u t v data metadata => exact recordSnapshot_kept now u t v data metadata
  | deleteSnapshot u => exact deleteSnapshot_kept u
  | claimSubscription now u name worker lease options =>
    exact claimSubscription_kept now u name worker lease options
  | releaseSubscription u name worker => exact releaseSubscription_kept u name worker
  | deleteSubscription u name => exact deleteSubscription_kept u name
  | routeBatch u name worker cursor decisions => exact routeBatch_kept u name worker cursor decisions
  | claimWorkItem now u name worker lease => exact claimWorkItem_kept now u name worker lease
  | extendWorkItemClaim a lease => exact extendWorkItemClaim_kept a lease
  | completeWorkItemProjection a => exact completeWorkItemProjection_kept a
  | completeWorkItemPm a s => exact completeWorkItemPm_kept a s
  | failWorkItem a => exact failWorkItem_kept a
  | completePmInstance u name p uuid => exact completePmInstance_kept u name p uuid

/-- The calls of a set of sessions, each in its own transaction. -/
def sessions {ι : Type} [Fintype ι] [DecidableEq ι] (order : KeyOrder) (calls : ι → Call) :
    System (ι → Session Db Row Mode) (Op ι Db) :=
  transactions Mode.conflicts fun i => (calls i).program order

/-- **The procedures are free from deadlock**: in no run of any finite set of calls, interleaved lock by
    lock, does the wait-for graph ever hold a cycle. -/
theorem deadlock_free {ι : Type} [Fintype ι] [DecidableEq ι] (order : KeyOrder) (calls : ι → Call)
    {s : ι → Session Db Row Mode} (h : Reachable (sessions order calls) s) (i : ι) :
    ¬ Relation.TransGen (WaitsFor Mode.conflicts s) i i := by
  refine acyclic (fun a => Row.not_before_self a) (fun _ _ _ => Row.Before.trans)
    Mode.conflicts_symm (fun row g hg => ?_) (fun i => (calls i).disciplined order) h i
  cases row with
  | event _ | link _ | linkVersion _ =>
    obtain rfl := Option.some.inj hg
    rfl
  | _ => cases hg

/-- The order by stream, name, partition and event, with texts in the order of their code points. -/
theorem nonempty_keyOrder : Nonempty KeyOrder := by
  let position : ItemKey → (ℕ ×ₗ String) ×ₗ (String ×ₗ ℤ) := fun key =>
    toLex (toLex key.1, toLex key.2)
  have hinj : Function.Injective position := by
    rintro ⟨⟨i, n⟩, p, e⟩ ⟨⟨i', n'⟩, p', e'⟩ h
    obtain ⟨h1, h2⟩ := Prod.mk.inj (toLex.injective h)
    obtain ⟨rfl, rfl⟩ := Prod.mk.inj (toLex.injective h1)
    obtain ⟨rfl, rfl⟩ := Prod.mk.inj (toLex.injective h2)
    rfl
  refine ⟨⟨fun a b => decide (position a ≤ position b), ?_, ?_, ?_⟩⟩
  · intro a b c hab hbc
    exact decide_eq_true ((of_decide_eq_true hab).trans (of_decide_eq_true hbc))
  · intro a b
    rw [← Bool.decide_or]
    exact decide_eq_true (le_total _ _)
  · intro a b hab hba
    exact hinj (le_antisymm (of_decide_eq_true hab) (of_decide_eq_true hba))

/-- Two calls that delete one snapshot. -/
def sampleCalls : Fin 2 → Call := fun _ => .deleteSnapshot (some "order-1")

/-- The second call waits for the first, and for nobody in a circle. -/
theorem deadlock_free_sampleCalls : ∃ order s, WaitsFor Mode.conflicts s 1 0 ∧
    Reachable (sessions order sampleCalls) s ∧
      ¬ Relation.TransGen (WaitsFor Mode.conflicts s) 1 1 := by
  obtain ⟨order⟩ := nonempty_keyOrder
  let l : Lock Row Mode := ⟨.snapshot "order-1", .update⟩
  let s₀ : Fin 2 → Session Db Row Mode := fun i => ⟨[], (sampleCalls i).program order⟩
  have hstep : (sessions order sampleCalls).step s₀ (.grant 0) =
      some (Function.update s₀ 0 ⟨[l], .done⟩) := by
    have hnone : ¬ ∃ j, Opposes Mode.conflicts s₀ 0 j l := by
      rintro ⟨j, -, h, hh, -⟩
      exact absurd hh List.not_mem_nil
    show granted Mode.conflicts s₀ 0 l (fun found => if found then .done else .done) = _
    rw [granted, if_neg hnone]
    rfl
  have hreach : Reachable (sessions order sampleCalls) (Function.update s₀ 0 ⟨[l], .done⟩) :=
    .step (.init rfl) trivial hstep
  have hwait : WaitsFor Mode.conflicts (Function.update s₀ 0 ⟨[l], .done⟩) 1 0 := by
    refine ⟨l, _, rfl, by decide, l, ?_, rfl, rfl⟩
    rw [Function.update_self]
    exact List.mem_cons_self
  exact ⟨order, _, hwait, hreach, deadlock_free order sampleCalls hreach 1⟩

end Instructed.Locks
