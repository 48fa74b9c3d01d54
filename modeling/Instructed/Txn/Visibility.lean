import Instructed.Txn.Invariant

/-!
# What a reader of committed data sees

However the transactions interleave, the committed log only grows at its end: event numbers become
visible in order and without a gap. A reader that resumes after the last event it has seen misses
nothing.

* `prefix_of_step`, `prefix_of_run`: the committed log grows at its end;
* `visible_prefix_closed`: the visible event numbers, and what a page of `read_all` rules out.
-/

namespace Instructed.Txn

open Sql Relational Transition Sequential Numbering

section Visibility

variable {ι : Type} [DecidableEq ι] [Fintype ι] {w w' : World ι}

theorem prefix_of_legal {log log' : List RecordedEvent} {h : List FinishedCall}
    (hl : Legal logObject SameOutcome log h log') : log <+: log' :=
  hl.invariant (Q := fun x => log <+: x)
    (fun x _ hx => hx.trans (List.prefix_append x _)) (List.prefix_refl log)

theorem advance_committed {i : ι} {t : Tx} {a : AppendArgs} {r : AppendRequest} {stage : Stage}
    (h : w.advance i t a r stage = some w') : w'.committed = w.committed := by
  obtain ⟨eff, -, rfl⟩ := Option.map_eq_some_iff.mp h
  cases eff <;> rfl

/-- Only a commit changes the committed tables. -/
theorem step_committed {l : ι × Op} (h : step w l = some w') :
    w'.committed = w.committed ∨ ∃ t, w.tx l.1 = some t ∧ t.pc = .idle ∧
      w'.committed = viewOf w.committed t.own.writes := by
  cases step_cases h with
  | commit ht hpc => exact Or.inr ⟨_, ht, hpc, rfl⟩
  | advance ht hpc h => exact Or.inl (advance_committed h)
  | call a ht hpc =>
    left
    unfold World.call
    split <;> rfl
  | _ => exact Or.inl rfl

/-- A step adds to the committed log only at its end. -/
theorem prefix_of_step (hinv : w.Inv) {l : ι × Op} (h : step w l = some w') :
    w.committed.log <+: w'.committed.log := by
  rcases step_committed h with heq | ⟨t, ht, hpc, heq⟩
  · rw [heq]
  · have htinv := hinv.tx _ t ht
    have hidle := htinv.pc
    rw [hpc] at hidle
    rw [heq, hidle]
    exact prefix_of_legal htinv.base.legal

/-- So does a run. -/
theorem prefix_of_run (hinv : w.Inv) {ops : List (ι × Op)} (h : (system ι).run w ops = some w') :
    w.committed.log <+: w'.committed.log := by
  refine ((system ι).run_invariant (P := fun x => x.Inv ∧ w.committed.log <+: x.committed.log)
    ?_ h ⟨hinv, List.prefix_refl _⟩).2
  rintro x l x' ⟨hx, hpre⟩ hstep
  exact ⟨hx.step hstep, hpre.trans (prefix_of_step hx hstep)⟩

theorem mem_of_readAll {st : Store} {fromN qty : Option ℤ} {rows : List RecordedEvent}
    (h : readAll fromN qty st = .ok rows) {e : RecordedEvent} (he : e ∈ rows) : e ∈ st.log := by
  unfold readAll at h
  cases fromN with
  | none => cases h
  | some n =>
    simp only at h
    split_ifs at h
    · cases h
    · cases qty with
      | none => cases h
      | some q =>
        simp only at h
        split_ifs at h
        · cases h
        · cases h
          have hm := List.mem_mergeSort.mp (List.mem_of_mem_take he)
          exact List.mem_of_mem_filter hm

/-- The event numbers that a reader of the tables can see. -/
def visibleNumbers (st : Store) : Set ℕ := {n | ∃ e ∈ st.log, e.eventNumber = n}

/-- What the committed version `h` of `$all` tells a reader: the visible event numbers are exactly
    `1, …, h`, and whatever becomes visible later has a larger number. So a page of `read_all` is
    never followed by an event with a smaller number than one it returned, and a cursor that has
    passed a visible position has skipped nothing. -/
structure PrefixVisible (w : World ι) (h : ℕ) : Prop where
  allRow : w.committed.streams.find? 0 = some ⟨0, "$all", h⟩
  numbers : visibleNumbers w.committed = Set.Icc 1 h
  cursor : ∀ ops w', (system ι).run w ops = some w' → ∀ e ∈ w'.committed.log,
    e.eventNumber ≤ h → e ∈ w.committed.log
  page : ∀ ops w', (system ι).run w ops = some w' → ∀ e' ∈ w'.committed.log,
    ∀ fromN qty rows, readAll fromN qty w.committed = .ok rows → ∀ e ∈ rows,
      e'.eventNumber < e.eventNumber → e' ∈ w.committed.log

/-- **Visibility is closed under prefixes, in every reachable state.** -/
theorem visible_prefix_closed (hw : Reachable (system ι) w) : ∃ h, PrefixVisible w h := by
  have hinv := World.Inv.of_reachable hw
  obtain ⟨h, hall⟩ := hinv.committed.allRow
  have hlen : h = w.committed.log.length := hinv.committed.all_streamVersion hall
  have hnum := hinv.committed.log_eventNumber
  have hset : ∀ e ∈ w.committed.log, 1 ≤ e.eventNumber ∧ e.eventNumber ≤ h := fun e he => by
    have := hnum.pos_mem he
    omega
  have hcursor : ∀ ops w', (system ι).run w ops = some w' → ∀ e ∈ w'.committed.log,
      e.eventNumber ≤ h → e ∈ w.committed.log := by
    intro ops w' hrun e he hn
    have hinv' := World.Inv.of_reachable (hw.run hrun)
    obtain ⟨new, hnew⟩ := prefix_of_run hinv hrun
    rw [← hnew] at he
    rcases List.mem_append.mp he with he | he
    · exact he
    · have hcons := hinv'.committed.log_eventNumber
      rw [← hnew, Consecutive.append_iff] at hcons
      have := hcons.2.pos_mem he
      omega
  refine ⟨h, hall, ?_, hcursor, ?_⟩
  · ext n
    constructor
    · rintro ⟨e, he, rfl⟩
      exact hset e he
    · rintro ⟨h1, hn⟩
      exact hnum.exists_of_pos h1 (by omega)
  · intro ops w' hrun e' he' fromN qty rows hread e he hlt
    have := hset e (mem_of_readAll hread he)
    exact hcursor ops w' hrun e' he' (by omega)

end Visibility

section Example

/-- One event with the given last digit of its id. -/
def sampleEvents (digit : String) : Json :=
  .arr [.obj [("event_id", .str ("00000000-0000-0000-0000-00000000000" ++ digit)),
    ("event_type", .str "opened"), ("data", .null)]]

/-- Two sessions that create the same stream; the first one inserts first. -/
def sampleRun : List (Bool × Op) :=
  [(true, .begin 10), (false, .begin 11),
   (true, .call ⟨some "order-1", some "exact", some 0, some (sampleEvents "1")⟩),
   (false, .call ⟨some "order-1", some "exact", some 0, some (sampleEvents "2")⟩),
   (true, .advance), (false, .advance), (true, .advance), (false, .advance), (true, .advance),
   (true, .advance), (true, .advance), (true, .commit), (false, .advance), (false, .rollback)]

theorem visible_prefix_closed_sampleRun : ∃ w, (system Bool).run World.install sampleRun = some w ∧
    ∃ h, PrefixVisible w h := by
  obtain ⟨w, hw⟩ := Option.isSome_iff_exists.mp
    (show ((system Bool).run World.install sampleRun).isSome = true by decide +kernel)
  exact ⟨w, hw, visible_prefix_closed (Reachable.run (.init rfl) hw)⟩

end Example

end Instructed.Txn
