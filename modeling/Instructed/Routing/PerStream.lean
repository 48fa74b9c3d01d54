import Instructed.Routing.ExactlyOnce

/-!
# Subscriptions on one stream

`read_stream` pages by stream version, `start_from` resolves to a stream version, and `route_batch` sets
the cursor to an event number. The three agree on `$all` only: an event number may run ahead of the
stream, and then the events that come after it are behind the cursor and are never read.

* `Behind`: no worker is ahead of the cursor;
* `noSkip_fails`: a run that skips an event;
* `noSkip`: **no event is skipped in a run whose steps keep the cursor to the stream** (`Fits`).
-/

namespace Instructed.Routing

open Sql Relational Transition Numbering

section Behind

variable {κ : Type} {D : RoutingDefinition} {number : JsNumber} {w w' : World κ} {op : Op κ}
  {id : String} {wk : Worker}

/-- No worker is ahead of the cursor. -/
def Behind (D : RoutingDefinition) (w : World κ) : Prop :=
  ∀ id wk lastSeen, w.workers id = some wk → wk.phase.lastSeen? = some lastSeen →
    ∃ row, D.row w.store = some row ∧ lastSeen ≤ row.lastSeen

/-- The cursor that a worker has after a move is the one that it had, or the subscription's. -/
theorem Move.lastSeen {x : World κ} {wk' : Worker} {lastSeen : ℕ}
    (h : Move D number w id wk x wk') (hl : wk'.phase.lastSeen? = some lastSeen) :
    wk.phase.lastSeen? = some lastSeen ∨ ∃ row, D.row x.store = some row ∧ lastSeen ≤ row.lastSeen := by
  have hdropped : wk'.phase.lastSeen? = none →
      wk.phase.lastSeen? = some lastSeen ∨ ∃ row, D.row x.store = some row ∧ lastSeen ≤ row.lastSeen :=
    fun hnone => nomatch hnone.symm.trans hl
  cases h with
  | closing => exact Or.inl hl
  | dropped hnone => exact hdropped hnone
  | unclaimed _ hnone => exact hdropped hnone
  | committed _ _ _ hnone => exact hdropped hnone
  | released hnone => exact hdropped hnone
  | @claimed now r st _ hclaim hresult =>
    right
    obtain rfl := Option.some.inj hl
    rcases claim_row hclaim with ⟨-, hother, -⟩ | ⟨row, hrow⟩
    · exact nomatch hresult.symm.trans hother
    · have hrun : (D.claimCall id wk.opts now).run w.store = .ok (st, []) := by
        rw [RoutingDefinition.claimCall, Queue.Call.run, hclaim]
        rfl
      refine ⟨row, ?_, hrow.result.2.le⟩
      show D.row (w.call .answered (D.claimCall id wk.opts now)).store = some row
      rw [World.call_of_ok rfl hrun]
      exact hrow.row_eq
  | read hphase _ => exact Or.inl (hphase ▸ hl)
  | inspected hphase => exact Or.inl (hphase ▸ hl)
  | ignored hphase _ => exact Or.inl (hphase ▸ hl)
  | partitioned hphase _ => exact Or.inl (hphase ▸ hl)
  | batched hphase _ => exact Or.inl (hphase ▸ hl)

variable [DecidableEq κ]

theorem Behind.step (h : Behind D w) (hg : Queue.Grounded w.queue)
    (hstep : Routing.step D number w op = some w') : Behind D w' := by
  have hkept : ∀ wk lastSeen i, w.workers i = some wk → wk.phase.lastSeen? = some lastSeen →
      ∃ row, D.row w'.store = some row ∧ lastSeen ≤ row.lastSeen := by
    intro wk lastSeen i hwk hl
    obtain ⟨row, hrow, hle⟩ := h i wk lastSeen hwk hl
    obtain ⟨row', hrow', -, hle'⟩ := step_lastSeen_le hg hstep hrow
    exact ⟨row', hrow', hle.trans hle'⟩
  intro i wk' lastSeen hwk' hl
  cases step_cases hstep with
  | queue _ _ _ => exact hkept wk' lastSeen i hwk' hl
  | started _ =>
    simp only [World.setWorker, Function.update_apply] at hwk'
    split_ifs at hwk'
    · obtain rfl := Option.some.inj hwk'
      cases hl
    · exact hkept wk' lastSeen i hwk' hl
  | crashed =>
    simp only [World.setWorker, Function.update_apply] at hwk'
    split_ifs at hwk'
    exact hkept wk' lastSeen i hwk' hl
  | @moved id wk _ _ hwk hmove =>
    simp only [World.setWorker, hmove.workers, Function.update_apply] at hwk'
    split_ifs at hwk'
    · obtain rfl := Option.some.inj hwk'
      rcases hmove.lastSeen hl with hold | hrow
      · exact hkept wk lastSeen id hwk hold
      · exact hrow
    · exact hkept wk' lastSeen i hwk' hl

theorem Behind.of_reachable (hw : Reachable (system D number) w) : Behind D w := by
  refine hw.invariant_of_reachable ?_ fun _ _ _ hs h _ hstep =>
    h.step (grounded_of_reachable hs) hstep
  rintro _ rfl
  exact fun _ _ _ hwk => nomatch hwk

end Behind

/-! ## Idle workers -/

section Idle

variable {κ : Type} {D : RoutingDefinition} {number : JsNumber} {w : World κ} {id : String}

/-- The worker has claimed, and the batch that it reads now is empty. -/
def Idle (D : RoutingDefinition) (w : World κ) (id : String) : Bool :=
  match w.workers id with
  | some wk =>
    match wk.phase with
    | .read lastSeen =>
      match D.read lastSeen wk.opts w.store with
      | .ok [] => !wk.ending
      | _ => false
    | _ => false
  | none => false

/-- Every event of the stream behind the start was inspected, and what `routeFn` made of it was inserted,
    once. -/
structure Delivered (D : RoutingDefinition) (w : World κ) (start : ℕ) (row : SubscriptionRow) :
    Prop where
  inspected : ∀ e ∈ onStream D.stream w.store.log, start < e.streamVersion →
    e.eventNumber ∈ w.inspected
  routed : ∀ p n, (p, n) ∈ insertedFor row.pkey w.queue.events ↔
    ∃ e ∈ onStream D.stream w.store.log, start < e.streamVersion ∧ D.routeFn e = .partition p ∧
      n = e.eventNumber
  once : (insertedFor row.pkey w.queue.events).Nodup

/-- Whenever a worker goes idle, everything was delivered. -/
def NoSkip (D : RoutingDefinition) (w : World κ) : Prop :=
  ∀ id, Idle D w id = true → ∃ row start, D.row w.store = some row ∧ w.start = some start ∧
    Delivered D w start row

theorem idle_iff : Idle D w id = true ↔ ∃ wk lastSeen, w.workers id = some wk ∧
    wk.phase = .read lastSeen ∧ wk.ending = false ∧ D.read lastSeen wk.opts w.store = .ok [] := by
  unfold Idle
  constructor
  · intro h
    split at h
    · rename_i wk hwk
      split at h
      · rename_i lastSeen hphase
        split at h
        · rename_i hread
          exact ⟨wk, lastSeen, hwk, hphase, by simpa using h, hread⟩
        · cases h
      · cases h
    · cases h
  · rintro ⟨wk, lastSeen, hwk, hphase, hending, hread⟩
    simp [hwk, hphase, hread, hending]

/-- An event of another stream comes first, so the cursor runs ahead of the stream. -/
def skipRun : List (Op ℕ) :=
  let opts : RoutingWorkerOptions := ⟨10, 5, none⟩
  [sampleAppend "order-2" "1", sampleAppend "order-1" "2", .start "a" opts] ++
    List.replicate 7 (.advance "a" 10 .answered) ++
    [sampleAppend "order-1" "3", .advance "a" 10 .answered]

/-- The second event of the stream has number 3 and version 2, and the cursor stands at 2. -/
theorem noSkip_fails : ∃ w, (system (κ := ℕ) (sampleDefinition "order-1") sampleNumber).run
    World.install skipRun = some w ∧ ¬ NoSkip (sampleDefinition "order-1") w := by
  have hrun : ((system (κ := ℕ) (sampleDefinition "order-1") sampleNumber).run World.install
      skipRun).map (fun w => (Idle (sampleDefinition "order-1") w "a", w.start, w.inspected,
        (onStream "order-1" w.store.log).map fun e => (e.streamVersion, e.eventNumber))) =
          some (true, some 0, [2], [(1, 2), (2, 3)]) := by decide +kernel
  obtain ⟨w, hw, heq⟩ := Option.map_eq_some_iff.mp hrun
  simp only [Prod.mk.injEq] at heq
  obtain ⟨hidle, hstart, hinspected, hevents⟩ := heq
  refine ⟨w, hw, fun h => ?_⟩
  obtain ⟨row, start, -, hstart', hdelivered⟩ := h "a" hidle
  obtain rfl := Option.some.inj (hstart.symm.trans hstart')
  obtain ⟨e, he, hpos⟩ := List.mem_map.mp (hevents ▸ List.mem_cons_of_mem _ List.mem_cons_self)
  obtain ⟨hversion, hnumber⟩ := Prod.mk.inj hpos
  have hmem := hdelivered.inspected e he (by omega)
  rw [hinspected, hnumber] at hmem
  simp at hmem

variable [DecidableEq κ]

/-- **No event is skipped, while the cursor keeps to the stream.** -/
theorem noSkip (hD : D.stream ≠ "$all") (hw : ReachableWhen (system D number) (Fits D) w)
    (hbound : w.store.log.length < 2 ^ 53) : NoSkip D w := by
  have hinv : Inv D w := .of_reachable (hw.weaken fun _ _ h => Or.inr h) hbound
  have hc : w.store.Consistent := hinv.grounded.consistent.store
  intro id hidle
  obtain ⟨wk, lastSeen, hwk, hphase, -, hread⟩ := idle_iff.mp hidle
  obtain ⟨row, hrow, hle⟩ := Behind.of_reachable hw.reachable id wk lastSeen hwk (hphase ▸ rfl)
  obtain ⟨start, hstart, hp⟩ := hinv.progress row hrow
  -- Nothing is left to read behind the cursor that the worker has claimed.
  have hend : (D.source w.store).length ≤ start + w.committed.length := by
    obtain ⟨qty, hqty, hnil⟩ := read_ok hc hread
    have hlen := congrArg List.length hnil
    rw [List.length_take, List.length_drop, List.length_nil] at hlen
    by_contra hlt
    have htail := fun h => hp.tail h
    omega
  have hsource : D.source w.store = onStream D.stream w.store.log := if_neg hD
  have hpos : D.position = fun e => e.streamVersion := funext fun e => if_neg hD
  have hmem : ∀ e, e ∈ w.committed ↔ e ∈ onStream D.stream w.store.log ∧ start < e.streamVersion := by
    intro e
    have hnumbered := source_consecutive (D := D) hc
    have hiff := hp.taken.mem_iff hnumbered (x := e)
    rw [hiff, hsource, hpos, ← and_assoc]
    refine and_iff_left_of_imp fun ⟨he, _⟩ => ?_
    have hlast := (hnumbered.pos_mem (hsource ▸ he)).2
    rw [hpos, Nat.add_comm] at hlast
    exact (Nat.le_of_lt_succ hlast).trans hend
  refine ⟨row, start, hrow, hstart, fun e he hlt => ?_, fun p n => ?_, hp.inserted_nodup hc⟩
  · exact hp.inspected e ((hmem e).mpr ⟨he, hlt⟩)
  · rw [hp.mem_inserted]
    simp only [hmem, and_assoc]

instance (w : World κ) (d : Delivery) (phase : Phase) : Decidable (FitsCommit D w id d phase) :=
  match phase with
  | .commit _ r _ => inferInstanceAs (Decidable (d.arrives = true →
    (∃ row ∈ D.row w.store, row.claimedBy = some id) → ∀ last ∈ r.seen.getLast?,
      (D.source w.store).length ≤ last.streamVersion ∨ last.eventNumber ≤ last.streamVersion))
  | .claim | .read _ | .route .. | .decide .. | .release _ | .stopped => isTrue trivial

instance (w : World κ) (op : Op κ) : Decidable (Fits D w op) :=
  match op with
  | .queue (.append now a) =>
    inferInstanceAs (Decidable (a.streamUuid = some D.stream → (w.queue.db.append now a).1.isOk = true →
      ∀ row ∈ D.row w.store, row.lastSeen ≤ (D.source w.store).length))
  | .advance id _ d =>
    inferInstanceAs (Decidable (∀ wk ∈ w.workers id, FitsCommit D w id d wk.phase))
  | .queue (.call _) | .queue (.openClaim _) | .queue (.claimItem ..) | .start .. | .close _ |
    .crash _ => isTrue trivial

/-- The stream comes first, and the worker reads one event of it at a time. -/
def fittingRun : List (Op ℕ) :=
  let advance (n : ℕ) : List (Op ℕ) := List.replicate n (.advance "a" 10 .answered)
  [sampleAppend "order-1" "1", .start "a" ⟨10, 5, none⟩] ++ advance 7 ++
    [sampleAppend "order-1" "2", sampleAppend "order-2" "3"] ++ advance 8

theorem noSkip_fittingRun : ∃ w, (system (κ := ℕ) (sampleDefinition "order-1") sampleNumber).runWhen
    (Fits (sampleDefinition "order-1")) World.install fittingRun = some w ∧
      Idle (sampleDefinition "order-1") w "a" = true ∧
        insertedFor (1, "orders") w.queue.events = [("order-1", 1), ("order-1", 2)] ∧
          NoSkip (sampleDefinition "order-1") w := by
  have hrun : ((system (κ := ℕ) (sampleDefinition "order-1") sampleNumber).runWhen
      (Fits (sampleDefinition "order-1")) World.install fittingRun).map (fun w =>
        (Idle (sampleDefinition "order-1") w "a", insertedFor (1, "orders") w.queue.events,
          w.store.log.length)) = some (true, [("order-1", 1), ("order-1", 2)], 3) := by decide +kernel
  obtain ⟨w, hw, heq⟩ := Option.map_eq_some_iff.mp hrun
  simp only [Prod.mk.injEq] at heq
  obtain ⟨hidle, hinserted, hlength⟩ := heq
  refine ⟨w, hw, hidle, hinserted, noSkip (by decide) (.runWhen (.init rfl) hw) ?_⟩
  rw [hlength]
  decide

end Idle

end Instructed.Routing
