import Instructed.ReadStore.Steps

/-!
# A read store shows its log

Every event is handled at least once, and for the first time in the order of its partition. Behind the
guard of the handler's writes, each row is what the events of its partition make of it, each once and in
order, whatever was handled twice, given up or executed late.

* `World.landed`, `World.written`: the events whose write was executed, and the writes of a partition;
* `Inv`, `inv_of_reachable`: each row is the replay of the writes of its partition that were executed;
* `shows_upTo`, `rows_replayed`: **each row is the replay of its partition up to some event, past all that were handled**.
-/

namespace Instructed.ReadStore

open Sql Relational Transition Routing Processing Projection HighWater

section Exact

variable {D : RoutingDefinition} {α ρ : Type} {number : JsNumber}

/-- The write of an event, if it makes one. -/
def ReadModel.write? (M : ReadModel D α ρ) (e : RecordedEvent) : Option α :=
  match M.handle e with
  | .writes _ a => some a
  | .threw | .returned => none

/-- The write of the event was executed. -/
def World.landed (w : World ρ) (n : ℕ) : Bool :=
  w.queries.any fun q => decide (q.state = .executed) && decide (q.event.eventNumber = n)

/-- The writes of those events of the partition `u` that `p` selects. -/
def ReadModel.writes (M : ReadModel D α ρ) (log : List RecordedEvent) (u : String)
    (p : RecordedEvent → Bool) : List α :=
  (log.filter fun e => p e && decide (D.routeFn e = .partition u)).filterMap M.write?

variable {M : ReadModel D α ρ} {w w' : World ρ} {op : Op} {e : RecordedEvent} {u : String}

theorem landed_iff {n : ℕ} :
    w.landed n = true ↔ ∃ q ∈ w.queries, q.state = .executed ∧ q.event.eventNumber = n := by
  simp [World.landed]

theorem write?_eq_some {a : α} : M.write? e = some a ↔ ∃ key, M.handle e = .writes key a := by
  unfold ReadModel.write?
  split <;> simp_all

/-- The writes of a partition carry the numbers of its events. -/
theorem number_of_write {a : α} (hroute : D.routeFn e = .partition u) (h : M.write? e = some a) :
    M.number a = e.eventNumber := by
  obtain ⟨key, hhandle⟩ := write?_eq_some.mp h
  exact (M.partitioned hroute hhandle).2

theorem mem_writes {log : List RecordedEvent} {p : RecordedEvent → Bool} {a : α} :
    a ∈ M.writes log u p ↔
      ∃ e ∈ log, p e = true ∧ D.routeFn e = .partition u ∧ M.write? e = some a := by
  simp [ReadModel.writes, List.mem_filterMap, List.mem_filter, and_assoc]

theorem writes_congr {log : List RecordedEvent} {p q : RecordedEvent → Bool}
    (h : ∀ e ∈ log, D.routeFn e = .partition u → (M.write? e).isSome → p e = q e) :
    M.writes log u p = M.writes log u q := by
  unfold ReadModel.writes
  rw [List.filterMap_filter, List.filterMap_filter]
  apply List.filterMap_congr
  intro e he
  by_cases hroute : D.routeFn e = .partition u
  · cases hwrite : M.write? e with
    | none => simp
    | some a => rw [h e he hroute (by simp [hwrite])]
  · simp [hroute]

/-- The writes come in the order of their numbers. -/
theorem writes_pairwise {log : List RecordedEvent} (hlog : Numbered log) (p : RecordedEvent → Bool) :
    (M.writes log u p).Pairwise fun a b => M.number a < M.number b := by
  unfold ReadModel.writes
  rw [List.pairwise_filterMap]
  refine ((hlog.eventNumber.pairwise_lt.filter _).imp_of_mem ?_)
  intro e e' he he' hlt a ha b hb
  have hroute := (List.mem_filter.mp he).2
  have hroute' := (List.mem_filter.mp he').2
  simp only [Bool.and_eq_true, decide_eq_true_eq] at hroute hroute'
  rw [number_of_write hroute.2 ha, number_of_write hroute'.2 hb]
  exact hlt

/-! ## The invariant -/

/-- What holds of the calls of `pool.query`, of the events handled and of the rows. -/
structure Core (M : ReadModel D α ρ) (w : World ρ) : Prop where
  /-- A write is sent for an event that was given to a worker. -/
  queries : ∀ q ∈ w.queries, q.event ∈ w.store.log ∧ (M.write? q.event).isSome ∧
    ∃ item, Given D w.processing item ∧ (q.event.eventNumber : ℤ) = item.eventNumber
  returned : ∀ x ∈ w.processing.returned,
    (M.write? x.2).isSome → w.landed x.2.eventNumber = true
  rows : ∀ u, M.replay (M.writes w.store.log u fun e => w.landed e.eventNumber) = some (w.rows u)

/-- The handler of a worker awaits the write of its event. -/
def Awaits (M : ReadModel D α ρ) (w : World ρ) : Prop :=
  ∀ id item e, Handles w.processing id item e → (M.write? e).isSome →
    ∃ q, w.queries[w.awaited id]? = some q ∧ q.event = e

@[simp] theorem send_processing (w : World ρ) (id : String) (e : RecordedEvent) :
    (w.send M id e).processing = w.processing := by
  unfold World.send
  split <;> rfl

theorem processing_of_reachable (hw : Reachable (system M number) w) :
    Reachable (Processing.system D (adapter D) number) w.processing := by
  refine hw.invariant (P := fun w => Reachable (Processing.system D (adapter D) number) w.processing)
    ?_ fun s op s' h _ hstep => ?_
  · rintro _ rfl
    exact .init rfl
  · cases step_cases hstep with
    | process hp _ _ => exact .step h trivial hp
    | called hp _ _ _ _ =>
      rw [send_processing]
      exact .step h trivial hp
    | executed _ _ _ => exact h
    | failed _ => exact h

/-- The workers go on. -/
theorem Core.process {p : Processing.World Unit Unit Empty}
    {op : Processing.Op Unit HandlerOutcome} (h : Core M w) (hD : D.stream = "$all")
    (hp : Reachable (Processing.system D (adapter D) number) w.processing)
    (hbound : w.store.log.length < 2 ^ 53)
    (hstep : Processing.step D (adapter D) number w.processing op = some p)
    (hreturned : ∀ x ∈ p.returned, x ∈ w.processing.returned ∨
      ((M.write? x.2).isSome → w.landed x.2.eventNumber = true)) :
    Core M { w with processing := p } := by
  obtain ⟨added, hlog⟩ := step_log adapter_untargeted hp hstep
  have hc : p.store.Consistent :=
    (grounded_of_reachable adapter_untargeted (.step hp trivial hstep)).consistent.store
  refine ⟨fun q hq => ?_, fun x hx => ?_, fun u => ?_⟩
  · obtain ⟨hmem, hwrite, item, hgiven, hn⟩ := h.queries q hq
    refine ⟨?_, hwrite, item, hgiven.step adapter_untargeted hD hp hbound hstep, hn⟩
    show q.event ∈ p.store.log
    rw [← hlog]
    exact List.mem_append_left _ hmem
  · rcases hreturned x hx with hold | hnew
    · exact h.returned x hold
    · exact hnew
  · -- No write of an event that was appended since was sent.
    have hnumbered : Numbered (w.processing.store.log ++ added) := hlog ▸ hc.log_numbered
    obtain ⟨hold, hnew⟩ := Numbering.Consecutive.append_iff.mp hnumbered.eventNumber
    have hnone : ∀ e ∈ added, w.landed e.eventNumber = false := by
      intro e he
      by_contra hlanded
      obtain ⟨q, hq, -, hn⟩ := landed_iff.mp (by simpa using hlanded)
      have hlt := (hold.pos_mem (h.queries q hq).1).2
      have hle := (hnew.pos_mem he).1
      omega
    have hfilter : added.filter (fun e => w.landed e.eventNumber && decide (D.routeFn e = .partition u)) =
        [] := List.filter_eq_nil_iff.mpr fun e he => by simp [hnone e he]
    show M.replay (M.writes p.store.log u fun e => w.landed e.eventNumber) = some (w.rows u)
    rw [← h.rows u, ← hlog]
    unfold ReadModel.writes
    rw [List.filter_append, hfilter, List.append_nil]
    rfl

/-- A write is sent. -/
theorem Core.send (h : Core M w) {id : String} {item : Item} (he : e ∈ w.store.log)
    (hgiven : Given D w.processing item) (hn : (e.eventNumber : ℤ) = item.eventNumber) :
    Core M (w.send M id e) := by
  unfold World.send
  split
  · rename_i key a hhandle
    have hlanded : ∀ n, World.landed { w with
        queries := w.queries ++ [⟨e, .sent⟩]
        awaited := Function.update w.awaited id w.queries.length } n = w.landed n := by
      intro n
      simp [World.landed]
    refine ⟨fun q hq => ?_, fun x hx => ?_, fun u => ?_⟩
    · rcases List.mem_append.mp hq with hq | hq
      · exact h.queries q hq
      · obtain rfl := List.mem_singleton.mp hq
        refine ⟨he, ?_, item, hgiven, hn⟩
        rw [write?_eq_some.mpr ⟨key, hhandle⟩]
        rfl
    · rw [hlanded]
      exact h.returned x hx
    · simp only [hlanded]
      exact h.rows u
  · exact h
  · exact h

/-- A call of `pool.query` was executed, or failed. -/
theorem landed_set {i : ℕ} {st : QueryState} (hi : w.queries[i]? = some ⟨e, .sent⟩) (n : ℕ)
    (w' : World ρ) (hqueries : w'.queries = w.queries.set i ⟨e, st⟩) :
    w'.landed n = true ↔ w.landed n = true ∨ st = .executed ∧ e.eventNumber = n := by
  rw [landed_iff, landed_iff, hqueries]
  constructor
  · rintro ⟨q, hq, hstate, hn⟩
    rcases List.mem_or_eq_of_mem_set hq with hq | rfl
    · exact Or.inl ⟨q, hq, hstate, hn⟩
    · exact Or.inr ⟨hstate, hn⟩
  · rintro (⟨q, hq, hstate, hn⟩ | ⟨rfl, hn⟩)
    · obtain ⟨j, hj⟩ := List.getElem?_of_mem hq
      refine ⟨q, List.mem_of_getElem? (i := j) ?_, hstate, hn⟩
      rw [List.getElem?_set_ne, hj]
      rintro rfl
      obtain rfl := Option.some.inj (hi.symm.trans hj)
      cases hstate
    · obtain ⟨hlt, -⟩ := List.getElem?_eq_some_iff.mp hi
      exact ⟨⟨e, .executed⟩, List.mem_of_getElem? (List.getElem?_set_self hlt), rfl, hn⟩

theorem Core.failed (h : Core M w) {i : ℕ} (hi : w.queries[i]? = some ⟨e, .sent⟩) :
    Core M { w with queries := w.queries.set i ⟨e, .failed⟩ } := by
  have hlanded : ∀ n, World.landed { w with queries := w.queries.set i ⟨e, .failed⟩ } n =
      w.landed n := by
    intro n
    rw [Bool.eq_iff_iff, landed_set hi n _ rfl]
    simp
  refine ⟨fun q hq => ?_, fun x hx => ?_, fun u => ?_⟩
  · rcases List.mem_or_eq_of_mem_set hq with hq | rfl
    · exact h.queries q hq
    · exact h.queries ⟨e, .sent⟩ (List.mem_of_getElem? hi)
  · rw [hlanded]
    exact h.returned x hx
  · simp only [hlanded]
    exact h.rows u

/-- The write of an event before another one that was given to a worker was executed. -/
theorem Core.landed_before (h : Core M w) (hD : D.stream = "$all")
    (hp : Reachable (Processing.system D (adapter D) number) w.processing)
    (hbound : w.store.log.length < 2 ^ 53) {item : Item} (hgiven : Given D w.processing item)
    {start : ℕ} (hstart : w.processing.routing.start = some start) (he : e ∈ w.store.log)
    (hlt : start < e.eventNumber) (hless : (e.eventNumber : ℤ) < item.eventNumber)
    (hroute : D.routeFn e = .partition item.partitionKey) (hwrite : (M.write? e).isSome) :
    w.landed e.eventNumber = true :=
  h.returned _ (returned_before hD hp hbound hgiven hstart he hlt hless hroute) hwrite

theorem Core.executed {i : ℕ} {key : String} {a : α} {row : Option ρ} (h : Core M w)
    (hD : D.stream = "$all")
    (hp : Reachable (Processing.system D (adapter D) number) w.processing)
    (hbound : w.store.log.length < 2 ^ 53) (hi : w.queries[i]? = some ⟨e, .sent⟩)
    (hhandle : M.handle e = .writes key a) (hrow : M.write a (w.rows key) = some row) :
    Core M { w with
      queries := w.queries.set i ⟨e, .executed⟩
      rows := Function.update w.rows key row } := by
  have hc : w.store.Consistent := (grounded_of_reachable adapter_untargeted hp).consistent.store
  have hnumbered := hc.log_numbered
  have hwrite : M.write? e = some a := write?_eq_some.mpr ⟨key, hhandle⟩
  obtain ⟨he, -, item, hgiven, hn⟩ := h.queries _ (List.mem_of_getElem? hi)
  obtain ⟨hroute, start, hstart, hlt⟩ := hgiven.routeFn_eq adapter_untargeted hD hp hbound he hn
  obtain ⟨hkey, -⟩ := M.partitioned hroute hhandle
  rw [← hkey] at hroute
  have hsame : ∀ e' ∈ w.store.log, e'.eventNumber = e.eventNumber → e' = e := fun e' he' heq =>
    hnumbered.eventNumber.eq_of_pos_eq he' he heq
  have hlanded : ∀ n, World.landed { w with
      queries := w.queries.set i ⟨e, .executed⟩
      rows := Function.update w.rows key row } n = (w.landed n || decide (n = e.eventNumber)) := by
    intro n
    rw [Bool.eq_iff_iff, landed_set hi n _ rfl, Bool.or_eq_true, decide_eq_true_eq, eq_comm (a := n)]
    simp
  refine ⟨fun q hq => ?_, fun x hx hsome => ?_, fun u => ?_⟩
  · rcases List.mem_or_eq_of_mem_set hq with hq | rfl
    · exact h.queries q hq
    · exact h.queries ⟨e, .sent⟩ (List.mem_of_getElem? hi)
  · rw [hlanded, h.returned x hx hsome]
    rfl
  · simp only [hlanded]
    show M.replay (M.writes w.store.log u _) = some (Function.update w.rows key row u)
    by_cases hu : u = key
    · subst hu
      rw [Function.update_self]
      have hrows := h.rows u
      by_cases hold : w.landed e.eventNumber = true
      · -- The write arrives again.
        have hmem : a ∈ M.writes w.store.log u fun e => w.landed e.eventNumber :=
          mem_writes.mpr ⟨e, he, hold, hroute, hwrite⟩
        have hagain := Guarded.replay_again (writes_pairwise hnumbered _) hrows hmem
        rw [hrow] at hagain
        rw [← Option.some.inj hagain] at hrows
        rw [← hrows]
        congr 1
        apply writes_congr
        intro e' he' _ _
        by_cases heq : e'.eventNumber = e.eventNumber
        · simp [heq, hold]
        · simp [heq]
      · -- All that was written to the row comes before.
        have hbelow : ∀ e' ∈ w.store.log, (w.landed e'.eventNumber &&
            decide (D.routeFn e' = .partition u)) = true → e'.eventNumber < e.eventNumber := by
          intro e' he' hsel
          simp only [Bool.and_eq_true, decide_eq_true_eq] at hsel
          obtain ⟨q, hq, -, hqn⟩ := landed_iff.mp hsel.1
          obtain ⟨hqmem, -, item', hgiven', hn'⟩ := h.queries q hq
          obtain rfl := hnumbered.eventNumber.eq_of_pos_eq hqmem he' hqn
          obtain ⟨hroute', -⟩ := hgiven'.routeFn_eq adapter_untargeted hD hp hbound hqmem hn'
          rw [hsel.2] at hroute'
          obtain rfl := RouteOutcome.partition.inj hroute'
          by_contra hle
          have hne : q.event.eventNumber ≠ e.eventNumber := fun heq => hold (heq ▸ hsel.1)
          exact hold (h.landed_before hD hp hbound hgiven' hstart he hlt (by omega) hroute
            (by simp [hwrite]))
        have hfilter : w.store.log.filter (fun e' => (w.landed e'.eventNumber ||
            decide (e'.eventNumber = e.eventNumber)) && decide (D.routeFn e' = .partition u)) =
              w.store.log.filter (fun e' => w.landed e'.eventNumber &&
                decide (D.routeFn e' = .partition u)) ++ [e] := by
          rw [← filter_or_eq hnumbered.eventNumber.pairwise_lt he hbelow]
          apply List.filter_congr
          intro e' he'
          by_cases heq : e'.eventNumber = e.eventNumber
          · rw [hsame e' he' heq]
            simp [hroute]
          · simp [heq]
        have hwrites : M.writes w.store.log u (fun e' => w.landed e'.eventNumber ||
            decide (e'.eventNumber = e.eventNumber)) =
              M.writes w.store.log u (fun e' => w.landed e'.eventNumber) ++ [a] := by
          unfold ReadModel.writes
          rw [hfilter, List.filterMap_append]
          simp [hwrite]
        rw [hwrites, Guarded.replay_snoc, hrows]
        exact hrow
    · rw [Function.update_of_ne hu, ← h.rows u]
      congr 1
      apply writes_congr
      intro e' he' hroute' _
      by_cases heq : e'.eventNumber = e.eventNumber
      · rw [hsame e' he' heq, hroute] at hroute'
        exact absurd (RouteOutcome.partition.inj hroute').symm hu
      · simp [heq]

/-- The call that a handler awaits is still about its event when a call was executed or failed. -/
theorem Awaits.set {i : ℕ} {st : QueryState} {rows : String → Option ρ} (h : Awaits M w)
    (hi : w.queries[i]? = some ⟨e, .sent⟩) :
    Awaits M { w with queries := w.queries.set i ⟨e, st⟩, rows := rows } := by
  intro id item e' hhandles hwrite
  obtain ⟨q, hq, hevent⟩ := h id item e' hhandles hwrite
  show ∃ q, (w.queries.set i ⟨e, st⟩)[w.awaited id]? = some q ∧ q.event = e'
  by_cases heq : i = w.awaited id
  · obtain ⟨hlt, -⟩ := List.getElem?_eq_some_iff.mp hi
    rw [← heq] at hq ⊢
    obtain rfl := Option.some.inj (hi.symm.trans hq)
    exact ⟨⟨e, st⟩, List.getElem?_set_self hlt, hevent⟩
  · exact ⟨q, (List.getElem?_set_ne heq).trans hq, hevent⟩

/-- A handler that makes a write returns when its write was executed. -/
theorem landed_of_mayEnd {id : String} {wk : Processing.Worker Unit Unit Empty} {item : Item} {n : ℕ}
    {h : Unit} (hawaits : Awaits M w) (hwk : w.processing.workers id = some wk)
    (hphase : wk.phase = .handle item e n h) (hmay : w.mayEnd M id wk .returned = true)
    (hwrite : (M.write? e).isSome) : w.landed e.eventNumber = true := by
  obtain ⟨a, ha⟩ := Option.isSome_iff_exists.mp hwrite
  obtain ⟨key, hhandle⟩ := write?_eq_some.mp ha
  obtain ⟨q, hq, rfl⟩ := hawaits id item e ⟨wk, n, h, hwk, hphase⟩ hwrite
  simp only [World.mayEnd, hphase, hhandle, hq, Option.any_some, decide_eq_true_eq] at hmay
  exact landed_iff.mpr ⟨q, List.mem_of_getElem? hq, hmay, rfl⟩

theorem phase_of_calls {wk : Processing.Worker Unit Unit Empty} (h : calls wk = some e) :
    ∃ item, wk.phase.event? = some (item, e) := by
  unfold calls at h
  split at h
  · rename_i item e' n hphase
    split_ifs at h
    obtain rfl := Option.some.inj h
    exact ⟨item, by rw [hphase]; rfl⟩
  · cases h

/-- **Each row is the replay of the writes of its partition that were executed**, and so on. -/
theorem inv_of_reachable (hD : D.stream = "$all") (hw : Reachable (system M number) w)
    (hbound : w.store.log.length < 2 ^ 53) : Core M w ∧ Awaits M w := by
  refine hw.invariant_of_reachable
    (P := fun w => w.store.log.length < 2 ^ 53 → Core M w ∧ Awaits M w) ?_
    (fun s op s' hs ih _ hstep hbound' => ?_) hbound
  · rintro _ rfl _
    refine ⟨⟨?_, ?_, fun u => rfl⟩, ?_⟩
    · intro q hq
      cases hq
    · intro x hx
      cases hx
    · rintro id item e ⟨wk, n, h, hwk, -⟩
      cases hwk
  · have hp := processing_of_reachable hs
    cases step_cases hstep with
    | @process op p hstep' hhandles hreturned =>
      have hbound := ((step_log adapter_untargeted hp hstep').length_le).trans_lt hbound'
      obtain ⟨hcore, hawaits⟩ := ih hbound
      refine ⟨hcore.process hD hp hbound hstep' fun x hx => ?_, ?_⟩
      · rcases hreturned with hsame | ⟨i, wk, item, e, n, h, hwk, hphase, hmay, hreturned⟩
        · exact Or.inl (hsame ▸ hx)
        · rw [hreturned] at hx
          refine (List.mem_append.mp hx).imp_right fun hx => ?_
          obtain rfl := List.mem_singleton.mp hx
          exact landed_of_mayEnd hawaits hwk hphase hmay
      · exact fun i item e he hwrite => hawaits i item e (hhandles i item e he) hwrite
    | @called op p i wk e hstep' hwk hcalls hhandles hreturned =>
      have hlog := step_log adapter_untargeted hp hstep'
      have hbound := (hlog.length_le).trans_lt (by simpa [World.store] using hbound')
      obtain ⟨hcore, hawaits⟩ := ih hbound
      obtain ⟨item, hevent⟩ := phase_of_calls hcalls
      have hgiven := given_of_item adapter_untargeted hD hp hbound hwk (item_of_event hevent)
      have hmem := phase_mem_log adapter_untargeted hp hwk item e hevent
      have hnumber := phase_event hp hwk item e hevent
      have hcore' : Core M { s with processing := p } :=
        hcore.process hD hp hbound hstep' fun x hx => Or.inl (hreturned ▸ hx)
      refine ⟨hcore'.send (hlog.subset hmem)
        (hgiven.step adapter_untargeted hD hp hbound hstep') hnumber, ?_⟩
      intro j item' e' hj hwrite
      rw [send_processing] at hj
      unfold World.send
      split
      · rcases hhandles j item' e' hj with ⟨hne, hold⟩ | ⟨rfl, rfl⟩
        · obtain ⟨q, hq, hqe⟩ := hawaits j item' e' hold hwrite
          obtain ⟨hlt, -⟩ := List.getElem?_eq_some_iff.mp hq
          refine ⟨q, ?_, hqe⟩
          show (s.queries ++ _)[Function.update s.awaited i s.queries.length j]? = some q
          rw [Function.update_of_ne hne, List.getElem?_append_left hlt]
          exact hq
        · refine ⟨⟨e', .sent⟩, ?_, rfl⟩
          show (s.queries ++ _)[Function.update s.awaited j s.queries.length j]? = _
          simp
      all_goals
        rename_i hhandle
        rcases hhandles j item' e' hj with ⟨-, hold⟩ | ⟨rfl, rfl⟩
        · exact hawaits j item' e' hold hwrite
        · obtain ⟨a, ha⟩ := Option.isSome_iff_exists.mp hwrite
          obtain ⟨key, hkey⟩ := write?_eq_some.mp ha
          cases hhandle.symm.trans hkey
    | executed hi hhandle hrow =>
      obtain ⟨hcore, hawaits⟩ := ih hbound'
      exact ⟨hcore.executed hD hp hbound' hi hhandle hrow, hawaits.set hi⟩
    | failed hi =>
      obtain ⟨hcore, hawaits⟩ := ih hbound'
      exact ⟨hcore.failed hi, hawaits.set hi⟩

/-! ## The result -/

/-- The row of the partition `u` shows the events up to `m`. -/
structure Shows (M : ReadModel D α ρ) (w : World ρ) (start : ℕ) (u : String) (m : ℕ) : Prop where
  /-- The row is what the events of the partition up to `m` make of it, each once and in order. -/
  replay : M.replay (M.writes w.store.log u fun e =>
    decide (start < e.eventNumber) && decide (e.eventNumber ≤ m)) = some (w.rows u)
  /-- No event of the partition that was handled comes after. -/
  handled : ∀ item e, (item, e) ∈ w.processing.returned → item.partitionKey = u → e.eventNumber ≤ m
  /-- Nothing up to a target comes after when the projection has caught up with it. -/
  caughtUp : ∀ target, D.caughtUp target w.store w.store = .ok true →
    ∀ e ∈ w.store.log, e.eventNumber ≤ target → e.eventNumber ≤ m

/-- The event is in the partition `u` behind the start, and makes a write that was not executed. -/
def World.due (M : ReadModel D α ρ) (w : World ρ) (start : ℕ) (u : String) (e : RecordedEvent) : Bool :=
  decide (start < e.eventNumber) && decide (D.routeFn e = .partition u) && (M.write? e).isSome &&
    !w.landed e.eventNumber

theorem due_iff {start : ℕ} : w.due M start u e = true ↔ start < e.eventNumber ∧
    D.routeFn e = .partition u ∧ (M.write? e).isSome ∧ w.landed e.eventNumber = false := by
  simp [World.due, and_assoc]

/-- The number of the last event before the first one that `p` selects. -/
def lastBefore (log : List RecordedEvent) (p : RecordedEvent → Bool) : ℕ :=
  match log.find? p with
  | none => log.length
  | some b => b.eventNumber - 1

theorem lastBefore_lt {log : List RecordedEvent} {p : RecordedEvent → Bool} (hlog : Numbered log)
    (he : e ∈ log) (hpe : p e = true) : lastBefore log p < e.eventNumber := by
  unfold lastBefore
  cases hfind : log.find? p with
  | none => exact absurd hpe (List.find?_eq_none.mp hfind e he)
  | some b =>
    obtain ⟨hpb, before, after, rfl, hbefore⟩ := List.find?_eq_some_iff_append.mp hfind
    have hpos := (hlog.eventNumber.pos_mem (List.mem_of_find?_eq_some hfind)).1
    obtain ⟨-, hafter, -⟩ := List.pairwise_append.mp hlog.eventNumber.pairwise_lt
    obtain ⟨habove, -⟩ := List.pairwise_cons.mp hafter
    show b.eventNumber - 1 < e.eventNumber
    rcases List.mem_append.mp he with he | he
    · have hfalse := hbefore e he
      rw [hpe] at hfalse
      cases hfalse
    · rcases List.mem_cons.mp he with rfl | he
      · omega
      · have := habove e he
        omega

theorem le_lastBefore {log : List RecordedEvent} {p : RecordedEvent → Bool} (hlog : Numbered log)
    (he : e ∈ log) (h : ∀ b ∈ log, p b = true → e.eventNumber < b.eventNumber) :
    e.eventNumber ≤ lastBefore log p := by
  unfold lastBefore
  cases hfind : log.find? p with
  | none =>
    have := (hlog.eventNumber.pos_mem he).2
    show e.eventNumber ≤ log.length
    omega
  | some b =>
    have := h b (List.mem_of_find?_eq_some hfind) (List.find?_some hfind)
    show e.eventNumber ≤ b.eventNumber - 1
    omega

/-- The row of the partition `u` shows the events before the first one whose write is due. -/
def World.upTo (M : ReadModel D α ρ) (w : World ρ) (start : ℕ) (u : String) : ℕ :=
  lastBefore w.store.log (w.due M start u)

/-- Each row is the replay of its partition up to the first event whose write is due. -/
theorem shows_upTo (hD : D.stream = "$all") (hw : Reachable (system M number) w)
    (hbound : w.store.log.length < 2 ^ 53) {start : ℕ}
    (hstart : w.processing.routing.start = some start) (u : String) :
    Shows M w start u (w.upTo M start u) := by
  have hp := processing_of_reachable hw
  obtain ⟨hcore, -⟩ := inv_of_reachable hD hw hbound
  have hc : w.store.Consistent := (grounded_of_reachable adapter_untargeted hp).consistent.store
  have hnumbered := hc.log_numbered
  -- Nothing that was given to a worker comes after an event whose write is due.
  have hgiven : ∀ {item : Item} {e b : RecordedEvent}, Given D w.processing item →
      (e.eventNumber : ℤ) = item.eventNumber → item.partitionKey = u → b ∈ w.store.log →
      w.due M start u b = true → e.eventNumber ≤ b.eventNumber := by
    intro item e b hgiven hn hkey hb hbdue
    obtain ⟨hlt, hroute, hwrite, hlanded⟩ := due_iff.mp hbdue
    by_contra hless
    have htrue := hcore.landed_before hD hp hbound hgiven hstart hb hlt (by omega) (hkey ▸ hroute)
      hwrite
    rw [htrue] at hlanded
    cases hlanded
  refine ⟨?_, fun item e hmem hkey => ?_, fun target hcaught e he hle' => ?_⟩
  · rw [← hcore.rows u]
    congr 1
    apply writes_congr
    intro e he hroute hwrite
    by_cases hlanded : w.landed e.eventNumber = true
    · -- It was executed: it comes before what is due.
      obtain ⟨q, hq, -, hqn⟩ := landed_iff.mp hlanded
      obtain ⟨hqmem, -, item, hitem, hn⟩ := hcore.queries q hq
      obtain rfl := hnumbered.eventNumber.eq_of_pos_eq hqmem he hqn
      obtain ⟨hroute', start', hstart', hlt⟩ :=
        hitem.routeFn_eq adapter_untargeted hD hp hbound hqmem hn
      obtain rfl := Option.some.inj (hstart.symm.trans hstart')
      rw [hroute] at hroute'
      have hkey := (RouteOutcome.partition.inj hroute').symm
      have hbelow : q.event.eventNumber ≤ w.upTo M start u := by
        apply le_lastBefore hnumbered hqmem
        intro b hb hbdue
        have hge := hgiven hitem hn hkey hb hbdue
        have hne : q.event.eventNumber ≠ b.eventNumber := by
          intro heq
          have hfalse := (due_iff.mp hbdue).2.2.2
          rw [← heq, hlanded] at hfalse
          cases hfalse
        omega
      simp [hlanded, hlt, hbelow]
    · -- It was not executed: it is due.
      have hfalse : w.landed e.eventNumber = false := by simpa using hlanded
      rw [hfalse]
      by_cases hlt : start < e.eventNumber
      · have habove := lastBefore_lt hnumbered he (due_iff.mpr ⟨hlt, hroute, hwrite, hfalse⟩)
        simp [show ¬ e.eventNumber ≤ w.upTo M start u by exact Nat.not_le.mpr habove]
      · simp [hlt]
  · obtain ⟨hitem, he, hn⟩ := given_of_returned adapter_untargeted hD hp hbound hmem
    apply le_lastBefore hnumbered he
    intro b hb hbdue
    have hge := hgiven hitem hn hkey hb hbdue
    have hne : e.eventNumber ≠ b.eventNumber := by
      intro heq
      obtain rfl := hnumbered.eventNumber.eq_of_pos_eq he hb heq
      obtain ⟨-, -, hwrite, hfalse⟩ := due_iff.mp hbdue
      rw [hcore.returned _ hmem hwrite] at hfalse
      cases hfalse
    omega
  · apply le_lastBefore hnumbered he
    intro b hb hbdue
    obtain ⟨hlt, hroute, hwrite, hfalse⟩ := due_iff.mp hbdue
    by_contra hless
    have hsettled : Settled D target w.processing.routing := (caughtUp_iff.mp hcaught).2
    obtain ⟨start', hstart', hhandled⟩ := settled_handled hD hp hbound hsettled
    obtain rfl := Option.some.inj (hstart.symm.trans hstart')
    rcases hhandled b hb hlt (by omega) with hignore | ⟨p, -, hmem⟩
    · rw [hroute] at hignore
      cases hignore
    · rw [hcore.returned _ hmem hwrite] at hfalse
      cases hfalse

/-- **Each row is the replay of its partition**, up to some event that comes after none that was handled,
    and up to every target that the projection has caught up with. -/
theorem rows_replayed (hD : D.stream = "$all") (hw : Reachable (system M number) w)
    (hbound : w.store.log.length < 2 ^ 53) {start : ℕ}
    (hstart : w.processing.routing.start = some start) (u : String) : ∃ m, Shows M w start u m :=
  ⟨_, shows_upTo hD hw hbound hstart u⟩

end Exact

/-! ## A run -/

section Example

/-- The row of a stream holds the number of its last event. -/
def sampleLast : ReadModel (sampleDefinition "$all") ℕ ℕ where
  number n := n
  mark r := r
  write n row := some (some (max (row.getD 0) n))
  stale := by simp
  raises := by
    intro n row r hlt h
    have hmax : max (row.getD 0) n = r := by simpa using h
    cases row with
    | none => simpa using hmax.symm
    | some r₀ =>
      have hlt := hlt r₀ rfl
      simp only [Option.getD_some] at hmax
      omega
  kept := by simp
  handle e := .writes e.streamUuid e.eventNumber
  partitioned := by
    intro e p key n hroute hhandle
    obtain rfl := RouteOutcome.partition.inj hroute
    obtain ⟨rfl, rfl⟩ := Handling.writes.inj hhandle
    exact ⟨rfl, rfl⟩

/-- Worker `p` crashes when it has sent its write, which is executed when worker `q` has handled the
    event. -/
def sampleLate : List Op :=
  let turns (id : String) (now : Timestamp) (n : ℕ) : List Op :=
    List.replicate n (.processing (.advance id ⟨now, .answered, fun _ => false, .retryIn, .returned⟩))
  .processing (.routing (.start "r" ⟨10, 5, none⟩)) :: (sampleRoute "1").map .processing ++
    .processing (.start "p" 5 ()) :: turns "p" 20 4 ++ .processing (.crash "p") ::
    .processing (.start "q" 5 ()) :: turns "q" 6000000 4 ++ .query 1 :: turns "q" 6000000 2 ++ [.query 0]

theorem rows_replayed_sampleLate : ∃ w,
    (system sampleLast sampleNumber).run World.install sampleLate = some w ∧
      w.rows "order-1" = some 1 ∧ w.queries.map Query.state = [.executed, .executed] ∧
      w.processing.routing.start = some 0 ∧ ∃ m, Shows sampleLast w 0 "order-1" m := by
  have hrun : ((system sampleLast sampleNumber).run World.install sampleLate).map (fun w =>
      (w.rows "order-1", w.queries.map Query.state, w.processing.routing.start,
        decide (w.store.log.length < 2 ^ 53))) =
          some (some 1, [.executed, .executed], some 0, true) := by
    decide +kernel
  obtain ⟨w, hw, heq⟩ := Option.map_eq_some_iff.mp hrun
  obtain ⟨hrows, heq⟩ := Prod.mk.inj heq
  obtain ⟨hqueries, heq⟩ := Prod.mk.inj heq
  obtain ⟨hstart, hbound⟩ := Prod.mk.inj heq
  exact ⟨w, hw, hrows, hqueries, hstart,
    rows_replayed rfl (.run (.init rfl) hw) (of_decide_eq_true hbound) hstart "order-1"⟩

end Example

end Instructed.ReadStore
