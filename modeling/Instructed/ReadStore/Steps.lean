import Instructed.ReadStore.System

/-!
# The steps of a projection with a read store

* `advance_handles`, `other_handles`: how a worker comes to be in its handler, and how its handler returns;
* `StepBy`, `step_cases`: **the workers go on, a handler is called, or a call of `pool.query` is executed
  or fails**.
-/

namespace Instructed.ReadStore

open Sql Relational Transition Routing Processing Projection HighWater

section Steps

variable {D : RoutingDefinition} {number : JsNumber} {p p' : Processing.World Unit Unit Empty}
  {id : String} {wk : Processing.Worker Unit Unit Empty}

/-- The worker `id` is in its handler. -/
def Handles (p : Processing.World Unit Unit Empty) (id : String) (item : Item) (e : RecordedEvent) :
    Prop :=
  ∃ wk n h, p.workers id = some wk ∧ wk.phase = .handle item e n h

theorem handles_update {routing : Routing.World String} {wk' : Processing.Worker Unit Unit Empty}
    {returned : List (Item × RecordedEvent)} {i : String} {item : Item} {e : RecordedEvent}
    (h : Handles (p.afterTurn id routing wk' returned) i item e) :
    Handles p i item e ∨ i = id ∧ ∃ n h, wk'.phase = .handle item e n h := by
  obtain ⟨x, n, h, hx, hphase⟩ := h
  simp only [World.afterTurn, Function.update_apply] at hx
  split_ifs at hx with heq
  · obtain rfl := Option.some.inj hx
    exact Or.inr ⟨heq, n, h, hphase⟩
  · exact Or.inl ⟨x, n, h, hx, hphase⟩

/-- How a worker that goes on comes to be in its handler. -/
theorem advance_handles {x : Input HandlerOutcome} (hwk : p.workers id = some wk)
    (h : p.advance D (adapter D) id wk x = some p') {i : String} {item : Item} {e : RecordedEvent}
    (hhandles : Handles p' i item e) : Handles p i item e ∨ i = id ∧ calls wk = some e := by
  obtain ⟨routing, wk', returned, ht, rfl⟩ := advance_turns h
  rcases handles_update hhandles with hold | ⟨rfl, n, h', hphase'⟩
  · exact Or.inl hold
  · cases ht with
    | closing => exact Or.inl ⟨wk, n, h', hwk, hphase'⟩
    | beat _ => exact Or.inl ⟨wk, n, h', hwk, hphase'⟩
    | extended _ _ => exact Or.inl ⟨wk, n, h', hwk, hphase'⟩
    | lost _ _ _ => exact Or.inl ⟨wk, n, h', hwk, hphase'⟩
    | began hphase hending =>
      cases hphase'
      refine Or.inr ⟨rfl, ?_⟩
      simp [calls, hphase, hending]
    | @ran _ _ n _ _ _ _ hphase _ _ =>
      cases hphase'
      exact Or.inl ⟨wk, n, _, hwk, hphase⟩
    | _ => cases hphase'

/-- How the handler of a worker that goes on returns. -/
theorem advance_returned {x : Input HandlerOutcome} (h : p.advance D (adapter D) id wk x = some p') :
    p'.returned = p.returned ∨ ∃ item e n h, wk.phase = .handle item e n h ∧ x.handler = .returned ∧
      p'.returned = p.returned ++ [(item, e)] := by
  cases hphase : wk.phase with
  | handle item e n h' =>
    simp only [Processing.World.advance, hphase] at h
    obtain rfl := Option.some.inj h
    cases hx : x.handler with
    | threw =>
      left
      simp [Processing.World.handle, adapter, hx, Processing.World.setWorker]
    | returned =>
      right
      refine ⟨item, e, n, h', rfl, rfl, ?_⟩
      simp [Processing.World.handle, adapter, hx, Processing.World.setWorker]
  | _ =>
    left
    obtain ⟨routing, wk', returned, ht, rfl⟩ := advance_turns h
    show p.returned ++ returned = p.returned
    cases ht with
    | returned hphase' _ _ _ => cases hphase.symm.trans hphase'
    | broken hphase' _ _ _ => cases hphase.symm.trans hphase'
    | _ => exact List.append_nil _

/-- The heartbeat leaves the loop of its worker where it is. -/
theorem beat_phase {now : Timestamp} {d : Delivery} (h : p.beat D id wk now d = some p') :
    p'.returned = p.returned ∧
      ∃ wk', p'.workers = Function.update p.workers id (some wk') ∧ wk'.phase = wk.phase := by
  have hextend : ∀ {item : Item} {again : Processing.Worker Unit Unit Empty},
      again.phase = wk.phase → (p.extend D id wk item now d again).returned = p.returned ∧
        ∃ wk', (p.extend D id wk item now d again).workers = Function.update p.workers id (some wk') ∧
          wk'.phase = wk.phase := by
    intro item again hagain
    unfold Processing.World.extend
    dsimp only
    split
    · exact ⟨rfl, _, rfl, rfl⟩
    · split_ifs
      · exact ⟨rfl, _, rfl, rfl⟩
      · exact ⟨rfl, again, rfl, hagain⟩
  obtain ⟨item, -, h⟩ := Option.bind_eq_some_iff.mp h
  split at h
  · cases h
  · obtain rfl := Option.some.inj h
    exact ⟨rfl, _, rfl, rfl⟩
  · obtain rfl := Option.some.inj h
    exact hextend rfl
  · obtain rfl := Option.some.inj h
    exact ⟨rfl, _, rfl, rfl⟩
  · obtain rfl := Option.some.inj h
    exact hextend rfl

/-- Only a worker that goes on comes to be in its handler, or returns from it. -/
theorem other_handles {op : Processing.Op Unit HandlerOutcome}
    (hop : ∀ i x, op ≠ .advance i x) (h : Processing.step D (adapter D) number p op = some p') :
    p'.returned = p.returned ∧ ∀ i item e, Handles p' i item e → Handles p i item e := by
  have hupdate : ∀ {i : String} {wk wk' : Processing.Worker Unit Unit Empty},
      p.workers i = some wk → wk'.phase = wk.phase →
      p'.workers = Function.update p.workers i (some wk') →
      ∀ j item e, Handles p' j item e → Handles p j item e := by
    rintro i wk wk' hwk hphase hworkers j item e ⟨x, n, h, hx, hphase'⟩
    rw [hworkers, Function.update_apply] at hx
    split_ifs at hx with heq
    · obtain rfl := Option.some.inj hx
      exact ⟨wk, n, h, heq ▸ hwk, hphase.symm.trans hphase'⟩
    · exact ⟨x, n, h, hx, hphase'⟩
  cases op with
  | advance i x => exact absurd rfl (hop i x)
  | routing op =>
    simp only [Processing.step] at h
    split_ifs at h
    obtain ⟨routing, -, rfl⟩ := Option.map_eq_some_iff.mp h
    exact ⟨rfl, fun i item e he => he⟩
  | deleteSnapshot u =>
    simp only [Processing.step] at h
    split at h <;> obtain rfl := Option.some.inj h <;> exact ⟨rfl, fun i item e he => he⟩
  | recordSnapshot now u t v d m =>
    simp only [Processing.step] at h
    split_ifs at h
    split at h <;> obtain rfl := Option.some.inj h <;> exact ⟨rfl, fun i item e he => he⟩
  | start i lease memory =>
    simp only [Processing.step] at h
    split at h
    · obtain rfl := Option.some.inj h
      refine ⟨rfl, ?_⟩
      rintro j item e ⟨x, n, h, hx, hphase⟩
      simp only [Processing.World.setWorker, Function.update_apply] at hx
      split_ifs at hx
      · obtain rfl := Option.some.inj hx
        cases hphase
      · exact ⟨x, n, h, hx, hphase⟩
    · cases h
  | stop i =>
    obtain ⟨wk, hwk, rfl⟩ := Option.map_eq_some_iff.mp h
    have hphase : ({ wk with closing := true } : Processing.Worker Unit Unit Empty).phase = wk.phase := rfl
    exact ⟨rfl, hupdate hwk hphase rfl⟩
  | crash i =>
    obtain ⟨wk, hwk, rfl⟩ := Option.map_eq_some_iff.mp h
    refine ⟨rfl, ?_⟩
    rintro j item e ⟨x, n, h, hx, hphase⟩
    simp only [Processing.World.crash, Function.update_apply] at hx
    split_ifs at hx
    exact ⟨x, n, h, hx, hphase⟩
  | beat i now d =>
    obtain ⟨wk, hwk, h⟩ := Option.bind_eq_some_iff.mp h
    obtain ⟨hreturned, wk', hworkers, hphase⟩ := beat_phase h
    exact ⟨hreturned, hupdate hwk hphase hworkers⟩

/-! ## The steps -/

variable {α ρ : Type} {M : ReadModel D α ρ} {w w' : World ρ} {op : Op}

/-- The steps. -/
inductive StepBy (M : ReadModel D α ρ) (number : JsNumber) (w : World ρ) : World ρ → Prop
  /-- The workers go on, and no handler is called. -/
  | process {op : Processing.Op Unit HandlerOutcome} {p : Processing.World Unit Unit Empty} :
      Processing.step D (adapter D) number w.processing op = some p →
      (∀ i item e, Handles p i item e → Handles w.processing i item e) →
      (p.returned = w.processing.returned ∨ ∃ i wk item e n h, w.processing.workers i = some wk ∧
        wk.phase = .handle item e n h ∧ w.mayEnd M i wk .returned = true ∧
        p.returned = w.processing.returned ++ [(item, e)]) →
      StepBy M number w { w with processing := p }
  /-- A handler is called. -/
  | called {op : Processing.Op Unit HandlerOutcome} {p : Processing.World Unit Unit Empty}
      {i : String} {wk : Processing.Worker Unit Unit Empty} {e : RecordedEvent} :
      Processing.step D (adapter D) number w.processing op = some p →
      w.processing.workers i = some wk → calls wk = some e →
      (∀ j item e', Handles p j item e' → j ≠ i ∧ Handles w.processing j item e' ∨ j = i ∧ e' = e) →
      p.returned = w.processing.returned →
      StepBy M number w (World.send M { w with processing := p } i e)
  | executed {i : ℕ} {e : RecordedEvent} {key : String} {a : α} {row : Option ρ} :
      w.queries[i]? = some ⟨e, .sent⟩ → M.handle e = .writes key a →
      M.write a (w.rows key) = some row → StepBy M number w { w with
        queries := w.queries.set i ⟨e, .executed⟩
        rows := Function.update w.rows key row }
  | failed {i : ℕ} {e : RecordedEvent} : w.queries[i]? = some ⟨e, .sent⟩ →
      StepBy M number w { w with queries := w.queries.set i ⟨e, .failed⟩ }

theorem query_cases {i : ℕ} (h : w.query M i = some w') : StepBy M number w w' := by
  unfold World.query at h
  split at h
  · rename_i e hquery
    split at h
    · rename_i key a hhandle
      split at h
      · rename_i row hwrite
        obtain rfl := Option.some.inj h
        exact .executed hquery hhandle hwrite
      · obtain rfl := Option.some.inj h
        exact .failed hquery
    · cases h
    · cases h
  · cases h

/-- **What a step does.** -/
theorem step_cases (h : step M number w op = some w') : StepBy M number w w' := by
  have hother : ∀ {op : Processing.Op Unit HandlerOutcome}, (∀ i x, op ≠ .advance i x) →
      w.process (D := D) number op = some w' → StepBy M number w w' := by
    intro op hop h
    obtain ⟨p, hp, rfl⟩ := Option.map_eq_some_iff.mp h
    obtain ⟨hreturned, hhandles⟩ := other_handles hop hp
    exact .process hp hhandles (Or.inl hreturned)
  cases op with
  | query i => exact query_cases h
  | processing op =>
    cases op with
    | advance i x =>
      obtain ⟨wk, hwk, h⟩ := Option.bind_eq_some_iff.mp h
      split_ifs at h with hmay
      obtain ⟨w₁, hw₁, rfl⟩ := Option.map_eq_some_iff.mp h
      obtain ⟨p, hp, rfl⟩ := Option.map_eq_some_iff.mp hw₁
      have hadvance : w.processing.advance D (adapter D) i wk x = some p := by
        obtain ⟨wk', hwk', hadvance⟩ := Option.bind_eq_some_iff.mp hp
        obtain rfl := Option.some.inj (hwk.symm.trans hwk')
        exact hadvance
      have hreturned := advance_returned hadvance
      cases hcalls : calls wk with
      | none =>
        refine .process hp (fun j item e hj => ?_) (hreturned.imp_right ?_)
        · rcases advance_handles hwk hadvance hj with hold | ⟨-, hcall⟩
          · exact hold
          · rw [hcalls] at hcall
            cases hcall
        · rintro ⟨item, e, n, h', hphase, hx, hreturned⟩
          exact ⟨i, wk, item, e, n, h', hwk, hphase, hx ▸ hmay, hreturned⟩
      | some e =>
        have hnot : ∀ {item : Item} {e : RecordedEvent} {n : ℕ} {h : Unit},
            wk.phase ≠ .handle item e n h := by
          intro item e n h hphase
          rw [calls, hphase] at hcalls
          cases hcalls
        refine .called hp hwk hcalls (fun j item e' hj => ?_) ?_
        · rcases advance_handles hwk hadvance hj with ⟨x, n, h', hx, hphase⟩ | ⟨rfl, hcall⟩
          · refine Or.inl ⟨?_, x, n, h', hx, hphase⟩
            rintro rfl
            exact hnot (Option.some.inj (hwk.symm.trans hx) ▸ hphase)
          · exact Or.inr ⟨rfl, Option.some.inj (hcall.symm.trans hcalls)⟩
        · rcases hreturned with hsame | ⟨item, e, n, h', hphase, -⟩
          · exact hsame
          · exact absurd hphase hnot
    | _ => exact hother (fun _ _ => by simp) h

end Steps

end Instructed.ReadStore
