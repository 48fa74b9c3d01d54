import Instructed.Routing.ExactlyOnce

/-!
# The catch-up predicate

`is_subscription_caught_up` reads the cursor and the work items in two statements, and anything may
happen between them. It is sound since a batch moves the cursor and inserts its items in one transaction,
all of them above the cursor before it, and since no item becomes outstanding again.

* `Settled`: nothing at or below the target is outstanding, and the cursor has passed it;
* `Settled.run`: that lasts;
* `caughtUp_sound_stable`: **what the predicate says is true, and stays true.**
-/

namespace Instructed.Routing

open Sql Relational Transition Numbering

section CaughtUp

variable {κ : Type} [DecidableEq κ] {D : RoutingDefinition} {number : JsNumber} {w w' : World κ}
  {op : Op κ} {target : ℕ}

/-- The history grows, and a row is new or comes from a row that was there. -/
theorem step_origin (h : step D number w op = some w') : ∃ es,
    w'.queue.events = w.queue.events ++ es ∧ ∀ row' ∈ w'.store.workItems.rows,
      (w.store.workItems.find? row'.pkey = none ∧ .inserted row'.pkey ∈ es) ∨
        ∃ row ∈ w.store.workItems.rows, Queue.RowStep es row row' := by
  rcases step_queue h with heq | ⟨q, hq⟩
  · rw [World.store, World.store, heq]
    exact ⟨[], (List.append_nil _).symm, fun row' hr => Or.inr ⟨row', hr, .same⟩⟩
  · exact Queue.step_origin hq

/-- What the ghosts do in a step. -/
structure Grows (w w' : World κ) : Prop where
  start : ∀ s, w.start = some s → w'.start = some s
  committed : w.committed <+: w'.committed

omit [DecidableEq κ] in
theorem grows_of_eq {x : World κ} (hs : x.start = w.start) (hc : x.committed = w.committed) :
    Grows w x :=
  ⟨fun _ h => hs.trans h, hc ▸ List.prefix_refl _⟩

omit [DecidableEq κ] in
theorem Move.grows {x : World κ} {id : String} {wk wk' : Worker}
    (h : Move D number w id wk x wk') : Grows w x := by
  have hcall : ∀ d c, (w.call d c).start = w.start ∧ (w.call d c).committed = w.committed := by
    intro d c
    unfold World.call
    split_ifs <;> exact ⟨rfl, rfl⟩
  have hclaim : ∀ now d, Grows w (w.afterClaim D id wk.opts now d) := by
    intro now d
    refine ⟨fun s hs => ?_, ?_⟩
    · show w.start.or _ = some s
      rw [hs, Option.some_or]
    · show w.committed <+: (w.call d _).committed
      rw [(hcall d _).2]
  cases h with
  | claimed _ _ _ => exact hclaim _ _
  | unclaimed _ _ => exact hclaim _ _
  | committed _ _ _ _ => exact ⟨fun s hs => (hcall _ _).1.trans hs, List.prefix_append ..⟩
  | released _ => exact grows_of_eq (hcall _ _).1 (hcall _ _).2
  | _ => exact grows_of_eq rfl rfl

theorem step_grows (h : step D number w op = some w') : Grows w w' := by
  cases step_cases h with
  | moved _ hmove => exact ⟨hmove.grows.start, hmove.grows.committed⟩
  | _ => exact grows_of_eq rfl rfl

/-! ## What is committed was decided -/

/-- `routeFn` comes to a decision on the event. -/
def RoutingDefinition.Decides (D : RoutingDefinition) (e : RecordedEvent) : Prop :=
  D.routeFn e = .ignore ∨ ∃ p, D.routeFn e = .partition p

/-- What the worker has passed of its batch. -/
def Phase.routed? : Phase → Option Routed
  | .route _ _ r | .decide _ _ _ r | .commit _ r _ => some r
  | _ => none

theorem Phase.routed?_eq_none {phase : Phase} (h : phase.lastSeen? = none) : phase.routed? = none := by
  cases phase <;> simp_all [Phase.lastSeen?, Phase.routed?]

/-- The events that were committed, or passed by a worker, were decided on. -/
structure Decided (D : RoutingDefinition) (w : World κ) : Prop where
  committed : ∀ e ∈ w.committed, D.Decides e
  passed : ∀ id wk r, w.workers id = some wk → wk.phase.routed? = some r → ∀ e ∈ r.seen, D.Decides e

omit [DecidableEq κ] in
/-- What a worker has passed after a move. -/
theorem Move.decides {x : World κ} {id : String} {wk wk' : Worker}
    (h : Move D number w id wk x wk')
    (hold : ∀ r, wk.phase.routed? = some r → ∀ e ∈ r.seen, D.Decides e) :
    ∀ r, wk'.phase.routed? = some r → ∀ e ∈ r.seen, D.Decides e := by
  have hdropped : wk'.phase.lastSeen? = none →
      ∀ r, wk'.phase.routed? = some r → ∀ e ∈ r.seen, D.Decides e := fun hnone r hr =>
    nomatch (Phase.routed?_eq_none hnone).symm.trans hr
  have hnext : ∀ (r : Routed) (e : RecordedEvent), wk.phase.routed? = some r → D.Decides e →
      ∀ e' ∈ r.seen ++ [e], D.Decides e' := by
    intro r e hr he e' hmem
    rcases List.mem_append.mp hmem with hmem | hmem
    · exact hold r hr e' hmem
    · exact List.mem_singleton.mp hmem ▸ he
  cases h with
  | closing => exact hold
  | dropped hnone => exact hdropped hnone
  | unclaimed _ hnone => exact hdropped hnone
  | committed _ _ _ hnone => exact hdropped hnone
  | released hnone => exact hdropped hnone
  | claimed _ _ _ =>
    intro r hr
    cases hr
  | read _ _ =>
    rintro r hr e he
    obtain rfl := Option.some.inj hr
    cases he
  | inspected hphase => exact fun r hr => hold r (hphase ▸ hr)
  | batched hphase _ => exact fun r hr => hold r (hphase ▸ hr)
  | ignored hphase hroute =>
    intro r hr
    obtain rfl := Option.some.inj hr
    exact hnext _ _ (hphase ▸ rfl) (Or.inl hroute)
  | partitioned hphase hroute =>
    intro r hr
    obtain rfl := Option.some.inj hr
    exact hnext _ _ (hphase ▸ rfl) (Or.inr ⟨_, hroute⟩)

omit [DecidableEq κ] in
/-- What is committed after a move. -/
theorem Move.committed_cases {x : World κ} {id : String} {wk wk' : Worker}
    (h : Move D number w id wk x wk') : x.committed = w.committed ∨
      ∃ r, wk.phase.routed? = some r ∧ x.committed = w.committed ++ r.seen := by
  have hcall : ∀ d c, (w.call d c).committed = w.committed := by
    intro d c
    unfold World.call
    split_ifs <;> rfl
  cases h with
  | claimed _ _ _ => exact Or.inl (hcall _ _)
  | unclaimed _ _ => exact Or.inl (hcall _ _)
  | released _ => exact Or.inl (hcall _ _)
  | committed hphase _ _ _ => exact Or.inr ⟨_, hphase ▸ rfl, rfl⟩
  | _ => exact Or.inl rfl

theorem Decided.step (h : Decided D w) (hstep : Routing.step D number w op = some w') :
    Decided D w' := by
  cases step_cases hstep with
  | queue _ _ _ => exact ⟨h.committed, h.passed⟩
  | started _ =>
    refine ⟨h.committed, fun i wk r hwk hr => ?_⟩
    simp only [World.setWorker, Function.update_apply] at hwk
    split_ifs at hwk
    · obtain rfl := Option.some.inj hwk
      cases hr
    · exact h.passed i wk r hwk hr
  | crashed =>
    refine ⟨h.committed, fun i wk r hwk hr => ?_⟩
    simp only [World.setWorker, Function.update_apply] at hwk
    split_ifs at hwk
    exact h.passed i wk r hwk hr
  | @moved id wk _ _ hwk hmove =>
    refine ⟨fun e he => ?_, fun i x r hx hr => ?_⟩
    · rcases hmove.committed_cases with heq | ⟨r, hr, heq⟩
      · exact h.committed e (heq ▸ he)
      · have hmem : e ∈ w.committed ++ r.seen := heq ▸ he
        rcases List.mem_append.mp hmem with hmem | hmem
        · exact h.committed e hmem
        · exact h.passed id wk r hwk hr e hmem
    · simp only [World.setWorker, hmove.workers, Function.update_apply] at hx
      split_ifs at hx
      · obtain rfl := Option.some.inj hx
        exact hmove.decides (h.passed id wk · hwk) r hr
      · exact h.passed i x r hx hr

/-- An item that was inserted in a step lies above the cursor before it. -/
theorem Inv.inserted_above (h : Inv D w) (h' : Inv D w') (hD : D.stream = "$all")
    (hstep : Routing.step D number w op = some w') {row : SubscriptionRow}
    (hrow : D.row w.store = some row) {es : List Queue.Event}
    (hes : w'.queue.events = w.queue.events ++ es) {item : String × ℤ}
    (hitem : .inserted (row.pkey, item) ∈ es) : (row.lastSeen : ℤ) < item.2 := by
  have hc' := h'.grounded.consistent.store
  obtain ⟨row', hrow', hkey, -⟩ := step_lastSeen_le h.grounded hstep hrow
  obtain ⟨start, hstart, hp⟩ := h.progress row hrow
  obtain ⟨start', hstart', hp'⟩ := h'.progress row' hrow'
  obtain ⟨more, hmore⟩ := (step_grows hstep).committed
  obtain rfl := Option.some.inj (((step_grows hstep).start start hstart).symm.trans hstart')
  -- The batch that was committed in the step is what was inserted in it.
  have hinserted : insertedFor row.pkey es = (more.filterMap D.decision).map decisionItem := by
    have happ := hp'.inserted
    rw [hkey, hes, insertedFor_append, hp.inserted, ← hmore, List.filterMap_append,
      List.map_append] at happ
    exact List.append_cancel_left happ
  have hmem : item ∈ insertedFor row.pkey es := mem_insertedFor.mpr hitem
  rw [hinserted] at hmem
  obtain ⟨d, hd, rfl⟩ := List.mem_map.mp hmem
  obtain ⟨e, he, hde⟩ := List.mem_filterMap.mp hd
  have htaken := hp'.taken
  rw [← hmore] at htaken
  have hpos := ((Consecutive.append_iff.mp (htaken.consecutive (source_consecutive hc'))).2.pos_mem
    he).1
  rw [RoutingDefinition.position, if_pos hD] at hpos
  have hall := hp.all hD
  show (row.lastSeen : ℤ) < (d.2 : ℤ)
  rw [decision_number hde]
  omega

/-! ## What stays true -/

/-- The cursor has passed the target, and nothing at or below the target is outstanding. -/
def Settled (D : RoutingDefinition) (target : ℕ) (w : World κ) : Prop :=
  ∃ row, D.row w.store = some row ∧ target ≤ row.lastSeen ∧
    ∀ item ∈ w.store.workItems.rows, item.subscription = row.pkey →
      item.eventNumber ≤ target → item.state.outstanding = false

theorem Settled.step (h : Settled D target w) (hinv : Inv D w) (hinv' : Inv D w')
    (hD : D.stream = "$all") (hstep : Routing.step D number w op = some w') : Settled D target w' := by
  obtain ⟨row, hrow, hle, hnone⟩ := h
  obtain ⟨row', hrow', hkey, hle'⟩ := step_lastSeen_le hinv.grounded hstep hrow
  obtain ⟨es, hes, horigin⟩ := step_origin hstep
  refine ⟨row', hrow', hle.trans hle', fun item hitem hsub hn => ?_⟩
  rcases horigin item hitem with ⟨-, hmem⟩ | ⟨old, hold, hrowstep⟩
  · have hkey' : item.pkey = (row.pkey, item.partitionKey, item.eventNumber) := by
      rw [← hkey, ← hsub]
      rfl
    have habove := hinv.inserted_above hinv' hD hstep hrow hes (hkey' ▸ hmem)
    have : (row.lastSeen : ℤ) < item.eventNumber := habove
    omega
  · obtain ⟨hsub', -, hn'⟩ : old.subscription = item.subscription ∧
        old.partitionKey = item.partitionKey ∧ old.eventNumber = item.eventNumber := by
      have hpkey := hrowstep.pkey_eq.symm
      exact ⟨congrArg Prod.fst hpkey, congrArg (fun k => k.2.1) hpkey,
        congrArg (fun k => k.2.2) hpkey⟩
    by_contra hout
    have hok := hinv.grounded.history.tracked.holderOk old hold
    have hout' := hrowstep.outstanding_of hok (Bool.eq_true_of_not_eq_false hout)
    rw [hnone old hold (by rw [hsub', hsub, hkey]) (by omega)] at hout'
    cases hout'

/-! ## Runs -/

variable {ops : List (Op κ)}

theorem reachable_run (hw : Reachable (system D number) w)
    (hrun : (system D number).run w ops = some w') : w.store.log <+: w'.store.log ∧
      ∀ row, D.row w.store = some row →
        ∃ row', D.row w'.store = some row' ∧ row'.pkey = row.pkey ∧ row.lastSeen ≤ row'.lastSeen := by
  induction ops generalizing w with
  | nil =>
    cases hrun
    exact ⟨List.prefix_refl _, fun row hrow => ⟨row, hrow, rfl, le_rfl⟩⟩
  | cons op ops ih =>
    obtain ⟨t, ht, hrun⟩ := System.run_cons_eq_some.mp hrun
    have hg := grounded_of_reachable hw
    obtain ⟨hlog, hrows⟩ := ih (.step hw trivial ht) hrun
    refine ⟨(step_log hg ht).trans hlog, fun row hrow => ?_⟩
    obtain ⟨row', hrow', hkey, hle⟩ := step_lastSeen_le hg ht hrow
    obtain ⟨row'', hrow'', hkey', hle'⟩ := hrows row' hrow'
    exact ⟨row'', hrow'', hkey'.trans hkey, hle.trans hle'⟩

theorem inv_of_bound (hD : D.stream = "$all") (hw : Reachable (system D number) w)
    (hbound : w.store.log.length < 2 ^ 53) : Inv D w :=
  .of_reachable (hw.weaken fun _ _ _ => Or.inl hD) hbound

/-- **What is settled stays settled.** -/
theorem Settled.run (h : Settled D target w) (hD : D.stream = "$all")
    (hw : Reachable (system D number) w) (hrun : (system D number).run w ops = some w')
    (hbound : w'.store.log.length < 2 ^ 53) : Settled D target w' := by
  induction ops generalizing w with
  | nil =>
    cases hrun
    exact h
  | cons op ops ih =>
    obtain ⟨t, ht, hrun⟩ := System.run_cons_eq_some.mp hrun
    have htr : Reachable (system D number) t := .step hw trivial ht
    have hlen := (step_log (grounded_of_reachable hw) ht).length_le
    have hlen' := (reachable_run htr hrun).1.length_le
    have hinv := inv_of_bound hD hw (by omega)
    have hinv' := inv_of_bound hD htr (by omega)
    exact ih (h.step hinv hinv' hD ht) htr hrun

/-! ## The result -/

/-- The call on the subscription. -/
def RoutingDefinition.caughtUp (D : RoutingDefinition) (target : ℕ) (st st' : Store) : Except SqlError Bool :=
  isSubscriptionCaughtUp (some D.stream) (some D.name) (some target) st st'

omit [DecidableEq κ] in
theorem caughtUp_iff {st st' : Store} : D.caughtUp target st st' = .ok true ↔
    D.name ≠ "" ∧ ∃ row, D.row st = some row ∧ target ≤ row.lastSeen ∧
      ∀ item ∈ st'.workItems.rows, item.subscription = row.pkey → item.eventNumber ≤ target →
        item.state.outstanding = false := by
  rw [RoutingDefinition.caughtUp, isSubscriptionCaughtUp_eq_true]
  refine and_congr_right' ?_
  constructor
  · rintro ⟨stream, row, hstream, hfind, hle, hnone⟩
    exact ⟨row, (row_of_stream hstream).trans hfind, hle, Table.key_of_find? hfind ▸ hnone⟩
  · rintro ⟨row, hrow, hle, hnone⟩
    obtain ⟨key, hkey, hfind⟩ := Option.bind_eq_some_iff.mp hrow
    obtain ⟨stream, hstream, rfl⟩ := Option.map_eq_some_iff.mp hkey
    exact ⟨stream, row, hstream, hfind, hle, Table.key_of_find? hfind ▸ hnone⟩

/-- Every event behind the start and up to the target was inspected, what `routeFn` made of it was
    inserted, and what was inserted is deleted or done. -/
structure Processed (D : RoutingDefinition) (target : ℕ) (w : World κ) (row : SubscriptionRow)
    (start : ℕ) : Prop where
  routed : ∀ e ∈ w.store.log, start < e.eventNumber → e.eventNumber ≤ target →
    e.eventNumber ∈ w.inspected ∧ ∀ p, D.routeFn e = .partition p →
      (p, (e.eventNumber : ℤ)) ∈ insertedFor row.pkey w.queue.events
  completed : ∀ p n, (p, n) ∈ insertedFor row.pkey w.queue.events → n ≤ target →
    ∀ item, w.store.workItems.find? (row.pkey, p, n) = some item → item.state = .done

omit [DecidableEq κ] in
theorem Settled.processed (h : Settled D target w) (hD : D.stream = "$all") (hinv : Inv D w) :
    ∃ row start, D.row w.store = some row ∧ w.start = some start ∧ Processed D target w row start := by
  obtain ⟨row, hrow, hle, hnone⟩ := h
  obtain ⟨start, hstart, hp⟩ := hinv.progress row hrow
  have hc : w.store.Consistent := hinv.grounded.consistent.store
  refine ⟨row, start, hrow, hstart, fun e he hlt hn => ?_, fun p n _ hn item hitem => ?_⟩
  · have hmem : e ∈ w.committed := (hp.mem_committed hD hc e).mpr (by
      rw [passed, List.mem_filter, decide_eq_true_eq]
      exact ⟨he, hlt, hn.trans hle⟩)
    exact ⟨hp.inspected e hmem, fun p hroute => (hp.mem_inserted p _).mpr ⟨e, hmem, hroute, rfl⟩⟩
  · have hkey := Table.key_of_find? hitem
    have hout := hnone item (Table.mem_of_find? hitem) (congrArg Prod.fst hkey)
      ((congrArg (fun k => k.2.2) hkey).trans_le hn)
    cases hstate : item.state with
    | done => rfl
    | _ => rw [hstate] at hout; cases hout

/-- What follows from a call that read the cursor in `w₁`, the items in `w₂`, and returned true. A later
    call reads in `w₃` and `w₄`. -/
structure SoundStable (D : RoutingDefinition) (number : JsNumber) (target : ℕ) (w₁ w₂ : World κ) :
    Prop where
  reached : ∃ row, D.row w₁.store = some row ∧ target ≤ row.lastSeen
  processed : ∃ row start, D.row w₂.store = some row ∧ w₂.start = some start ∧
    Processed D target w₂ row start
  stable : ∀ ops₃ ops₄ w₃ w₄, (system D number).run w₂ ops₃ = some w₃ →
    (system D number).run w₃ ops₄ = some w₄ → w₄.store.log.length < 2 ^ 53 →
      (∃ row start, D.row w₄.store = some row ∧ w₄.start = some start ∧
        Processed D target w₄ row start) ∧
      ∀ target' ≤ target, D.caughtUp target' w₃.store w₄.store = .ok true

/-- **The catch-up predicate is sound and stable.** -/
theorem caughtUp_sound_stable (hD : D.stream = "$all") {w₁ w₂ : World κ} {ops : List (Op κ)}
    (hw : Reachable (system D number) w₁) (hrun : (system D number).run w₁ ops = some w₂)
    (hbound : w₂.store.log.length < 2 ^ 53) (htrue : D.caughtUp target w₁.store w₂.store = .ok true) :
    SoundStable D number target w₁ w₂ := by
  obtain ⟨hname, row, hrow, hle, hnone⟩ := caughtUp_iff.mp htrue
  have hw₂ : Reachable (system D number) w₂ := .run hw hrun
  have hsettled : Settled D target w₂ := by
    obtain ⟨row', hrow', hkey, hle'⟩ := (reachable_run hw hrun).2 row hrow
    exact ⟨row', hrow', hle.trans hle', hkey ▸ hnone⟩
  refine ⟨⟨row, hrow, hle⟩, hsettled.processed hD (inv_of_bound hD hw₂ hbound), ?_⟩
  intro ops₃ ops₄ w₃ w₄ hrun₃ hrun₄ hbound₄
  have hw₃ : Reachable (system D number) w₃ := .run hw₂ hrun₃
  have hlen := (reachable_run hw₃ hrun₄).1.length_le
  have hsettled₃ := hsettled.run hD hw₂ hrun₃ (by omega)
  have hsettled₄ := hsettled₃.run hD hw₃ hrun₄ hbound₄
  refine ⟨hsettled₄.processed hD (inv_of_bound hD (.run hw₃ hrun₄) hbound₄), fun target' ht => ?_⟩
  obtain ⟨row₃, hrow₃, hle₃, -⟩ := hsettled₃
  obtain ⟨row₄, hrow₄, -, hnone₄⟩ := hsettled₄
  obtain ⟨row', hrow', hkey, -⟩ := (reachable_run hw₃ hrun₄).2 row₃ hrow₃
  obtain rfl := Option.some.inj (hrow'.symm.trans hrow₄)
  refine caughtUp_iff.mpr ⟨hname, row₃, hrow₃, ht.trans hle₃, fun item hitem hsub hn => ?_⟩
  exact hnone₄ item hitem (hsub.trans hkey.symm) (hn.trans (by exact_mod_cast ht))

end CaughtUp

/-! ## A run -/

section Example

/-- The first event is routed, and its work item is claimed and completed. -/
def sampleCompletion : List (Op ℕ) :=
  sampleRun.take 16 ++ [.queue (.openClaim 0), .queue (.claimItem 0 30 (fun _ => false) (some "$all") (some "orders")
    (some "h") (some 5)), .queue (.call (.completeProjection
      ⟨some "$all", some "orders", some "h", some "order-1", some 1⟩))]

theorem caughtUp_sound_stable_sampleRun : ∃ w₁ w₂,
    (system (κ := ℕ) (sampleDefinition "$all") sampleNumber).run World.install
        sampleCompletion = some w₁ ∧
      (system (sampleDefinition "$all") sampleNumber).run w₁ [sampleAppend "order-2" "2"] = some w₂ ∧
        SoundStable (sampleDefinition "$all") sampleNumber 1 w₁ w₂ := by
  have hboth : ((system (κ := ℕ) (sampleDefinition "$all") sampleNumber).run World.install
      sampleCompletion).bind (fun w₁ =>
        ((system (κ := ℕ) (sampleDefinition "$all") sampleNumber).run w₁
          [sampleAppend "order-2" "2"]).map fun w₂ => (w₂.store.log.length,
            ((sampleDefinition "$all").caughtUp 1 w₁.store w₂.store).toOption)) =
              some (2, some true) := by decide +kernel
  obtain ⟨w₁, hw₁, hnext⟩ := Option.bind_eq_some_iff.mp hboth
  obtain ⟨w₂, hw₂, heq⟩ := Option.map_eq_some_iff.mp hnext
  obtain ⟨hlength, htrue⟩ := Prod.mk.inj heq
  refine ⟨w₁, w₂, hw₁, hw₂, caughtUp_sound_stable rfl (.run (.init rfl) hw₁) hw₂ ?_ ?_⟩
  · rw [hlength]
    decide
  · cases hc : (sampleDefinition "$all").caughtUp 1 w₁.store w₂.store with
    | ok b =>
      rw [hc] at htrue
      exact congrArg Except.ok (Option.some.inj htrue)
    | error e =>
      rw [hc] at htrue
      cases htrue

end Example

end Instructed.Routing
