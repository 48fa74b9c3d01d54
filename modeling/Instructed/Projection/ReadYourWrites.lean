import Instructed.Consistency.Wait
import Instructed.Processing.Invariant
import Instructed.Projection.Worker
import Instructed.Queue.Accounted
import Instructed.Routing.CaughtUp

/-!
# Reading one's own writes

A wait on a projection polls while its workers route and handle. When the predicate is true, the events
up to the target were routed and no item of theirs is outstanding; an item leaves the table only when a
worker whose handler returned on it completes it; and what was true when a poll read it stays true.

* `step`, `system`: the workers of a projection, beside any number of waits;
* `Handled`: what the workers of a projection keep;
* `read_your_writes`: **a wait that returns has seen every event up to its target handled**.
-/

namespace Instructed.Projection

open Sql Relational Transition Routing Processing Consistency

/-- The workers of a projection, and the waits. -/
structure World where
  processing : Processing.World Unit Unit Empty
  waits : ℕ → Option Wait

/-- What happens next. -/
inductive Op where
  | processing (op : Processing.Op Unit HandlerOutcome)
  | wait (i : ℕ) (rows : List AppendedEvent) (subscriptions : List SubscriptionRef) (timeout : ℕ)
      (now : ℤ)
  /-- `dispatch` has appended its events. -/
  | dispatch (i : ℕ) (appended : List AppendedEvent) (consistency : Option (List ConsistencyEntry))
      (consistencyTimeout : Option ℕ) (now : ℤ)
  | ask (i : ℕ)
  | answer (i : ℕ) (d : Delivery)
  | endPass (i : ℕ) (now : ℤ)

section World

variable (D : RoutingDefinition) (number : JsNumber)

def World.install : World := ⟨Processing.World.install, fun _ => none⟩

def World.store (w : World) : Store := w.processing.store

/-- The wait `i` goes on. -/
def World.goOn (w : World) (i : ℕ) (f : Wait → Option Wait) : Option World :=
  ((w.waits i).bind f).map fun wait => { w with waits := Function.update w.waits i (some wait) }

/-- The wait `i` begins. -/
def World.begin (w : World) (i : ℕ) (wait : Wait) : Option World :=
  match w.waits i with
  | none => some { w with waits := Function.update w.waits i (some wait) }
  | some _ => none

/-- One step. -/
def step (w : World) : Op → Option World
  | .processing op => (Processing.step D (adapter D) number w.processing op).map fun processing =>
      { w with processing := processing }
  | .wait i rows subscriptions timeout now =>
    w.begin i (waitForProjection rows subscriptions timeout now)
  | .dispatch i appended consistency timeout now =>
    w.begin i (dispatchWait appended consistency timeout now)
  | .ask i => w.goOn i fun wait => wait.ask w.store
  | .answer i d => w.goOn i fun wait => wait.answer d w.store
  | .endPass i now => w.goOn i fun wait => wait.endPass now

/-- A projection on a fresh install. -/
def system : System World Op where
  init w := w = World.install
  step := step D number

end World

/-! ## What the workers of a projection keep -/

section Handled

variable {D : RoutingDefinition} {number : JsNumber}
  {w w' : Processing.World Unit Unit Empty} {op : Processing.Op Unit HandlerOutcome}

theorem adapter_untargeted : (adapter D).Untargeted := by
  intro id m item e m' call h now st
  obtain rfl := Option.some.inj (congrArg Prod.snd h)
  rfl

/-- The item that a row's key names. -/
def itemOf (key : Queue.Key) : Item := ⟨key.2.1, key.2.2⟩

/-- A handler returned on the event of the item. -/
def HandledItem (w : Processing.World Unit Unit Empty) (item : Item) : Prop :=
  ∃ e ∈ w.store.log, (e.eventNumber : ℤ) = item.eventNumber ∧ (item, e) ∈ w.returned

/-- What a worker knows that is about to complete an item. -/
theorem phase_complete
    (hw : Reachable (Processing.system D (adapter D) number) w) {id : String}
    {wk : Processing.Worker Unit Unit Empty} (hwk : w.workers id = some wk) {item : Item}
    {e : RecordedEvent} {call : Timestamp → Queue.Call} (hphase : wk.phase = .complete item e call) :
    HandledItem w item ∧ call = fun _ => .completeProjection (itemArgs D id item) := by
  have hevent : wk.phase.event? = some (item, e) := by
    rw [hphase]
    rfl
  obtain ⟨m, m', hcall⟩ := phase_call hw hwk item e call hphase
  exact ⟨⟨e, phase_mem_log adapter_untargeted hw hwk item e hevent,
    phase_event hw hwk item e hevent, phase_returned hw hwk item e call hphase⟩,
    (Option.some.inj (congrArg Prod.snd hcall)).symm⟩

/-- **What a step finishes was handled before it.** -/
theorem effect_finished (hw : Reachable (Processing.system D (adapter D) number) w) {st : Store}
    {es : List Queue.Event} (h : Effect D (adapter D) number w st es) {key : Queue.Key}
    (hfinished : Queue.Finished es key) : HandledItem w (itemOf key) := by
  obtain ⟨id, wk, item, e, call, now, hwk, hphase, hrun⟩ := h.of_finished hfinished
  obtain ⟨hhandled, rfl⟩ := phase_complete hw hwk hphase
  obtain ⟨st', -, heq⟩ := map_eq_ok.mp hrun
  cases heq
  have hcompleted : ∀ ev ∈ ((Queue.named (itemArgs D id item) w.store).map fun k =>
      Queue.Event.completed k.1 k.2).toList, ∃ worker k, ev = .completed worker k ∧
        itemOf k = item := by
    intro ev hev
    rw [named_itemArgs] at hev
    obtain ⟨k, hk, rfl⟩ := Option.map_eq_some_iff.mp (Option.mem_toList.mp hev)
    obtain ⟨sub, -, rfl⟩ := Option.map_eq_some_iff.mp hk
    exact ⟨_, _, rfl, rfl⟩
  rcases hfinished with ⟨worker, hmem⟩ | hmem
  · obtain ⟨_, _, heq, hitem⟩ := hcompleted _ hmem
    cases heq
    exact hitem ▸ hhandled
  · obtain ⟨_, _, heq, -⟩ := hcompleted _ hmem
    cases heq

theorem HandledItem.step {item : Item} (h : HandledItem w item)
    (hw : Reachable (Processing.system D (adapter D) number) w)
    (hstep : Processing.step D (adapter D) number w op = some w') : HandledItem w' item := by
  obtain ⟨e, he, hn, hmem⟩ := h
  exact ⟨e, (step_log adapter_untargeted hw hstep).subset he, hn, step_returned hstep hmem⟩

/-- **Every item that was finished was handled.** -/
theorem finished_handled (hw : Reachable (Processing.system D (adapter D) number) w) :
    ∀ key, Queue.Finished w.routing.queue.events key → HandledItem w (itemOf key) := by
  refine hw.invariant_of_reachable
    (P := fun w => ∀ key, Queue.Finished w.routing.queue.events key → HandledItem w (itemOf key)) ?_
    fun s op s' hs ih _ hstep key hfinished => ?_
  · rintro _ rfl key (⟨worker, hmem⟩ | hmem) <;> cases hmem
  · obtain ⟨es, heffect, hes⟩ := step_effect hstep
    apply HandledItem.step _ hs hstep
    rw [hes, Queue.finished_append] at hfinished
    rcases hfinished with hold | hnew
    · exact ih key hold
    · exact effect_finished hs heffect hnew

/-- **What is settled was handled.** -/
theorem settled_handled (hD : D.stream = "$all")
    (hw : Reachable (Processing.system D (adapter D) number) w)
    (hbound : w.store.log.length < 2 ^ 53) {target : ℕ} (h : Settled D target w.routing) :
    ∃ start, w.routing.start = some start ∧ ∀ e ∈ w.store.log, start < e.eventNumber →
      e.eventNumber ≤ target → D.routeFn e = .ignore ∨
        ∃ p, D.routeFn e = .partition p ∧ (⟨p, e.eventNumber⟩, e) ∈ w.returned := by
  have hinv := inv_of_reachable adapter_untargeted hD hw hbound
  have hc : w.store.Consistent := hinv.grounded.consistent.store
  obtain ⟨row, hrow, hle, hnone⟩ := h
  obtain ⟨start, hstart, hp⟩ := hinv.progress row hrow
  refine ⟨start, hstart, fun e he hlt hn => ?_⟩
  have hmem : e ∈ w.routing.committed := (hp.mem_committed hD hc e).mpr (by
    rw [passed, List.mem_filter, decide_eq_true_eq]
    exact ⟨he, hlt, hn.trans hle⟩)
  refine ((decided_of_reachable adapter_untargeted hw).committed e hmem).imp_right ?_
  rintro ⟨p, hroute⟩
  refine ⟨p, hroute, ?_⟩
  -- The item was inserted, and is not outstanding.
  have hinserted := mem_insertedFor.mp ((hp.mem_inserted p e.eventNumber).mpr ⟨e, hmem, hroute, rfl⟩)
  rcases accounted_of_reachable adapter_untargeted hw _ hinserted with ⟨item, hitem, hout⟩ | hfinished
  · have hkey := Table.key_of_find? hitem
    have hle' : ((e.eventNumber : ℕ) : ℤ) ≤ target := by omega
    have hdone := hnone item (Table.mem_of_find? hitem) (congrArg Prod.fst hkey)
      ((congrArg (fun k => k.2.2) hkey).trans_le hle')
    rw [hdone] at hout
    cases hout
  · obtain ⟨e', he', hn', hmem'⟩ := finished_handled hw _ hfinished
    have hnumber : (e'.eventNumber : ℤ) = e.eventNumber := hn'
    rwa [hc.log_numbered.eventNumber.eq_of_pos_eq he' he (by omega)] at hmem'

end Handled

/-! ## Waits -/

section Waits

variable {D : RoutingDefinition} {number : JsNumber} {w w' : World} {op : Op} {wait wait' : Wait}

/-- The ref of the projection. -/
def projectionRef (D : RoutingDefinition) : SubscriptionRef := ⟨D.stream, D.name⟩

/-- The entries of the map `remaining` of a wait on the projection. -/
def EntryOf (D : RoutingDefinition) (e : String × SubscriptionRef) : Prop :=
  e = (refKey (projectionRef D), projectionRef D)

/-- What the polling loop knows at each point. -/
def StageOk (D : RoutingDefinition) (w : Processing.World Unit Unit Empty) (wait : Wait) : Prop :=
  match wait.stage with
  | .pass rest => ∀ e ∈ rest, EntryOf D e
  | .asking key ref rest read => EntryOf D (key, ref) ∧ (∀ e ∈ rest, EntryOf D e) ∧
    ∀ row, D.row read = some row →
      ∃ row', D.row w.store = some row' ∧ row'.pkey = row.pkey ∧ row.lastSeen ≤ row'.lastSeen
  | .returned => wait.remaining = []
  | .threw _ => True

/-- What a wait on the projection alone knows. -/
structure WaitOk (D : RoutingDefinition) (w : Processing.World Unit Unit Empty) (wait : Wait) :
    Prop where
  target : ∀ r ∈ wait.rows, r.eventNumber ≤ wait.target
  remaining : ∀ e ∈ wait.remaining, EntryOf D e
  settled : wait.remaining = [] → Settled D wait.target w.routing
  stage : StageOk D w wait

/-- A wait on the projection begins. -/
theorem waitOk_begin {rows : List AppendedEvent} {timeout : ℕ} {now : ℤ} (hD : D.stream = "$all")
    (hrows : rows ≠ []) : WaitOk D w.processing
      (waitForProjection rows [projectionRef D] timeout now) := by
  cases rows with
  | nil => exact absurd rfl hrows
  | cons row rows =>
    have hcross : ∀ streams, [projectionRef D].find? (crossStream streams) = none := by
      intro streams
      rw [List.find?_eq_none]
      intro s hs
      obtain rfl := List.mem_singleton.mp hs
      simp [crossStream, projectionRef, hD]
    unfold waitForProjection
    dsimp only
    rw [hcross]
    obtain ⟨hle, htarget⟩ := le_foldl_target rows row.eventNumber
    have hentry : ∀ e ∈ [projectionRef D].foldl setRef [], EntryOf D e := fun e he =>
      List.mem_singleton.mp he
    refine ⟨fun r hr => ?_, hentry, fun hnil => ?_, hentry⟩
    swap
    · cases hnil
    rcases List.mem_cons.mp hr with rfl | hr
    · exact hle
    · exact htarget r hr

theorem WaitOk.ask (h : WaitOk D w.processing wait) (ha : wait.ask w.store = some wait') :
    WaitOk D w.processing wait' := by
  unfold Wait.ask at ha
  split at ha
  · rename_i key ref rest hstage
    obtain rfl := Option.some.inj ha
    have hpass := h.stage
    rw [StageOk, hstage] at hpass
    obtain ⟨hentry, hrest⟩ := List.forall_mem_cons.mp hpass
    exact ⟨h.target, h.remaining, h.settled, hentry, hrest, fun row hrow => ⟨row, hrow, rfl, le_rfl⟩⟩
  · cases ha

/-- What a poll learns. -/
theorem WaitOk.answer {d : Delivery} (h : WaitOk D w.processing wait)
    (ha : wait.answer d w.store = some wait') : WaitOk D w.processing wait' := by
  unfold Wait.answer at ha
  split at ha
  · rename_i key ref rest read hstage
    have hasking := h.stage
    rw [StageOk, hstage] at hasking
    obtain ⟨hentry, hrest, hread⟩ := hasking
    obtain ⟨rfl, rfl⟩ := Prod.mk.inj hentry
    have hpass : WaitOk D w.processing { wait with stage := .pass rest } :=
      ⟨h.target, h.remaining, h.settled, hrest⟩
    split at ha
    · rename_i hreply
      obtain rfl := Option.some.inj ha
      have htrue : D.caughtUp wait.target read w.store = .ok true := (Delivery.reply_ok hreply).2
      obtain ⟨-, row, hrow, hle, hnone⟩ := caughtUp_iff.mp htrue
      obtain ⟨row', hrow', hkey, hle'⟩ := hread row hrow
      refine ⟨h.target, fun e he => h.remaining e (List.mem_filter.mp he).1, fun _ => ?_, hrest⟩
      exact ⟨row', hrow', hle.trans hle', hkey ▸ hnone⟩
    · exact Option.some.inj ha ▸ hpass
    · split_ifs at ha
      · exact Option.some.inj ha ▸ hpass
      · exact Option.some.inj ha ▸ ⟨h.target, h.remaining, h.settled, trivial⟩
    · exact Option.some.inj ha ▸ ⟨h.target, h.remaining, h.settled, trivial⟩
  · cases ha

theorem WaitOk.endPass {now : ℤ} (h : WaitOk D w.processing wait)
    (ha : wait.endPass now = some wait') : WaitOk D w.processing wait' := by
  unfold Wait.endPass at ha
  split at ha
  · split_ifs at ha with hnil
    · exact Option.some.inj ha ▸ ⟨h.target, h.remaining, h.settled, List.isEmpty_iff.mp hnil⟩
    · exact Option.some.inj ha ▸ ⟨h.target, h.remaining, h.settled, trivial⟩
    · exact Option.some.inj ha ▸ ⟨h.target, h.remaining, h.settled, h.remaining⟩
  · cases ha

/-- The workers go on. -/
theorem WaitOk.processing {p : Processing.World Unit Unit Empty}
    (h : WaitOk D w.processing wait) (hD : D.stream = "$all")
    (hinv : Routing.Inv D w.processing.routing) (hbound : w.store.log.length < 2 ^ 53)
    (hby : RoutingBy D number w.processing.routing p.routing) : WaitOk D p wait := by
  refine ⟨h.target, h.remaining, fun hnil => hby.settled hD hinv hbound (h.settled hnil), ?_⟩
  have hstage := h.stage
  unfold StageOk at hstage ⊢
  split
  · rename_i heq
    rwa [heq] at hstage
  · rename_i heq
    rw [heq] at hstage
    obtain ⟨hentry, hrest, hread⟩ := hstage
    refine ⟨hentry, hrest, fun row hrow => ?_⟩
    obtain ⟨row', hrow', hkey, hle⟩ := hread row hrow
    obtain ⟨row'', hrow'', hkey', hle'⟩ := hby.lastSeen_le hinv.grounded hrow'
    exact ⟨row'', hrow'', hkey'.trans hkey, hle.trans hle'⟩
  · rename_i heq
    rwa [heq] at hstage
  · trivial

theorem World.goOn_eq_some {i : ℕ} {f : Wait → Option Wait} (h : w.goOn i f = some w') :
    ∃ wait wait', w.waits i = some wait ∧ f wait = some wait' ∧
      w' = { w with waits := Function.update w.waits i (some wait') } := by
  obtain ⟨wait', hwait', rfl⟩ := Option.map_eq_some_iff.mp h
  obtain ⟨wait, hwait, hf⟩ := Option.bind_eq_some_iff.mp hwait'
  exact ⟨wait, wait', hwait, hf, rfl⟩

theorem World.begin_eq_some {i : ℕ} (h : w.begin i wait = some w') :
    w' = { w with waits := Function.update w.waits i (some wait) } := by
  unfold World.begin at h
  split at h
  · exact (Option.some.inj h).symm
  · cases h

/-- A step is one of the workers, or leaves them alone. -/
theorem step_processing (h : step D number w op = some w') : w'.processing = w.processing ∨
    ∃ op', Processing.step D (adapter D) number w.processing op' = some w'.processing := by
  have hgoOn : ∀ {i f}, w.goOn i f = some w' → w'.processing = w.processing := by
    intro i f h
    obtain ⟨_, _, -, -, rfl⟩ := World.goOn_eq_some h
    rfl
  cases op with
  | processing op =>
    obtain ⟨p, hp, rfl⟩ := Option.map_eq_some_iff.mp h
    exact Or.inr ⟨op, hp⟩
  | wait i rows subscriptions timeout now => exact Or.inl (World.begin_eq_some h ▸ rfl)
  | dispatch i appended consistency timeout now => exact Or.inl (World.begin_eq_some h ▸ rfl)
  | ask i => exact Or.inl (hgoOn h)
  | answer i d => exact Or.inl (hgoOn h)
  | endPass i now => exact Or.inl (hgoOn h)

theorem processing_of_reachable (hw : Reachable (system D number) w) :
    Reachable (Processing.system D (adapter D) number) w.processing := by
  refine hw.invariant (P := fun w => Reachable (Processing.system D (adapter D) number) w.processing)
    ?_ fun s op s' hs _ hstep => ?_
  · rintro _ rfl
    exact .init rfl
  · rcases step_processing hstep with heq | ⟨op', hop⟩
    · exact heq ▸ hs
    · exact .step hs trivial hop

/-- **Every wait on the projection alone is in order.** -/
theorem waits_ok (hD : D.stream = "$all") (hw : Reachable (system D number) w)
    (hbound : w.store.log.length < 2 ^ 53) : ∀ i wait, w.waits i = some wait →
      wait.subscriptions = [projectionRef D] → wait.rows ≠ [] → WaitOk D w.processing wait := by
  induction hw with
  | init hs =>
    cases hs
    intro i wait hwait
    cases hwait
  | @step s s' op hr _ hstep ih =>
    have hlog : s.store.log.length ≤ s'.store.log.length := by
      rcases step_processing hstep with heq | ⟨op', hop⟩
      · rw [World.store, World.store, heq]
      · exact (step_log adapter_untargeted (processing_of_reachable hr) hop).length_le
    have hbound' : s.store.log.length < 2 ^ 53 := by omega
    -- A wait that begins, or goes on; the others stay as they are.
    have hbegin : ∀ {i rows subscriptions timeout now},
        s.begin i (waitForProjection rows subscriptions timeout now) = some s' →
        ∀ j wait, s'.waits j = some wait → wait.subscriptions = [projectionRef D] →
          wait.rows ≠ [] → WaitOk D s'.processing wait := by
      intro i rows subscriptions timeout now h j wait hwait hsubs hrows
      obtain rfl := World.begin_eq_some h
      simp only [Function.update_apply] at hwait
      split_ifs at hwait
      · obtain rfl := Option.some.inj hwait
        obtain ⟨hrows', hsubs'⟩ := waitForProjection_call rows subscriptions timeout now
        obtain rfl := hsubs'.symm.trans hsubs
        exact waitOk_begin hD (hrows' ▸ hrows)
      · exact ih hbound' j wait hwait hsubs hrows
    have hgoOn : ∀ {i} {f : Wait → Option Wait}, s.goOn i f = some s' →
        (∀ wait wait', f wait = some wait' → wait.SameCall wait' ∧
          (WaitOk D s.processing wait → WaitOk D s.processing wait')) →
        ∀ j wait, s'.waits j = some wait → wait.subscriptions = [projectionRef D] →
          wait.rows ≠ [] → WaitOk D s'.processing wait := by
      intro i f h hf j wait hwait hsubs hrows
      obtain ⟨old, new, hold, hnew, rfl⟩ := World.goOn_eq_some h
      simp only [Function.update_apply] at hwait
      split_ifs at hwait
      · obtain rfl := Option.some.inj hwait
        obtain ⟨⟨hrows', hsubs'⟩, hok⟩ := hf old new hnew
        exact hok (ih hbound' i old hold (hsubs'.symm.trans hsubs) (hrows' ▸ hrows))
      · exact ih hbound' j wait hwait hsubs hrows
    cases op with
    | processing op =>
      obtain ⟨p, hp, rfl⟩ := Option.map_eq_some_iff.mp hstep
      intro i wait hwait hsubs hrows
      have hpr := processing_of_reachable hr
      exact (ih hbound' i wait hwait hsubs hrows).processing hD
        (inv_of_reachable adapter_untargeted hD hpr hbound') hbound'
        (step_routing adapter_untargeted hpr hp)
    | wait i rows subscriptions timeout now => exact hbegin hstep
    | dispatch i appended consistency timeout now => exact hbegin hstep
    | ask i => exact hgoOn hstep fun _ _ h => ⟨Wait.ask_call h, fun hok => hok.ask h⟩
    | answer i d => exact hgoOn hstep fun _ _ h => ⟨Wait.answer_call h, fun hok => hok.answer h⟩
    | endPass i now => exact hgoOn hstep fun _ _ h => ⟨Wait.endPass_call h, fun hok => hok.endPass h⟩

/-- A wait returns only in its own step, which leaves the workers alone. -/
theorem step_returns (h : step D number w op = some w') {i : ℕ} (hwait : w'.waits i = some wait)
    (hne : w.waits i ≠ some wait) : w'.processing = w.processing := by
  cases op with
  | processing op =>
    obtain ⟨p, hp, rfl⟩ := Option.map_eq_some_iff.mp h
    exact absurd hwait hne
  | wait i rows subscriptions timeout now => exact World.begin_eq_some h ▸ rfl
  | dispatch i appended consistency timeout now => exact World.begin_eq_some h ▸ rfl
  | ask i =>
    obtain ⟨_, _, -, -, rfl⟩ := World.goOn_eq_some h
    rfl
  | answer i d =>
    obtain ⟨_, _, -, -, rfl⟩ := World.goOn_eq_some h
    rfl
  | endPass i now =>
    obtain ⟨_, _, -, -, rfl⟩ := World.goOn_eq_some h
    rfl

/-! ## The result -/

/-- What holds before a step of the world. -/
structure ReadYourWrites (D : RoutingDefinition) (w w' : World) : Prop where
  /-- An item that leaves the table was handled, on its own event. -/
  removed : ∀ row ∈ w.store.workItems.rows, w'.store.workItems.find? row.pkey = none →
    ∃ e ∈ w.store.log, (e.eventNumber : ℤ) = row.eventNumber ∧
      (⟨row.partitionKey, row.eventNumber⟩, e) ∈ w.processing.returned
  /-- When a wait on the projection returns, every event behind the first cursor and up to one of the
      events it waited for was ignored, or was handled before. -/
  returned : ∀ i wait, w'.waits i = some wait → wait.stage = .returned → w.waits i ≠ some wait →
    wait.subscriptions = [⟨"$all", D.name⟩] → wait.rows ≠ [] →
      ∃ start, w.processing.routing.start = some start ∧ ∀ r ∈ wait.rows, ∀ e ∈ w.store.log,
        start < e.eventNumber → e.eventNumber ≤ r.eventNumber → D.routeFn e = .ignore ∨
          ∃ p, D.routeFn e = .partition p ∧ (⟨p, e.eventNumber⟩, e) ∈ w.processing.returned

/-- **What a client has appended, it finds handled.** -/
theorem read_your_writes (hD : D.stream = "$all") (hw : Reachable (system D number) w)
    (hbound : w.store.log.length < 2 ^ 53) (hstep : step D number w op = some w') :
    ReadYourWrites D w w' := by
  have hpr := processing_of_reachable hw
  refine ⟨fun row hrow hgone => ?_, fun i wait hwait hstage hne hsubs hrows => ?_⟩
  · have hfind := Table.find?_key hrow
    rcases step_processing hstep with heq | ⟨op', hop⟩
    · rw [World.store, heq] at hgone
      exact nomatch hgone.symm.trans hfind
    · obtain ⟨es, heffect, -⟩ := step_effect hop
      exact effect_finished hpr heffect (heffect.finished_of_gone hfind hgone)
  · have hsame := step_returns hstep hwait hne
    have hbound' : w'.store.log.length < 2 ^ 53 := by
      rw [World.store, hsame]
      exact hbound
    have href : [projectionRef D] = [⟨"$all", D.name⟩] := by
      rw [projectionRef, hD]
    have hok := waits_ok hD (.step hw trivial hstep) hbound' i wait hwait (hsubs.trans href.symm) hrows
    have hnil : wait.remaining = [] := by
      have h := hok.stage
      rwa [StageOk, hstage] at h
    have hsettled := hok.settled hnil
    rw [hsame] at hsettled
    obtain ⟨start, hstart, hevents⟩ := settled_handled hD hpr hbound hsettled
    exact ⟨start, hstart, fun r hr e he hlt hle =>
      hevents e he hlt (hle.trans (hok.target r hr))⟩

end Waits

/-! ## A run -/

section Example

/-- A step of the workers of the projection. -/
def sampleAdvance (handler : HandlerOutcome) : Op :=
  .processing (.advance "p" ⟨20, .answered, fun _ => false, .retryIn, handler⟩)

/-- A client appends an event. -/
def sampleAppend : Op :=
  .processing (.routing (.queue (.append 1 ⟨some "order-1", some "any", none, some (.arr [.obj
    [("event_id", .str "00000000-0000-0000-0000-000000000001"), ("event_type", .str "opened"),
      ("data", .null)]])⟩)))

/-- What it is told. -/
def sampleAppended : AppendedEvent :=
  ⟨⟨⟨List.replicate 31 ⟨0, by decide⟩ ++ [⟨1, by decide⟩], rfl⟩, 1, 1, 1⟩, "order-1"⟩

/-- The client waits for its event. It polls before the event is routed, while a second attempt to handle
    it is under way, and when it is handled. -/
def sampleRun : List Op :=
  let poll : List Op := [.ask 0, .answer 0 .answered]
  [sampleAppend,
    .dispatch 0 [sampleAppended] (some [.name "orders"]) none 0] ++ poll ++ [.endPass 0 10] ++
    .processing (.routing (.start "r" ⟨10, 5, none⟩)) ::
      List.replicate 7 (.processing (.routing (.advance "r" 10 .answered))) ++
    .processing (.start "p" 5 ()) :: List.replicate 4 (sampleAdvance .threw) ++
    [sampleAdvance .threw, .ask 0, sampleAdvance .returned, .answer 0 .answered, .endPass 0 30] ++
    List.replicate 3 (sampleAdvance .returned) ++ poll

/-- The call has returned. -/
def hasReturned (wait : Wait) : Bool :=
  match wait.stage with
  | .returned => true
  | _ => false

theorem read_your_writes_sampleRun : ∃ w w' wait,
    (system (sampleDefinition "$all") sampleNumber).run World.install sampleRun = some w ∧
      step (sampleDefinition "$all") sampleNumber w (.endPass 0 40) = some w' ∧
        w'.waits 0 = some wait ∧ hasReturned wait = true ∧
          ReadYourWrites (sampleDefinition "$all") w w' := by
  have hrun : ((system (sampleDefinition "$all") sampleNumber).run World.install sampleRun).bind
      (fun w => (step (sampleDefinition "$all") sampleNumber w (.endPass 0 40)).bind fun w' =>
        (w'.waits 0).map fun wait => (hasReturned wait, decide (w.store.log.length < 2 ^ 53))) =
      some (true, true) := by decide +kernel
  obtain ⟨w, hw, hrest⟩ := Option.bind_eq_some_iff.mp hrun
  obtain ⟨w', hw', hrest⟩ := Option.bind_eq_some_iff.mp hrest
  obtain ⟨wait, hwait, heq⟩ := Option.map_eq_some_iff.mp hrest
  obtain ⟨hreturned, hbound⟩ := Prod.mk.inj heq
  exact ⟨w, w', wait, hw, hw', hwait, hreturned,
    read_your_writes rfl (.run (.init rfl) hw) (of_decide_eq_true hbound) hw'⟩

end Example

end Instructed.Projection
