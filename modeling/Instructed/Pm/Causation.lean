import Instructed.Lib.Provenance
import Instructed.Pm.Dispatch
import Instructed.Processing.Invariant

/-!
# Causation and correlation

A process manager dispatches its commands with the id of the event at hand as `causationId`, and with its
`correlationId`. When `execute` sets no ids, every event that a command appends carries them, through the
defaults of `executeCommand`, `packEvent`, the casts of `append_to_stream` and the row mapper.

* `SetsNoIds`, `Plain`: no command that is dispatched sets ids;
* `append_ids`: what an append stores of the ids;
* `Execution.Ok`, `World.Inv`: what a command in progress will append, and the invariant;
* `World.Causes`, `World.IsRoot`: the links between events, and the events that no dispatched command
  appended;
* `causation_propagates`: **the ids are inherited along every chain, and every chain leads back to its
  root.**
-/

namespace Instructed.Dispatch

open Sql Relational Transition Numbering Relation
open Aggregate (CommandError Codec Loaded NewEvent Pc packEvent)
open Routing (Delivery Failure)

variable {S C V : Type}

/-! ## The ids of an append -/

/-- `execute` sets neither id on an event. -/
def SetsNoIds (d : Aggregate.AggregateDefinition S C V) : Prop :=
  ∀ state command events, d.execute state command = .ok events →
    ∀ e ∈ events, e.causationId = none ∧ e.correlationId = none

section Append

variable {codec : Codec S V} {id : String} {e : NewEvent V} {a : AppendArgs} {ids : ℕ → String}
  {filled : List (NewEvent V)} {now : Timestamp} {log new : List RecordedEvent} {causation : Uuid}
  {correlation : Option Uuid}

@[simp] theorem packEvent_causationId :
    (packEvent codec id e).getText? "causation_id" = e.causationId := by
  obtain ⟨eventId, type, data, metadata, causationId, correlationId⟩ := e
  cases metadata <;> cases causationId <;> cases correlationId <;>
    simp [packEvent, Aggregate.optionalField, Json.getText?, Json.get?]

@[simp] theorem packEvent_correlationId :
    (packEvent codec id e).getText? "correlation_id" = e.correlationId := by
  obtain ⟨eventId, type, data, metadata, causationId, correlationId⟩ := e
  cases metadata <;> cases causationId <;> cases correlationId <;>
    simp [packEvent, Aggregate.optionalField, Json.getText?, Json.get?]

theorem castUuid_text (o : Option Uuid) : castUuid (nullifEmpty (o.map Uuid.text)) = .ok o := by
  have hcanonical : ∀ s ∈ o.map Uuid.text, Canonical s := by
    intro s hs
    obtain ⟨u, -, rfl⟩ := Option.map_eq_some_iff.mp hs
    exact ⟨u, rfl⟩
  obtain ⟨c, hcast, -, htext⟩ := castUuid_canonical hcanonical
  obtain rfl : c = o := by
    refine Option.map_injective (fun u u' heq => ?_) htext
    have hread := congrArg uuidOfText heq
    rw [uuidOfText_text, uuidOfText_text] at hread
    exact Option.some.inj hread
  exact hcast

/-- Packed events with these ids are stored with them. -/
theorem append_ids
    (hevents : a.events = some (.arr (filled.zipIdx.map fun e => packEvent codec (ids e.2) e.1)))
    (hfilled : ∀ e ∈ filled, e.causationId = some causation.text ∧
      e.correlationId = correlation.map Uuid.text)
    (h : appendCall now a log = .ok new) :
    ∀ x ∈ new, x.causationId = some causation ∧ x.correlationId = correlation := by
  obtain ⟨r, es, hr, -, hes, -, rfl⟩ := appendCall_ok h
  have hrev := (validateAppend_ok hr).2.2.2
  have hpacked : r.events = filled.zipIdx.map fun e => packEvent codec (ids e.2) e.1 :=
    Json.arr.inj (Option.some.inj ((eventsOf_ok hrev).symm.trans hevents))
  obtain ⟨rows, hrows, hes⟩ := bind_eq_ok.mp hes
  have hstored : ∀ row ∈ es, row.causationId = some causation ∧ row.correlationId = correlation := by
    intro row hrow
    obtain ⟨r', hr', hrow⟩ := mem_of_mapM_ok hes hrow
    obtain ⟨evt, hevt, hr'⟩ := mem_of_mapM_ok hrows hr'
    rw [hpacked] at hevt
    obtain ⟨e, he, rfl⟩ := List.mem_map.mp hevt
    obtain ⟨hcausation, hcorrelation⟩ := hfilled e.1 (List.fst_mem_of_mem_zipIdx he)
    obtain ⟨eventId, -, hr'⟩ := bind_eq_ok.mp hr'
    rw [packEvent_causationId, packEvent_correlationId, hcausation, hcorrelation, castUuid_text,
      show castUuid (nullifEmpty (some causation.text)) = .ok (some causation) from
        castUuid_text (some causation)] at hr'
    cases hr'
    unfold NewEventRow.toEventRow at hrow
    split at hrow
    · cases hrow
      exact ⟨rfl, rfl⟩
    · cases hrow
  intro x hx
  have hmap : (recordBatch log r.streamUuid es).map (fun x => (x.causationId, x.correlationId)) =
      es.map fun row => (row.causationId, row.correlationId) :=
    map_recordBatch_of_event fun _ _ _ _ => rfl
  have hmem : (x.causationId, x.correlationId) ∈ es.map fun row =>
      (row.causationId, row.correlationId) := hmap ▸ List.mem_map_of_mem hx
  obtain ⟨row, hrow, heq⟩ := List.mem_map.mp hmem
  obtain ⟨hcausation, hcorrelation⟩ := hstored row hrow
  obtain ⟨h₁, h₂⟩ := Prod.mk.inj heq
  exact ⟨h₁ ▸ hcausation, h₂ ▸ hcorrelation⟩

end Append

/-! ## A command in progress -/

/-- What a command that was dispatched on `event` holds between two calls. -/
structure Execution.Ok (event : Client.RecordedEvent) (x : Execution S C V) : Prop where
  definition : SetsNoIds x.definition
  opts : x.opts = dispatchOptions event
  filled : ∀ loaded filled, x.pc = .append loaded filled →
    ∀ e ∈ filled, e.causationId = some event.eventId ∧ e.correlationId = event.correlationId

/-- What it decides between two calls. -/
def Progress.Ok (event : Client.RecordedEvent) : Progress S C V → Prop
  | .call x => x.Ok event
  | .returned | .threw => True

section Execution

variable {codec : Codec S V} {event : Client.RecordedEvent} {x : Execution S C V}
  {m : Aggregate.Moment} {d : Delivery}

/-- Where the pending call appends nothing. -/
theorem Execution.Ok.move (h : x.Ok event) {left : ℕ} {pc : Pc S V}
    (hpc : ∀ loaded filled, pc ≠ .append loaded filled) :
    ({ x with left := left, pc := pc } : Execution S C V).Ok event :=
  ⟨h.definition, h.opts, fun loaded filled heq => absurd heq (hpc loaded filled)⟩

theorem Execution.Ok.caught (h : x.Ok event) (e : CommandError) : (x.caught e).Ok event := by
  unfold Execution.caught
  split_ifs
  · cases x.left with
    | zero => trivial
    | succ left => exact h.move fun _ _ => by simp
  · trivial

theorem Execution.Ok.failed (h : x.Ok event) (f : Failure) : (x.failed f).Ok event := by
  cases f with
  | raised e => exact h.caught _
  | connection => trivial

/-- **The defaults.** Neither id is set, so both are those of the options. -/
theorem Execution.Ok.loaded (h : x.Ok event) (loaded : Loaded S) : (x.loaded loaded).Ok event := by
  unfold Execution.loaded
  split
  · exact h.caught _
  · trivial
  · rename_i e es hexec
    refine ⟨h.definition, h.opts, fun loaded' filled heq e' he' => ?_⟩
    cases heq
    obtain ⟨e₀, he₀, rfl⟩ := List.mem_map.mp he'
    obtain ⟨hcausation, hcorrelation⟩ := h.definition _ _ _ hexec e₀ he₀
    rw [h.opts]
    simp [Aggregate.RunCommandOptions.fill, Aggregate.fillEvent, dispatchOptions, hcausation,
      hcorrelation]

theorem Execution.Ok.appended (h : x.Ok event) (loaded : Loaded S) (filled : List (NewEvent V))
    (rows : List AppendedRow) : (x.appended loaded filled rows).Ok event := by
  unfold Execution.appended
  dsimp only
  split_ifs
  · exact h.move fun _ _ => by simp
  · trivial

theorem Execution.Ok.call (h : x.Ok event) : (x.call codec m d).1.Ok event := by
  unfold Execution.call
  cases x.pc with
  | readSnapshot =>
    dsimp only
    split
    · exact h.move fun _ _ => by simp
    · exact h.failed _
  | readPage loaded =>
    dsimp only
    split
    · split_ifs
      · exact h.loaded _
      · exact h.move fun _ _ => by simp
    · split_ifs
      · exact h.loaded _
      · exact h.caught _
    · trivial
  | append loaded filled =>
    dsimp only
    split
    · exact h.appended _ _ _
    · exact h.failed _
  | recordSnapshot rows state version =>
    dsimp only
    split <;> trivial

/-- A call appends, or leaves the event store alone. -/
theorem Execution.call_db (codec : Codec S V) (x : Execution S C V) (m : Aggregate.Moment)
    (d : Delivery) :
    (∃ loaded filled, x.pc = .append loaded filled ∧ (x.call codec m d).2 = (m.db.append m.now
      (Aggregate.commandArgs codec x.streamUuid x.opts loaded m.ids filled)).2) ∨
    ((x.call codec m d).2.streamIdSeq = m.db.streamIdSeq ∧
      m.db.store.SameEvents (x.call codec m d).2.store) := by
  have hsame : m.db.store.SameEvents m.db.store := ⟨rfl, rfl, rfl⟩
  unfold Execution.call
  cases x.pc with
  | readSnapshot =>
    right
    dsimp only
    split <;> exact ⟨rfl, hsame⟩
  | readPage loaded =>
    right
    dsimp only
    split
    · split_ifs <;> exact ⟨rfl, hsame⟩
    · split_ifs <;> exact ⟨rfl, hsame⟩
    · exact ⟨rfl, hsame⟩
  | append loaded filled =>
    dsimp only
    by_cases harrives : d.arrives = true
    · left
      rw [if_pos harrives]
      refine ⟨loaded, filled, rfl, ?_⟩
      split <;> rfl
    · right
      rw [if_neg harrives]
      split <;> exact ⟨rfl, hsame⟩
  | recordSnapshot rows state version =>
    right
    dsimp only
    split
    · rename_i st hst
      obtain ⟨u, t, v, data, -, -, -, -, -, rfl⟩ := recordSnapshot_ok hst
      split_ifs
      · exact ⟨rfl, rfl, rfl, rfl⟩
      · exact ⟨rfl, hsame⟩
    · exact ⟨rfl, hsame⟩

/-- **What a call appends has the ids of the event at hand.** -/
theorem Execution.Ok.call_log {e : RecordedEvent} (h : x.Ok (Client.recorded e)) (codec : Codec S V)
    (m : Aggregate.Moment) (d : Delivery) (hc : m.db.Consistent) : (x.call codec m d).2.Consistent ∧
      ∃ new, (x.call codec m d).2.store.log = m.db.store.log ++ new ∧
        ∀ y ∈ new, y.causationId = some e.eventId ∧ y.correlationId = e.correlationId := by
  rcases x.call_db codec m d with ⟨loaded, filled, hpc, hdb⟩ | ⟨hseq, hsame⟩
  · rw [hdb]
    refine ⟨hc.append _ _, ?_⟩
    rcases hc.append_cases m.now
      (Aggregate.commandArgs codec x.streamUuid x.opts loaded m.ids filled) with
      ⟨new, hcall, -, hlog⟩ | ⟨_, -, hlog⟩
    · exact ⟨new, hlog, append_ids rfl (h.filled _ _ hpc) hcall⟩
    · exact ⟨[], by rw [hlog, List.append_nil], fun y hy => absurd hy List.not_mem_nil⟩
  · refine ⟨⟨hsame.consistent hc.store, hseq ▸ hc.seq_pos, hseq ▸ hsame.streams ▸ hc.seq⟩, [], ?_,
      fun y hy => absurd hy List.not_mem_nil⟩
    rw [hsame.log, List.append_nil]

end Execution

/-! ## The invariant -/

/-- The second event of the pair inherits its ids from the first, which is older. -/
def Inherits (log : List RecordedEvent) (p : Client.RecordedEvent × Client.RecordedEvent) : Prop :=
  ∃ x ∈ log, ∃ y ∈ log, p = (Client.recorded x, Client.recorded y) ∧
    x.eventNumber < y.eventNumber ∧ y.causationId = some x.eventId ∧
      y.correlationId = x.correlationId

/-- The aggregate that the command goes to sets no ids. -/
def PmWorkerOptions.Plain (opts : PmWorkerOptions S C V) (c : DispatchedCommand S C V) : Prop :=
  ∀ d streamUuid command, opts.resolveDispatch c = some (d, streamUuid, command) → SetsNoIds d

/-- What a worker holds. -/
structure Handler.Ok (opts : PmWorkerOptions S C V) (log : List RecordedEvent) (h : Handler S C V) :
    Prop where
  event : ∃ x ∈ log, h.event = Client.recorded x
  rest : ∀ c ∈ h.rest, opts.Plain c
  execution : ∀ x, h.execution = some x → x.Ok h.event

variable {κ : Type} [DecidableEq κ] {codec : Codec S V} {opts : κ → PmWorkerOptions S C V}
  {w w' : World κ S C V} {op : Op κ S C V}

/-- The commands that a user's `handle` returns go to aggregates that set no ids. -/
def PlainCommands (opts : κ → PmWorkerOptions S C V) (_ : World κ S C V) : Op κ S C V → Prop
  | .handle i _ commands => ∀ c ∈ commands, (opts i).Plain c
  | _ => True

/-- The invariant. -/
structure World.Inv (opts : κ → PmWorkerOptions S C V) (w : World κ S C V) : Prop where
  consistent : w.queue.db.Consistent
  dispatched : ∀ p ∈ w.dispatched, Inherits w.store.log p
  handlers : ∀ i h, w.handlers i = some h → h.Ok (opts i) w.store.log

section Invariant

theorem Inherits.mono {log log' : List RecordedEvent}
    {p : Client.RecordedEvent × Client.RecordedEvent} (h : Inherits log p) (hlog : log <+: log') :
    Inherits log' p := by
  obtain ⟨x, hx, y, hy, hrest⟩ := h
  exact ⟨x, hlog.subset hx, y, hlog.subset hy, hrest⟩

theorem Handler.Ok.mono {o : PmWorkerOptions S C V} {log log' : List RecordedEvent}
    {h : Handler S C V} (hok : h.Ok o log) (hlog : log <+: log') : h.Ok o log' := by
  obtain ⟨x, hx, hevent⟩ := hok.event
  exact ⟨⟨x, hlog.subset hx, hevent⟩, hok.rest, hok.execution⟩

omit [DecidableEq κ] in
/-- The database moves on, and new events inherit. -/
theorem World.Inv.grow (hw : w.Inv opts) (hc : w'.queue.db.Consistent)
    (hlog : w.store.log <+: w'.store.log) (hhandlers : w'.handlers = w.handlers)
    (hnew : ∀ p ∈ w'.dispatched, p ∈ w.dispatched ∨ Inherits w'.store.log p) : w'.Inv opts := by
  refine ⟨hc, fun p hp => ?_, fun i h hi => ?_⟩
  · rcases hnew p hp with hold | hnew
    · exact (hw.dispatched p hold).mono hlog
    · exact hnew
  · rw [hhandlers] at hi
    exact (hw.handlers i h hi).mono hlog

theorem World.Inv.setHandler (hw : w.Inv opts) {i : κ} {h : Option (Handler S C V)}
    (hok : ∀ h', h = some h' → h'.Ok (opts i) w.store.log) : (w.setHandler i h).Inv opts := by
  refine ⟨hw.consistent, hw.dispatched, fun j h' hj => ?_⟩
  simp only [World.setHandler, Function.update_apply] at hj
  split_ifs at hj with hij
  · subst hij
    exact hok h' hj
  · exact hw.handlers j h' hj

omit [DecidableEq κ] in
theorem World.Inv.setStore (hw : w.Inv opts) {st : Store} (hsame : w.store.SameEvents st) :
    (w.setDb { w.queue.db with store := st }).Inv opts := by
  have hc := hw.consistent
  refine hw.grow ⟨hsame.consistent hc.store, hc.seq_pos, hsame.streams ▸ hc.seq⟩ ?_ rfl
    fun p hp => Or.inl hp
  show w.store.log <+: st.log
  rw [hsame.log]

/-- A worker begins. -/
theorem World.Inv.handle (hw : w.Inv opts) {i : κ} {n : ℤ} {commands : List (DispatchedCommand S C V)}
    (hplain : ∀ c ∈ commands, (opts i).Plain c) (h : w.handle i n commands = some w') :
    w'.Inv opts := by
  unfold World.handle at h
  split at h
  · rename_i event rest hread
    split_ifs at h
    cases h
    refine hw.setHandler fun h' heq => ?_
    cases heq
    refine ⟨?_, hplain, fun x hx => by cases hx⟩
    unfold Client.readAll at hread
    cases hrows : readAll (some n) (some 1) w.store with
    | error e =>
      rw [hrows] at hread
      cases hread
    | ok rows =>
      rw [hrows, Client.mapRows_ok] at hread
      obtain ⟨x, more, rfl, rfl, -⟩ := List.map_eq_cons_iff.mp (Except.ok.inj hread)
      exact ⟨x, Processing.mem_of_readAll hw.consistent.store hrows, rfl⟩
  · cases h

theorem World.Inv.dispatch (hw : w.Inv opts) {i : κ} {h : Handler S C V} (hok : h.Ok (opts i) w.store.log)
    (uuid : String) : (w.dispatch (opts i) i h uuid).Inv opts := by
  have hnone : (w.setHandler i none).Inv opts := hw.setHandler fun h' heq => by cases heq
  unfold World.dispatch
  split
  · exact hnone
  · rename_i c rest hrest
    split
    · exact hnone
    · rename_i d streamUuid command hresolve
      refine hw.setHandler fun h' heq => ?_
      cases heq
      refine ⟨hok.event, fun c' hc' => hok.rest c' (hrest ▸ List.mem_cons_of_mem _ hc'), ?_⟩
      intro x hx
      cases hx
      exact ⟨hok.rest c (hrest ▸ List.mem_cons_self) d streamUuid command hresolve, rfl,
        fun loaded filled heq => by cases heq⟩

theorem World.Inv.progress (hw : w.Inv opts) {i : κ} {h : Handler S C V} {p : Progress S C V}
    (hok : h.Ok (opts i) w.store.log) (hp : p.Ok h.event) : (w.progress i h p).Inv opts := by
  cases p with
  | call x =>
    refine hw.setHandler fun h' heq => ?_
    cases heq
    refine ⟨hok.event, hok.rest, fun x' hx => ?_⟩
    cases hx
    exact hp
  | returned =>
    refine hw.setHandler fun h' heq => ?_
    cases heq
    exact ⟨hok.event, hok.rest, fun x' hx => by cases hx⟩
  | threw => exact hw.setHandler fun h' heq => by cases heq

/-- A call of a command. -/
theorem World.Inv.call (hw : w.Inv opts) {i : κ} {h : Handler S C V} {x : Execution S C V}
    (hok : h.Ok (opts i) w.store.log) (hx : h.execution = some x) (now : Timestamp) (ids : ℕ → String)
    (d : Delivery) : (w.call codec i h x now ids d).Inv opts := by
  obtain ⟨e, he, hevent⟩ := hok.event
  have hxok := hok.execution x hx
  rw [hevent] at hxok
  obtain ⟨hc, new, hlog, hnew⟩ := hxok.call_log codec ⟨w.queue.db, now, ids⟩ d hw.consistent
  have hpre : w.store.log <+: (x.call codec ⟨w.queue.db, now, ids⟩ d).2.store.log := by
    rw [hlog]
    exact List.prefix_append ..
  have hdrop : (x.call codec ⟨w.queue.db, now, ids⟩ d).2.store.log.drop w.store.log.length = new := by
    rw [hlog]
    exact List.drop_left
  have hsorted := hc.store.log_eventNumber.pairwise_lt
  rw [hlog, List.pairwise_append] at hsorted
  have hinv : World.Inv opts { w.setDb (x.call codec ⟨w.queue.db, now, ids⟩ d).2 with
      dispatched := w.dispatched ++ ((x.call codec ⟨w.queue.db, now, ids⟩ d).2.store.log.drop
        w.store.log.length).map fun e => (h.event, Client.recorded e) } := by
    refine hw.grow hc hpre rfl fun p hp => ?_
    rcases List.mem_append.mp hp with hp | hp
    · exact Or.inl hp
    · rw [hdrop] at hp
      obtain ⟨y, hy, rfl⟩ := List.mem_map.mp hp
      refine Or.inr ⟨e, hpre.subset he, y, ?_, by rw [hevent], hsorted.2.2 e he y hy, hnew y hy⟩
      show y ∈ (x.call codec ⟨w.queue.db, now, ids⟩ d).2.store.log
      rw [hlog]
      exact List.mem_append_right _ hy
  exact hinv.progress (hok.mono hpre) (hok.execution x hx).call

theorem World.Inv.step (hw : w.Inv opts) (hplain : PlainCommands opts w op)
    (h : step codec opts w op = some w') : w'.Inv opts := by
  cases op with
  | queue op =>
    obtain ⟨queue, hstep, rfl⟩ := Option.map_eq_some_iff.mp h
    exact hw.grow (Queue.step_consistent hw.consistent hstep) (Queue.step_log hw.consistent hstep) rfl
      fun p hp => Or.inl hp
  | deleteSnapshot sourceUuid =>
    unfold Dispatch.step at h
    cases h
    exact hw.setStore ⟨rfl, rfl, rfl⟩
  | recordSnapshot now sourceUuid sourceType sourceVersion data metadata =>
    unfold Dispatch.step at h
    dsimp only at h
    split at h
    · rename_i st hst
      cases h
      obtain ⟨u, t, v, d, -, -, -, -, -, rfl⟩ := recordSnapshot_ok hst
      exact hw.setStore ⟨rfl, rfl, rfl⟩
    · cases h
      exact hw
  | handle i n commands =>
    unfold Dispatch.step at h
    dsimp only at h
    split at h
    · exact hw.handle hplain h
    · cases h
  | dispatch i uuid =>
    unfold Dispatch.step at h
    dsimp only at h
    split at h
    · rename_i event rest hi
      cases h
      exact hw.dispatch (hw.handlers i _ hi) uuid
    · cases h
  | call i now ids d =>
    unfold Dispatch.step at h
    dsimp only at h
    split at h
    · rename_i event rest x hi
      cases h
      exact hw.call (hw.handlers i _ hi) rfl now ids d
    · cases h
  | crash i =>
    obtain ⟨_, -, rfl⟩ := Option.map_eq_some_iff.mp h
    exact hw.setHandler fun h' heq => by cases heq

theorem World.Inv.of_reachable (hw : ReachableWhen (system codec opts) (PlainCommands opts) w) :
    w.Inv opts := by
  refine hw.invariant (fun w hw => ?_) fun w op w' hw hplain hstep => hw.step hplain hstep
  subst hw
  exact ⟨Db.install_consistent, fun p hp => absurd hp List.not_mem_nil, fun i h hi => by cases hi⟩

end Invariant

/-! ## Chains -/

/-- A dispatched command appended `e'`, and `e'` names `e` as its cause. -/
def World.Causes (w : World κ S C V) (e e' : Client.RecordedEvent) : Prop :=
  e ∈ w.log ∧ e' ∈ w.log ∧ (∃ p ∈ w.dispatched, p.2 = e') ∧ e'.causationId = some e.eventId

/-- No dispatched command appended it. -/
def World.IsRoot (w : World κ S C V) (e : Client.RecordedEvent) : Prop :=
  e ∈ w.log ∧ ∀ p ∈ w.dispatched, p.2 ≠ e

/-- The event that is named as the cause. -/
def World.cause (w : World κ S C V) (e : Client.RecordedEvent) : Option Client.RecordedEvent :=
  e.causationId.bind fun id => w.log.find? fun x => decide (x.eventId = id)

/-- What the chains of causes are like. -/
structure CausationPropagates (w : World κ S C V) : Prop where
  /-- A dispatched command appends with the ids of the event at hand. -/
  inherits : ∀ e e', (e, e') ∈ w.dispatched → e ∈ w.log ∧ e' ∈ w.log ∧
    e'.causationId = some e.eventId ∧ e'.correlationId = e.correlationId
  /-- The correlation id of a root is that of everything it leads to. -/
  correlation : ∀ root e, w.IsRoot root → ReflTransGen w.Causes root e →
    e.correlationId = root.correlationId
  /-- From there the causes lead back to the root. -/
  back : ∀ root e, w.IsRoot root → ReflTransGen w.Causes root e →
    ∃ n, Provenance.follow w.cause n e = some root
  /-- Every event comes from one root. -/
  root : ∀ e ∈ w.log, ∃! root, w.IsRoot root ∧ ReflTransGen w.Causes root e

section Chains

variable {e e' : Client.RecordedEvent}

omit [DecidableEq κ] in
/-- An event is determined by its id. -/
theorem World.Inv.eq_of_eventId (hw : w.Inv opts) (he : e ∈ w.log) (he' : e' ∈ w.log)
    (h : e.eventId = e'.eventId) : e = e' := by
  obtain ⟨x, hx, rfl⟩ := List.mem_map.mp he
  obtain ⟨y, hy, rfl⟩ := List.mem_map.mp he'
  have hid : x.eventId = y.eventId := by
    have hread := congrArg uuidOfText h
    change uuidOfText x.eventId.text = uuidOfText y.eventId.text at hread
    rw [uuidOfText_text, uuidOfText_text] at hread
    exact Option.some.inj hread
  have hnodup : (w.store.log.map (·.eventId)).Nodup :=
    hw.consistent.store.log_eventId ▸ w.store.events.nodup
  rw [List.inj_on_of_nodup_map hnodup hx hy hid]

omit [DecidableEq κ] in
theorem World.Inv.causes_of_dispatched (hw : w.Inv opts) (h : (e, e') ∈ w.dispatched) :
    w.Causes e e' := by
  obtain ⟨x, hx, y, hy, heq, -, hcausation, -⟩ := hw.dispatched _ h
  cases heq
  refine ⟨List.mem_map_of_mem hx, List.mem_map_of_mem hy, ⟨_, h, rfl⟩, ?_⟩
  show y.causationId.map Uuid.text = _
  rw [hcausation]
  rfl

omit [DecidableEq κ] in
/-- A cause is older, and has the same correlation id. -/
theorem World.Inv.causes_inherits (hw : w.Inv opts) (h : w.Causes e e') :
    e.eventNumber < e'.eventNumber ∧ e'.correlationId = e.correlationId := by
  obtain ⟨he, -, ⟨⟨e₀, e'⟩, hp, rfl⟩, hcausation⟩ := h
  have hcauses := hw.causes_of_dispatched hp
  obtain ⟨x, hx, y, hy, heq, hlt, -, hcorrelation⟩ := hw.dispatched _ hp
  obtain rfl : e₀ = e := by
    refine hw.eq_of_eventId hcauses.1 he (Option.some.inj ?_)
    rw [← hcauses.2.2.2, ← hcausation]
  cases heq
  refine ⟨Int.ofNat_lt.mpr hlt, ?_⟩
  show y.correlationId.map Uuid.text = x.correlationId.map Uuid.text
  rw [hcorrelation]

omit [DecidableEq κ] in
theorem World.Inv.cause_of_causes (hw : w.Inv opts) (h : w.Causes e e') : w.cause e' = some e := by
  obtain ⟨he, -, -, hcausation⟩ := h
  rw [World.cause, hcausation, Option.bind_some]
  cases hfind : w.log.find? fun x => decide (x.eventId = e.eventId) with
  | none =>
    rw [List.find?_eq_none] at hfind
    exact absurd (decide_eq_true rfl) (hfind e he)
  | some x =>
    have hid : x.eventId = e.eventId := by simpa using List.find?_some hfind
    rw [hw.eq_of_eventId (List.mem_of_find?_eq_some hfind) he hid]

omit [DecidableEq κ] in
theorem World.Inv.isRoot_iff (hw : w.Inv opts) (he : e ∈ w.log) :
    w.IsRoot e ↔ Provenance.IsRoot w.Causes e := by
  constructor
  · rintro ⟨-, hroot⟩ a ⟨-, -, ⟨p, hp, heq⟩, -⟩
    exact hroot p hp heq
  · refine fun hroot => ⟨he, fun p hp heq => ?_⟩
    subst heq
    exact hroot p.1 (hw.causes_of_dispatched hp)

omit [DecidableEq κ] in
/-- The events of a chain are in the log. -/
theorem World.mem_log_of_chain (he : e' ∈ w.log) (h : ReflTransGen w.Causes e e') : e ∈ w.log := by
  rcases h.cases_head with rfl | ⟨_, hlink, -⟩
  · exact he
  · exact hlink.1

/-- **Causation and correlation propagate**, over chains of any length, and whatever is retried or
    delivered again. -/
theorem causation_propagates (hw : ReachableWhen (system codec opts) (PlainCommands opts) w) :
    CausationPropagates w := by
  have hinv := World.Inv.of_reachable hw
  refine ⟨fun e e' h => ?_, fun root e _ h => ?_, fun root e _ h => ?_, fun e he => ?_⟩
  · have hcauses := hinv.causes_of_dispatched h
    exact ⟨hcauses.1, hcauses.2.1, hcauses.2.2.2, (hinv.causes_inherits hcauses).2⟩
  · exact Provenance.eq_of_chain (fun _ _ hlink => (hinv.causes_inherits hlink).2) h
  · exact Provenance.follow_of_chain (fun _ _ hlink => hinv.cause_of_causes hlink) h
  · have hrank : ∀ a b, w.Causes a b → a.eventNumber.toNat < b.eventNumber.toNat := by
      intro a b hlink
      have hlt := (hinv.causes_inherits hlink).1
      obtain ⟨x, -, rfl⟩ := List.mem_map.mp hlink.1
      change (x.eventNumber : ℤ) < _ at hlt
      show ((x.eventNumber : ℕ) : ℤ).toNat < _
      omega
    have hcause : ∀ a a' b, w.Causes a b → w.Causes a' b → a = a' := fun a a' b hlink hlink' =>
      Option.some.inj ((hinv.cause_of_causes hlink).symm.trans (hinv.cause_of_causes hlink'))
    obtain ⟨root, ⟨hroot, hchain⟩, hunique⟩ := Provenance.existsUnique_root hrank hcause e
    have hmem := World.mem_log_of_chain he hchain
    refine ⟨root, ⟨(hinv.isRoot_iff hmem).mpr hroot, hchain⟩, fun root' h => hunique root' ?_⟩
    exact ⟨(hinv.isRoot_iff h.1.1).mp h.1, h.2⟩

end Chains

/-! ## A chain -/

/-- Every command goes to one account, and opens it again. -/
def sampleOptions : String → PmWorkerOptions ℕ Unit Json := fun _ =>
  ⟨some fun _ => ("account", "1"),
    some fun _ => some ({ Aggregate.openings with snapshotPolicy := none }, none)⟩

/-- The worker `i` handles the event `n`, with one command. -/
def sampleHandling (i : String) (n : ℤ) (id : String) : List (Op String ℕ Unit Json) :=
  [.handle i n [.lean ()], .dispatch i ""] ++ List.replicate 3 (.call i 10 (fun _ => id) .answered)

/-- What is appended on the first event is the cause of what is appended on the second. -/
def sampleChain : List (Op String ℕ Unit Json) :=
  .queue (.append 1 ⟨some "order-1", some "any", none, some (.arr [.obj
    [("event_id", .str "00000000-0000-0000-0000-000000000001"), ("event_type", .str "opened"),
      ("data", .null), ("correlation_id", .str "00000000-0000-0000-0000-00000000000c")]])⟩) ::
    (sampleHandling "a" 1 "00000000-0000-0000-0000-000000000002" ++
      sampleHandling "b" 2 "00000000-0000-0000-0000-000000000003")

theorem causation_propagates_sampleChain : ∃ w,
    (system Aggregate.eventCodec sampleOptions).run World.install sampleChain = some w ∧
    w.dispatched.map (fun p => (p.1.eventNumber, p.2.eventNumber, p.2.correlationId)) =
      [(1, 2, some "00000000-0000-0000-0000-00000000000c"),
        (2, 3, some "00000000-0000-0000-0000-00000000000c")] ∧
    CausationPropagates w := by
  have hrun : ((system Aggregate.eventCodec sampleOptions).run World.install sampleChain).map
      (fun w => w.dispatched.map fun p => (p.1.eventNumber, p.2.eventNumber, p.2.correlationId)) =
        some [(1, 2, some "00000000-0000-0000-0000-00000000000c"),
          (2, 3, some "00000000-0000-0000-0000-00000000000c")] := by decide +kernel
  obtain ⟨w, hw, hdispatched⟩ := Option.map_eq_some_iff.mp hrun
  have hplain : ∀ op ∈ sampleChain, ∀ w, PlainCommands sampleOptions w op := by
    intro op hop w
    cases op with
    | handle i n commands =>
      have hcommands : commands = [.lean ()] := by
        simp [sampleChain, sampleHandling] at hop
        rcases hop with ⟨-, -, h⟩ | ⟨-, -, h⟩ <;> exact h
      intro c hc d streamUuid command hresolve state command' events hexec e he
      rw [hcommands, List.mem_singleton] at hc
      subst hc
      cases hresolve
      cases hexec
      rw [List.mem_singleton] at he
      exact he ▸ ⟨rfl, rfl⟩
    | _ => trivial
  exact ⟨w, hw, hdispatched, causation_propagates ((ReachableWhen.init rfl).run_of_forall hplain hw)⟩

end Instructed.Dispatch
