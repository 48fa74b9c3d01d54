import Instructed.Aggregate.Serializable
import Instructed.Lib.History
import Instructed.Pm.Steps

/-!
# A process manager acknowledges an event after its commands

The user's `handle` returns commands and a flag, the worker dispatches the commands, the substrate stages
the state, and `complete` writes what was staged. On a retry the staged state is replaced.

* `Dispatched`: the commands were dispatched in this order, each with success;
* `Attempted`: what a worker did ends with an attempt whose commands were dispatched so far;
* `Follows`: what precedes an act of a worker;
* `piece_follows`: what one piece of `handle` adds;
* `outcomeAllowed_of_finished`: what `runCommandWithSnapshots` comes to is what a dispatch may come to;
* `acknowledged_after_dispatch`: **a worker acknowledges an event when every command of the same attempt
  has succeeded, and after a failure the attempt is over.**
-/

namespace Instructed.Pm

open Sql Relational Transition Routing Processing History

section Acknowledge

variable {δ S C : Type} (P : PmDefinition δ S C)

/-- What a worker did for its items. The heartbeat's acts are left out. -/
def history (acts : List (Act (PmAct S C))) : List (Act (PmAct S C)) :=
  acts.filter fun
    | .lost _ => false
    | _ => true

/-- The commands were dispatched in this order, each with success. -/
inductive Dispatched (v : δ) : List (DispatchedCommand C) → List (PmAct S C) → Prop
  | nil : Dispatched v [] []
  | snoc {commands : List (DispatchedCommand C)} {acts : List (PmAct S C)}
      {command : DispatchedCommand C} {streamUuid : String} {outcome : Aggregate.Outcome} :
      Dispatched v commands acts → P.resolveDispatch v command = some streamUuid →
      outcome ≠ .threw → Dispatched v (commands ++ [command])
        (acts ++ [.dispatch command streamUuid, .dispatched command outcome])

/-- The history ends with the attempt `n` for the item, whose `handle` was called on `stagedState`,
    returned the commands and the flag, and whose commands `done` were dispatched. -/
def Attempted (v : δ) (item : Item) (n : ℕ) (stagedState : S) (commands : List (DispatchedCommand C))
    (complete : Bool) (done : List (DispatchedCommand C)) (h : List (Act (PmAct S C))) : Prop :=
  ∃ earlier acts, Dispatched P v done acts ∧
    h = earlier ++ (.handled stagedState commands complete :: acts).map (Act.handler item n)

/-- The act begins an attempt: the user's `handle` was called, and returned. -/
def Begins (a : Act (PmAct S C)) : Prop :=
  ∃ item n stagedState commands complete, a = .handler item n (.handled stagedState commands complete)

/-- The last act is a dispatch that failed. -/
def Failed (h : List (Act (PmAct S C))) : Prop :=
  ∃ item n command, h.getLast? = some (.handler item n (.dispatched command .threw))

/-- What precedes the act of the worker `id`: a call of `complete` for a state rests on the attempt that
    staged the state, and after a failed dispatch a new attempt begins. -/
structure Follows (id : String) (v : δ) (h : List (Act (PmAct S C))) (a : Act (PmAct S C)) : Prop where
  completing : ∀ item call, a = .completing item call → ∃ event n stagedState commands complete,
    (event.eventNumber : ℤ) = item.eventNumber ∧
      Attempted P v item n stagedState commands complete commands h ∧
        call = completeCall P id v item event
          ⟨P.sourceUuid item.partitionKey, stagedState, complete⟩
  failed : Failed h → Begins a

section Lemmas

variable {P} {id : String} {v : δ} {item : Item} {n : ℕ} {s : S} {b : Bool}
  {commands done rest : List (DispatchedCommand C)} {command : DispatchedCommand C}
  {h : List (Act (PmAct S C))} {acts : List (PmAct S C)} {outcome : Aggregate.Outcome}
  {streamUuid : String}

theorem history_append (xs ys : List (Act (PmAct S C))) :
    history (xs ++ ys) = history xs ++ history ys :=
  List.filter_append ..

theorem history_handler (acts : List (PmAct S C)) :
    history (acts.map (Act.handler item n)) = acts.map (Act.handler item n) := by
  rw [history, List.filter_eq_self]
  intro a ha
  obtain ⟨act, -, rfl⟩ := List.mem_map.mp ha
  rfl

theorem Dispatched.getLast?_ne (hd : Dispatched P v done acts) (command : DispatchedCommand C) :
    acts.getLast? ≠ some (.dispatched command .threw) := by
  cases hd with
  | nil => simp
  | snoc _ _ hok =>
    rw [List.getLast?_append_cons]
    simp [hok]

theorem Attempted.not_failed (ha : Attempted P v item n s commands b done h) : ¬ Failed h := by
  obtain ⟨earlier, acts, hd, rfl⟩ := ha
  rintro ⟨item', n', command, hlast⟩
  rw [List.map_cons, List.getLast?_append_cons, ← List.map_cons, List.getLast?_map] at hlast
  obtain ⟨act, hact, heq⟩ := Option.map_eq_some_iff.mp hlast
  obtain ⟨-, -, rfl⟩ := Act.handler.inj heq
  rcases List.eq_nil_or_concat acts with rfl | ⟨init, last, rfl⟩
  · simp at hact
  · apply hd.getLast?_ne command
    rw [List.concat_eq_append, ← List.cons_append, List.getLast?_concat] at hact
    rw [List.concat_eq_append, List.getLast?_concat, hact]

/-- The user's `handle` returned. -/
theorem Attempted.handled (h : List (Act (PmAct S C))) :
    Attempted P v item n s commands b [] (h ++ [.handler item n (.handled s commands b)]) :=
  ⟨h, [], .nil, rfl⟩

/-- A dispatch succeeded. -/
theorem Attempted.dispatched (ha : Attempted P v item n s commands b done h)
    (hresolve : P.resolveDispatch v command = some streamUuid) (hok : outcome ≠ .threw) :
    Attempted P v item n s commands b (done ++ [command])
      (h ++ [.handler item n (.dispatch command streamUuid)] ++
        [.handler item n (.dispatched command outcome)]) := by
  obtain ⟨earlier, acts, hd, rfl⟩ := ha
  refine ⟨earlier, _, .snoc hd hresolve hok, ?_⟩
  simp

/-- Any act may follow one that is not a failed dispatch, except a call of `complete`. -/
theorem follows_of_not_failed (hf : ¬ Failed h) (a : PmAct S C) :
    Follows P id v h (.handler item n a) := by
  refine ⟨fun item' call heq => ?_, fun hfail => absurd hfail hf⟩
  cases heq

theorem follows_handled (h : List (Act (PmAct S C))) :
    Follows P id v h (.handler item n (.handled s commands b)) := by
  refine ⟨fun item' call heq => ?_, fun _ => ⟨item, n, s, commands, b, rfl⟩⟩
  cases heq

theorem not_failed_dispatch : ¬ Failed (h ++ [.handler item n (.dispatch command streamUuid)]) := by
  rintro ⟨item', n', command', hlast⟩
  simp at hlast

/-! ## One piece of `handle` -/

variable (P)

/-- Where the handler stands, in terms of the history. -/
def PcOk (v : δ) (item : Item) (n : ℕ) (h : List (Act (PmAct S C))) : Pc S C → Prop
  | .dispatch stagedState complete command rest => ∃ done before streamUuid,
    Attempted P v item n stagedState (done ++ command :: rest) complete done before ∧
      P.resolveDispatch v command = some streamUuid ∧
        h = before ++ [.handler item n (.dispatch command streamUuid)]
  | _ => True

/-- What a piece of `handle` leaves behind: it goes on, or the state is staged and every command was
    dispatched. -/
def RanOk (v : δ) (item : Item) (n : ℕ) (h : List (Act (PmAct S C))) (m : Memory δ S) :
    Ran (Pc S C) → Prop
  | .running pc => PcOk P v item n h pc
  | .returned => ∃ stagedState commands complete,
    Attempted P v item n stagedState commands complete commands h ∧
      m.staged (stagedKey item) =
        some ⟨P.sourceUuid item.partitionKey, stagedState, complete⟩
  | .threw => True

variable {P}

/-- The command loop goes on. -/
theorem dispatchNext_follows (done : List (DispatchedCommand C)) {m : Memory δ S} (hv : m.version = v)
    (hj : Justified (Follows P id v) (h ++ acts.map (Act.handler item n)))
    (ha : Attempted P v item n s (done ++ rest) b done (h ++ acts.map (Act.handler item n))) :
    let r := dispatchNext P m item s b acts rest
    Justified (Follows P id v) (h ++ r.acts.map (Act.handler item n)) ∧
      RanOk P v item n (h ++ r.acts.map (Act.handler item n)) r.memory r.ran := by
  intro r
  rcases dispatchNext_cases (P := P) m item s b acts rest with ⟨rfl, staged, hstaged, heq⟩ |
    ⟨command, rest, rfl, ⟨-, heq⟩ | ⟨streamUuid, hresolve, heq⟩⟩
  · simp only [r, heq]
    rw [List.append_nil] at ha
    exact ⟨hj, s, done, b, ha, hstaged⟩
  · simp only [r, heq]
    exact ⟨hj, trivial⟩
  · simp only [r, heq, List.map_append, List.map_cons, List.map_nil]
    rw [← List.append_assoc]
    exact ⟨hj.snoc (follows_of_not_failed ha.not_failed _),
      done, _, streamUuid, ha, hv ▸ hresolve, rfl⟩

/-- **What one piece of `handle` adds to the history.** -/
theorem piece_follows {m : Memory δ S} {event : RecordedEvent} {st : Store} {pc : Pc S C}
    {r : HandlerStep (Pc S C) (Memory δ S) (PmAct S C)} (hr : HandleBy P m item event st pc r)
    (hv : m.version = v) (hj : Justified (Follows P id v) h) (hpc : PcOk P v item n h pc) :
    Justified (Follows P id v) (h ++ r.acts.map (Act.handler item n)) ∧
      RanOk P v item n (h ++ r.acts.map (Act.handler item n)) r.memory r.ran := by
  have hnil : ∀ {ran : Ran (Pc S C)}, RanOk P v item n h m ran →
      Justified (Follows P id v) (h ++ ([] : List (PmAct S C)).map (Act.handler item n)) ∧
        RanOk P v item n (h ++ ([] : List (PmAct S C)).map (Act.handler item n)) m ran := by
    intro ran hran
    rw [List.map_nil, List.append_nil]
    exact ⟨hj, hran⟩
  cases hr with
  | missed => exact hnil trivial
  | loaded _ _ => exact hnil trivial
  | rebuilt _ => exact hnil trivial
  | threw _ => exact hnil trivial
  | handled =>
    apply dispatchNext_follows [] hv
    · exact hj.snoc (follows_handled h)
    · exact Attempted.handled h
  | waiting => exact hnil hpc
  | failed =>
    obtain ⟨done, before, streamUuid, -, -, rfl⟩ := hpc
    exact ⟨hj.snoc (follows_of_not_failed not_failed_dispatch _), trivial⟩
  | dispatched hok _ =>
    obtain ⟨done, before, streamUuid, ha, hresolve, rfl⟩ := hpc
    apply dispatchNext_follows (done ++ [_]) hv
    · exact hj.snoc (follows_of_not_failed not_failed_dispatch _)
    · rw [List.append_assoc, List.singleton_append]
      exact ha.dispatched hresolve hok

/-! ## The workers -/

variable {w : Processing.World (Pc S C) (Memory δ S) (PmAct S C)}
  {wk : Processing.Worker (Pc S C) (Memory δ S) (PmAct S C)}

variable (P)

/-- The call that the worker is about to make is the last act of its history. -/
def PhaseOk (v : δ) (h : List (Act (PmAct S C))) : Processing.Phase (Pc S C) → Prop
  | .handle item _ n pc => PcOk P v item n h pc
  | .complete item _ call => ∃ before, h = before ++ [.completing item call]
  | _ => True

/-- What is known about a worker. -/
structure WorkerOk (id : String) (wk : Processing.Worker (Pc S C) (Memory δ S) (PmAct S C)) : Prop where
  follows : Justified (Follows P id wk.memory.version) (history wk.acts)
  phase : PhaseOk P wk.memory.version (history wk.acts) wk.phase

variable {P} {keys : String → Bool} {number : JsNumber}

/-- A worker that did nothing. -/
theorem WorkerOk.idle {wk' : Processing.Worker (Pc S C) (Memory δ S) (PmAct S C)}
    (hok : WorkerOk P id wk) (hacts : history wk'.acts = history wk.acts)
    (hversion : wk'.memory.version = wk.memory.version)
    (hphase : PhaseOk P wk.memory.version (history wk.acts) wk'.phase) : WorkerOk P id wk' := by
  constructor
  · rw [hacts, hversion]
    exact hok.follows
  · rw [hacts, hversion]
    exact hphase

/-- **What is known about a worker stays true.** -/
theorem WorkerOk.turn {routing : Routing.World String}
    {wk' : Processing.Worker (Pc S C) (Memory δ S) (PmAct S C)}
    {returned : List (Item × RecordedEvent)} (hok : WorkerOk P id wk)
    (hevent : ∀ item e, wk.phase.event? = some (item, e) → (e.eventNumber : ℤ) = item.eventNumber)
    (ht : Turn P.routing (adapter P keys) w id wk routing wk' returned) : WorkerOk P id wk' := by
  have hpiece : ∀ {item : Item} {e : RecordedEvent} {n : ℕ} {pc : Pc S C} {x : Input (PmInput C)}
      {r : HandlerStep (Pc S C) (Memory δ S) (PmAct S C)}, wk.phase = .handle item e n pc →
        handle P wk.memory item e pc x w.store = r → r.memory.version = wk.memory.version ∧
          Justified (Follows P id wk.memory.version)
            (history (wk.acts ++ r.acts.map (Act.handler item n))) ∧
          RanOk P wk.memory.version item n (history (wk.acts ++ r.acts.map (Act.handler item n)))
            r.memory r.ran := by
    intro item e n pc x r hphase hr
    have hby := handle_cases hr
    have hpc := hok.phase
    rw [hphase] at hpc
    rw [history_append, history_handler]
    exact ⟨hby.version_eq, piece_follows hby rfl hok.follows hpc⟩
  cases ht with
  | ran hphase hr hran =>
    obtain ⟨hversion, hj, hrun⟩ := hpiece hphase hr
    rw [hran] at hrun
    rw [← hversion] at hj hrun
    exact ⟨hj, hrun⟩
  | threw hphase hr _ =>
    obtain ⟨hversion, hj, -⟩ := hpiece hphase hr
    rw [← hversion] at hj
    exact ⟨hj, trivial⟩
  | returned hphase hr hran hcomplete =>
    obtain ⟨hversion, hj, hrun⟩ := hpiece hphase hr
    rw [hran] at hrun
    obtain ⟨stagedState, commands, complete, ha, hstaged⟩ := hrun
    obtain ⟨entry, hentry, rfl⟩ := complete_ok hcomplete
    obtain rfl := Option.some.inj (hentry.symm.trans hstaged)
    have hmemory := congrArg (fun m => m.1.version) hcomplete
    have hsame := (complete_version_eq (P := P) id _ _ _).symm.trans hmemory
    have hnumber := hevent _ _ (by rw [hphase]; rfl)
    constructor
    · show Justified (Follows P id _) (history (_ ++ [_]))
      rw [history_append, ← hsame, hversion]
      refine hj.snoc ⟨fun item' call heq => ?_, fun hfail => absurd hfail ha.not_failed⟩
      cases heq
      exact ⟨_, _, stagedState, commands, complete, hnumber, ha, rfl⟩
    · refine ⟨_, history_append _ _⟩
  | broken hphase hr _ hcomplete =>
    obtain ⟨hversion, hj, -⟩ := hpiece hphase hr
    have hmemory := congrArg (fun m => m.1.version) hcomplete
    have hsame := (complete_version_eq (P := P) id _ _ _).symm.trans hmemory
    refine ⟨?_, trivial⟩
    show Justified (Follows P id _) _
    rw [← hsame, hversion]
    exact hj
  | lost _ _ _ =>
    refine hok.idle ?_ rfl hok.phase
    rw [history_append]
    exact List.append_nil _
  | closing => exact hok.idle rfl rfl hok.phase
  | beat _ => exact hok.idle rfl rfl hok.phase
  | extended _ _ => exact hok.idle rfl rfl hok.phase
  | _ => exact hok.idle rfl rfl trivial

theorem workerOk_of_reachable {C' : Processing.World (Pc S C) (Memory δ S) (PmAct S C) →
      Processing.Op (Memory δ S) (PmInput C) → Prop}
    (hw : ReachableWhen (Processing.system P.routing (adapter P keys) number) C' w)
    (hwk : w.workers id = some wk) : WorkerOk P id wk := by
  refine workers_invariant_of_world (P := fun _ => WorkerOk P) ?_ ?_ ?_ hw id wk hwk
  · intro w id leaseSeconds memory
    exact ⟨.nil, trivial⟩
  · intro w id wk routing wk' returned hr hwk hok ht
    exact hok.turn (phase_event hr hwk) ht
  · exact fun _ _ _ _ _ _ _ hok => hok

/-- The call that a worker is about to make is for the state that its last attempt staged. -/
theorem phase_complete {C' : Processing.World (Pc S C) (Memory δ S) (PmAct S C) →
      Processing.Op (Memory δ S) (PmInput C) → Prop} {event : RecordedEvent}
    {call : Timestamp → Queue.Call}
    (hw : ReachableWhen (Processing.system P.routing (adapter P keys) number) C' w)
    (hwk : w.workers id = some wk) (hphase : wk.phase = .complete item event call) :
    ∃ event' stagedState complete, (event'.eventNumber : ℤ) = item.eventNumber ∧
      call = completeCall P id wk.memory.version item event'
        ⟨P.sourceUuid item.partitionKey, stagedState, complete⟩ := by
  have hok := workerOk_of_reachable hw hwk
  have hphaseOk := hok.phase
  rw [hphase] at hphaseOk
  obtain ⟨before, hbefore⟩ := hphaseOk
  obtain ⟨event', n, stagedState, commands, complete, hnumber, -, hcall⟩ :=
    (hok.follows before _ [] hbefore).completing item call rfl
  exact ⟨event', stagedState, complete, hnumber, hcall⟩

/-! ## What was appended is stored -/

/-- The rows of an outcome that `outcomeAllowed` accepts. -/
def Stored (st : Store) (rows : List AppendedRow) : Prop :=
  rows ≠ [] ∧ ∀ row ∈ rows, row ∈ st.log.map RecordedEvent.toAppendedRow

theorem HandleBy.stored {m : Memory δ S} {event : RecordedEvent} {st : Store} {pc : Pc S C}
    {r : HandlerStep (Pc S C) (Memory δ S) (PmAct S C)} (hr : HandleBy P m item event st pc r)
    {rows : List AppendedRow} (hmem : .dispatched command (.appended rows) ∈ r.acts) :
    Stored st rows := by
  have hnext : ∀ {s : S} {b : Bool} {acts : List (PmAct S C)} {cs : List (DispatchedCommand C)},
      .dispatched command (.appended rows) ∈ (dispatchNext P m item s b acts cs).acts →
        .dispatched command (.appended rows) ∈ acts := by
    intro s b acts cs hmem
    rcases dispatchNext_cases (P := P) m item s b acts cs with ⟨-, _, -, heq⟩ |
      ⟨_, _, -, ⟨-, heq⟩ | ⟨_, -, heq⟩⟩ <;> rw [heq] at hmem
    · exact hmem
    · exact hmem
    · simpa using hmem
  cases hr with
  | handled => simpa using hnext hmem
  | failed => simp at hmem
  | dispatched _ hallowed =>
    have hact := hnext hmem
    simp only [List.mem_singleton, PmAct.dispatched.injEq] at hact
    obtain ⟨-, rfl⟩ := hact
    simpa [outcomeAllowed, Stored] using hallowed
  | _ => cases hmem

theorem Stored.mono {st st' : Store} {rows : List AppendedRow} (hrows : Stored st rows)
    (hlog : st.log <+: st'.log) : Stored st' rows :=
  ⟨hrows.1, fun row hrow => (hlog.map _).subset (hrows.2 row hrow)⟩

/-- What a worker's commands appended is stored. -/
theorem acts_stored {C' : Processing.World (Pc S C) (Memory δ S) (PmAct S C) →
      Processing.Op (Memory δ S) (PmInput C) → Prop}
    (hw : ReachableWhen (Processing.system P.routing (adapter P keys) number) C' w)
    (hwk : w.workers id = some wk) : ∀ item n command rows,
      .handler item n (.dispatched command (.appended rows)) ∈ wk.acts → Stored w.store rows := by
  refine workers_invariant_of_world (P := fun w _ wk => ∀ item n command rows,
    .handler item n (.dispatched command (.appended rows)) ∈ wk.acts → Stored w.store rows)
    ?_ ?_ ?_ hw id wk hwk
  · intro w id leaseSeconds memory item n command rows hmem
    cases hmem
  · intro w id wk routing wk' returned _ _ hold ht item n command rows hmem
    have hpiece : ∀ {item' : Item} {e : RecordedEvent} {n' : ℕ} {pc : Pc S C} {x : Input (PmInput C)}
        {r : HandlerStep (Pc S C) (Memory δ S) (PmAct S C)},
        handle P wk.memory item' e pc x w.store = r →
          .handler item n (.dispatched command (.appended rows)) ∈
            wk.acts ++ r.acts.map (Act.handler item' n') → Stored w.store rows := by
      intro item' e n' pc x r hr hmem
      rcases List.mem_append.mp hmem with hmem | hmem
      · exact hold item n command rows hmem
      · obtain ⟨act, hact, heq⟩ := List.mem_map.mp hmem
        obtain ⟨-, -, rfl⟩ := Act.handler.inj heq
        exact (handle_cases hr).stored hact
    cases ht with
    | ran _ hr _ => exact hpiece hr hmem
    | threw _ hr _ => exact hpiece hr hmem
    | broken _ hr _ _ => exact hpiece hr hmem
    | returned _ hr _ _ =>
      apply hpiece hr
      simpa using hmem
    | lost _ _ _ =>
      apply hold item n command rows
      simpa using hmem
    | _ => exact hold item n command rows hmem
  · intro w op w' hr hstep id wk hold item n command rows hmem
    exact (hold item n command rows hmem).mono (step_log (adapter_untargeted keys) hr hstep)

end Lemmas

/-- A command that ended has one of the outcomes that a dispatch may have. -/
theorem outcomeAllowed_of_finished {ι δ S C V : Type} [DecidableEq ι]
    {D : Aggregate.Deployment δ S C V} {streamUuid : String} {w : Aggregate.World ι δ S C V}
    (hw : Reachable (Aggregate.system D streamUuid) w) {run : Aggregate.Run δ C}
    {outcome : Aggregate.Outcome} (hmem : (run, outcome) ∈ w.finished) :
    outcomeAllowed w.db.store outcome = true := by
  have hinv := Aggregate.World.Inv.of_reachable hw
  cases outcome with
  | appended rows =>
    obtain ⟨state, hwrites⟩ := (hinv.clients.finished run _ hmem).2.1
    have hwrite : ⟨some (run, state), rows⟩ ∈ w.writes := by
      have hof : ⟨some (run, state), rows⟩ ∈ w.writesOf run.number :=
        hwrites ▸ List.mem_singleton.mpr rfl
      exact (List.mem_filter.mp hof).1
    obtain ⟨pre, mid, hexec⟩ := (hinv.db.author _ hwrite run state rfl).2
    have hne : rows ≠ [] := by
      have hmap := hexec.rows_eq
      rintro rfl
      exact hexec.nonempty (List.map_eq_nil_iff.mp hmap)
    have hrows : ∀ row ∈ rows, row ∈ w.db.store.log.map RecordedEvent.toAppendedRow := by
      intro row hrow
      rw [hinv.db.stored, List.mem_flatMap]
      exact ⟨_, hwrite, hrow⟩
    simpa [outcomeAllowed, hne] using hrows
  | noOp => rfl
  | threw => rfl

/-! ## The result -/

/-- A call of `complete` for a state follows the attempt that staged it, all of whose commands were
    dispatched in order, with success; after a failed dispatch the attempt is over; the calls that
    are executed are these; and what a command appended is stored. -/
structure AcknowledgedAfterDispatch (w : Processing.World (Pc S C) (Memory δ S) (PmAct S C))
    (id : String) (wk : Processing.Worker (Pc S C) (Memory δ S) (PmAct S C)) : Prop where
  acknowledged : ∀ before item call after,
    history wk.acts = before ++ .completing item call :: after →
      ∃ event n stagedState commands complete, (event.eventNumber : ℤ) = item.eventNumber ∧
        Attempted P wk.memory.version item n stagedState commands complete commands before ∧
          call = completeCall P id wk.memory.version item event
            ⟨P.sourceUuid item.partitionKey, stagedState, complete⟩
  failed : ∀ before item n command a after,
    history wk.acts = before ++ .handler item n (.dispatched command .threw) :: a :: after → Begins a
  issued : ∀ item event call, wk.phase = .complete item event call →
    ∃ before, history wk.acts = before ++ [.completing item call]
  stored : ∀ item n command rows,
    .handler item n (.dispatched command (.appended rows)) ∈ wk.acts → Stored w.store rows

variable {P}

/-- **An event is acknowledged after its commands**, in every run of the workers of a process manager. -/
theorem acknowledged_after_dispatch {keys : String → Bool} {number : JsNumber}
    {w : Processing.World (Pc S C) (Memory δ S) (PmAct S C)} {id : String}
    {wk : Processing.Worker (Pc S C) (Memory δ S) (PmAct S C)}
    (hw : Reachable (Processing.system P.routing (adapter P keys) number) w)
    (hwk : w.workers id = some wk) : AcknowledgedAfterDispatch P w id wk := by
  have hok := workerOk_of_reachable hw hwk
  refine ⟨fun before item call after heq => ?_, fun before item n command a after heq => ?_,
    fun item event call hphase => ?_, acts_stored hw hwk⟩
  · exact (hok.follows before _ after heq).completing item call rfl
  · apply (hok.follows (before ++ [.handler item n (.dispatched command .threw)]) a after _).failed
    · exact ⟨item, n, command, List.getLast?_concat⟩
    · simpa using heq
  · have hphaseOk := hok.phase
    rw [hphase] at hphaseOk
    exact hphaseOk

end Acknowledge

/-! ## A run -/

section Example

/-- The second attempt dispatches its command and is acknowledged. -/
def sampleAcknowledgement : List (SampleOp String) :=
  sampleRouted ++ sampleStart "a" ++ sampleHandled "a" 20 (some ([.explicit "cart-1" "add"], false)) ++
    [sampleAdvance "a" 20 ⟨none, .threw⟩, sampleAdvance "a" 20 sampleIdle] ++
    sampleHandled "a" 20 (some ([.explicit "cart-1" "add"], true)) ++
    [sampleAdvance "a" 20 ⟨none, .noOp⟩, sampleAdvance "a" 20 sampleIdle]

theorem acknowledged_after_dispatch_sampleRun : ∃ w wk,
    (Processing.system samplePm.routing (adapter samplePm sampleKeys) sampleNumber).run
        Processing.World.install sampleAcknowledgement = some w ∧
      w.workers "a" = some wk ∧ wk.acts.length = 7 ∧ w.store.workItems.rows = [] ∧
        AcknowledgedAfterDispatch samplePm w "a" wk := by
  have hrun : ((Processing.system samplePm.routing (adapter samplePm sampleKeys) sampleNumber).run
      Processing.World.install sampleAcknowledgement).bind (fun w =>
        (w.workers "a").map fun wk => (wk.acts.length, decide (w.store.workItems.rows = []))) =
          some (7, true) := by decide +kernel
  obtain ⟨w, hw, hworker⟩ := Option.bind_eq_some_iff.mp hrun
  obtain ⟨wk, hwk, heq⟩ := Option.map_eq_some_iff.mp hworker
  obtain ⟨hlength, hrows⟩ := Prod.mk.inj heq
  exact ⟨w, wk, hw, hwk, hlength, of_decide_eq_true hrows,
    acknowledged_after_dispatch (.run (.init rfl) hw) hwk⟩

end Example

end Instructed.Pm
