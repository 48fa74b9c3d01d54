import Instructed.Lib.Trace
import Instructed.Processing.Worker

/-!
# The retry loop and the error policy

`loop`, `processOneItem` and `runHandlerWithPolicy` (processing-worker.ts:339–509) by themselves, and
`retryUpTo` (error-policies.ts:173–197). A policy may throw, and it may keep a state of its own beside
the one that the worker hands back to it. The heartbeat may abort the worker at any time, and so may
`stop()`. What `onError` is told is left out. The worker never calls `fail_work_item`.

* `Thrown`, `asError`: thrown values, of which some cannot be converted to a string;
* `ErrorPolicy`, `retryUpTo`: policies, over the memory that they close over;
* `Worker.next`, `loop`: the pieces of the loop, with `Action` for what the worker did;
* `Protocol`, `Retried`: the life of one claimed item;
* `items_retried_fails`: a value that cannot be converted ends the worker, and the policy is not asked;
* `items_retried`: **without such values the attempts are counted, the policy is asked and `complete` is called
  as they should, and `retryUpTo` bounds and composes.**
-/

namespace Instructed.Retry

open Transition Trace

/-! ## Error policies -/

/-- A thrown value: its message if it is an `Error`, else what `String` makes of it. The conversion may
    itself throw. -/
structure Thrown where
  text : Option String
  deriving DecidableEq

/-- `asError`, which fails when the conversion throws. -/
def asError (err : Thrown) (context : String) : Option String :=
  err.text.map fun text => context ++ ": " ++ text

/-- `ErrorPolicyContext`, without the logger. -/
structure ErrorPolicyContext where
  workerId : String
  partitionKey : String
  eventNumber : ℤ
  attempt : ℕ
  deriving DecidableEq

/-- `ErrorPolicyDecision`. -/
inductive Decision where
  | retryIn (delayMs : ℚ)
  | stop
  deriving DecidableEq

/-- `ErrorPolicyResult`; an `undefined` state is `none`. -/
structure PolicyResult (P : Type) where
  decision : Decision
  state : Option P
  deriving DecidableEq

/-- `ErrorPolicy`, with the memory `M` that it closes over. -/
abbrev ErrorPolicy (M P : Type) :=
  Thrown → ErrorPolicyContext → Option P → M → Except Thrown (PolicyResult P) × M

variable {M P : Type}

/-- `retryUpTo` of an integer. -/
def retryUpTo (maxAttempts : ℤ) (inner : ErrorPolicy M P) : Except String (ErrorPolicy M P) :=
  if maxAttempts < 1 then
    .error ("retryUpTo: maxAttempts must be a positive integer, got " ++ toString maxAttempts)
  else .ok fun err ctx state m =>
    if maxAttempts < ctx.attempt then (.ok ⟨.stop, state⟩, m) else inner err ctx state m

/-- The policy always retries. -/
def NeverStops (policy : ErrorPolicy M P) : Prop :=
  ∀ err ctx state m, ∃ delayMs state', (policy err ctx state m).1 = .ok ⟨.retryIn delayMs, state'⟩

theorem retryUpTo_of_pos {n : ℤ} (h : 1 ≤ n) (inner : ErrorPolicy M P) :
    retryUpTo n inner = .ok fun err ctx state m =>
      if n < ctx.attempt then (.ok ⟨.stop, state⟩, m) else inner err ctx state m :=
  if_neg (by omega)

/-- Of two bounds the smaller counts. -/
theorem retryUpTo_retryUpTo {a b : ℤ} (ha : 1 ≤ a) (hb : 1 ≤ b) (inner : ErrorPolicy M P) :
    (retryUpTo b inner).bind (retryUpTo a) = retryUpTo (min a b) inner := by
  rw [retryUpTo_of_pos hb, retryUpTo_of_pos (le_min ha hb)]
  refine (retryUpTo_of_pos ha _).trans (congrArg Except.ok ?_)
  funext err ctx state m
  by_cases hlt : a < ctx.attempt
  · rw [if_pos hlt, if_pos (by omega)]
  · rw [if_neg hlt]
    by_cases hlt' : b < ctx.attempt
    · rw [if_pos hlt', if_pos (by omega)]
    · rw [if_neg hlt', if_neg (by omega)]

/-! ## The loop -/

/-- The claimed row. -/
abbrev Item := Processing.Item

/-- Where the loop stands. `n` is the attempt, `state` is `policyState`. -/
inductive Phase (P : Type) where
  /-- At the head of the outer loop. -/
  | claim
  | load (item : Item)
  /-- At the head of the loop of `runHandlerWithPolicy`. -/
  | attempt (item : Item) (n : ℕ) (state : Option P)
  | handle (item : Item) (n : ℕ) (state : Option P)
  /-- The handler threw `err`. -/
  | policy (item : Item) (n : ℕ) (state : Option P) (err : Thrown)
  | sleep (item : Item) (n : ℕ) (state : Option P)
  | complete (item : Item)
  /-- In the `finally` of `processOneItem`; an exception may be on its way. -/
  | settle (exception : Bool)
  | stopped
  deriving DecidableEq

structure Worker (M P : Type) where
  id : String
  phase : Phase P
  closing : Bool
  aborted : Bool
  memory : M

/-- A call with what came of it. -/
inductive Action (P : Type) where
  /-- `claimWorkItem`, which returned the row, or none, or raised. -/
  | claim (item : Option Item)
  | handle (item : Item) (n : ℕ) (outcome : Except Thrown Unit)
  | policy (item : Item) (n : ℕ) (err : Thrown) (state : Option P)
      (result : Except Thrown (PolicyResult P))
  | complete (item : Item) (outcome : Except Thrown Unit)
  /-- `resolveStopped()`. -/
  | stopped

/-- What the pending call comes to, or what happens beside the loop. -/
inductive Input where
  /-- `stop()`. -/
  | stop
  /-- The heartbeat aborts the worker. -/
  | abort
  | claim (item : Option Item)
  | load (found : Bool)
  | handle (outcome : Except Thrown Unit)
  | policy
  | complete (outcome : Except Thrown Unit)
  /-- There is no pending call, or the sleep is over. -/
  | go

namespace Worker

variable (wk : Worker M P)

/-- `closing || aborted`. -/
def ending : Bool := wk.closing || wk.aborted

def goto (phase : Phase P) : Worker M P := { wk with phase := phase }

/-- `markAborted`, and the `finally` of `processOneItem`. -/
def giveUp : Worker M P := { wk with phase := .settle false, aborted := true }

/-- Lines 470–498. -/
def claim (item : Option Item) : Worker M P × List (Action P) :=
  if wk.ending then (wk.goto .stopped, [.stopped])
  else match item with
    | some it => (wk.goto (.load it), [.claim item])
    | none => (wk.goto .claim, [.claim item])

/-- The handler returned or threw (lines 362–366). -/
def handle (item : Item) (n : ℕ) (state : Option P) (outcome : Except Thrown Unit) :
    Worker M P × List (Action P) :=
  let wk' := match outcome with
    | .ok _ => wk.goto (.complete item)
    | .error err =>
      match asError err ("handler threw on event " ++ toString item.eventNumber) with
      | some _ => wk.goto (.policy item n state err)
      | none => wk.goto (.settle true)
  (wk', [.handle item n outcome])

variable (errorPolicy : ErrorPolicy M P)

/-- The policy is asked (lines 367–400). -/
def policy (item : Item) (n : ℕ) (state : Option P) (err : Thrown) : Worker M P × List (Action P) :=
  let r := errorPolicy err ⟨wk.id, item.partitionKey, item.eventNumber, n⟩ state wk.memory
  let wk := { wk with memory := r.2 }
  let wk' := match r.1 with
    | .error policyErr =>
      match asError policyErr "errorPolicy itself threw; stopping worker" with
      | some _ => wk.giveUp
      | none => wk.goto (.settle true)
    | .ok ⟨.stop, _⟩ => wk.giveUp
    | .ok ⟨.retryIn _, state⟩ => wk.goto (.sleep item n state)
  (wk', [.policy item n err state r.1])

/-- Lines 441–461. -/
def complete (item : Item) (outcome : Except Thrown Unit) : Worker M P × List (Action P) :=
  let wk' := match outcome with
    | .ok _ => wk.goto (.settle false)
    | .error err =>
      match asError err "complete threw" with
      | some _ => wk.giveUp
      | none => wk.goto (.settle true)
  (wk', [.complete item outcome])

/-- The loop goes on without a call. -/
def go : Option (Worker M P × List (Action P)) :=
  match wk.phase with
  | .attempt item n state =>
    some (wk.goto (if wk.ending then .settle false else .handle item n state), [])
  | .sleep item n state => some (wk.goto (.attempt item (n + 1) state), [])
  | .settle false => some (wk.goto .claim, [])
  | .settle true => some (wk.goto .stopped, [.stopped])
  | _ => none

/-- An item is at hand, and its heartbeat runs. -/
def beats : Bool :=
  match wk.phase with
  | .claim | .load _ | .stopped => false
  | _ => true

/-- The loop goes on to the end of its next call. -/
def next : Input → Option (Worker M P × List (Action P))
  | .stop => some ({ wk with closing := true }, [])
  | .abort => if wk.beats then some ({ wk with aborted := true }, []) else none
  | .claim item =>
    match wk.phase with
    | .claim => some (wk.claim item)
    | _ => none
  | .load found =>
    match wk.phase with
    | .load item => some (wk.goto (if found then .attempt item 1 none else .claim), [])
    | _ => none
  | .handle outcome =>
    match wk.phase with
    | .handle item n state => some (wk.handle item n state outcome)
    | _ => none
  | .policy =>
    match wk.phase with
    | .policy item n state err => some (wk.policy errorPolicy item n state err)
    | _ => none
  | .complete outcome =>
    match wk.phase with
    | .complete item => some (wk.complete item outcome)
    | _ => none
  | .go => wk.go

end Worker

/-- A worker and what it did, a ghost. -/
structure Session (M P : Type) where
  worker : Worker M P
  trace : List (Action P)

variable (errorPolicy : ErrorPolicy M P)

def Session.step (s : Session M P) (input : Input) : Option (Session M P) :=
  (s.worker.next errorPolicy input).map fun r => ⟨r.1, s.trace ++ r.2⟩

def Session.start (id : String) (memory : M) : Session M P := ⟨⟨id, .claim, false, false, memory⟩, []⟩

/-- `startProcessingWorker`, with calls that come to anything. -/
def loop : System (Session M P) Input where
  init s := ∃ id memory, s = Session.start id memory
  step := Session.step errorPolicy

/-- No handler throws a value that cannot be converted to a string. -/
def Printable (_ : Session M P) : Input → Prop
  | .handle (.error err) => err.text.isSome = true
  | _ => True

instance (s : Session M P) : ∀ input, Decidable (Printable s input)
  | .handle (.error err) => inferInstanceAs (Decidable (err.text.isSome = true))
  | .handle (.ok _) | .stop | .abort | .claim _ | .load _ | .policy | .complete _ | .go =>
    isTrue trivial

/-! ## The life of an item -/

variable (P) in
/-- What has become of the item that was claimed last. -/
inductive Stage where
  | idle
  /-- The attempts before `n` failed, and the policy said to retry. -/
  | retrying (item : Item) (n : ℕ) (state : Option P)
  | failed (item : Item) (n : ℕ) (state : Option P) (err : Thrown)
  | succeeded (item : Item)
  | completed (item : Item)
  /-- The policy stopped the worker. -/
  | gaveUp (item : Item)

/-- The stage that the policy's result leads to. -/
def Stage.after (item : Item) (n : ℕ) : Except Thrown (PolicyResult P) → Stage P
  | .ok ⟨.retryIn _, state⟩ => .retrying item (n + 1) state
  | .ok ⟨.stop, _⟩ | .error _ => .gaveUp item

/-- The worker may turn to another item. -/
def Stage.closed : Stage P → Bool
  | .idle | .retrying .. | .completed _ => true
  | _ => false

/-- What a worker may do. -/
inductive Protocol : Stage P → Action P → Stage P → Prop
  | claimed {stage : Stage P} (item : Item) : stage.closed = true →
      Protocol stage (.claim (some item)) (.retrying item 1 none)
  | empty {stage : Stage P} : stage.closed = true → Protocol stage (.claim none) .idle
  | threw {item : Item} {n : ℕ} {state : Option P} (err : Thrown) :
      Protocol (.retrying item n state) (.handle item n (.error err)) (.failed item n state err)
  | returned {item : Item} {n : ℕ} {state : Option P} :
      Protocol (.retrying item n state) (.handle item n (.ok ())) (.succeeded item)
  | asked {item : Item} {n : ℕ} {state : Option P} {err : Thrown}
      (result : Except Thrown (PolicyResult P)) :
      Protocol (.failed item n state err) (.policy item n err state result) (.after item n result)
  | complete {item : Item} (outcome : Except Thrown Unit) :
      Protocol (.succeeded item) (.complete item outcome) (.completed item)
  | stopped {stage : Stage P} : stage.closed = true ∨ (∃ item, stage = .gaveUp item) →
      Protocol stage .stopped .idle

/-- Where a worker stands, by the protocol. -/
def Worker.AtStage (wk : Worker M P) (stage : Stage P) : Prop :=
  match wk.phase with
  | .claim => stage.closed = true ∨ (∃ item, stage = .gaveUp item) ∧ wk.aborted = true
  | .load item => stage = .retrying item 1 none
  | .attempt item n state | .handle item n state => stage = .retrying item n state
  | .policy item n state err => stage = .failed item n state err
  | .sleep item n state => stage = .retrying item (n + 1) state
  | .complete item => stage = .succeeded item
  | .settle exception => stage.closed = true ∨
      (∃ item, stage = .gaveUp item) ∧ (wk.aborted = true ∨ exception = true)
  | .stopped => stage = .idle

/-- The worker has kept to the protocol. -/
def Session.Follows (s : Session M P) : Prop :=
  ∃ stage, Path Protocol .idle s.trace stage ∧ s.worker.AtStage stage

section Follows

variable {errorPolicy} {wk : Worker M P} {stage : Stage P}

/-- The actions lead from the stage to one where the worker then stands. -/
def Leads (stage : Stage P) (r : Worker M P × List (Action P)) : Prop :=
  ∃ stage', Path Protocol stage r.2 stage' ∧ r.1.AtStage stage'

theorem leads_nil (h : wk.AtStage stage) : Leads stage (wk, []) := ⟨stage, .nil, h⟩

theorem leads_one {a : Action P} {stage' : Stage P} (hstep : Protocol stage a stage')
    (h : wk.AtStage stage') : Leads stage (wk, [a]) := ⟨stage', Path.singleton_iff.mpr hstep, h⟩

theorem Worker.claim_leads
    (hat : stage.closed = true ∨ (∃ item, stage = .gaveUp item) ∧ wk.aborted = true)
    (item : Option Item) : Leads stage (wk.claim item) := by
  unfold Worker.claim
  split_ifs with hending
  · exact leads_one (.stopped (hat.imp_right And.left)) rfl
  · have hclosed : stage.closed = true := hat.resolve_right fun h => by
      simp [Worker.ending, h.2] at hending
    split
    · exact leads_one (.claimed _ hclosed) rfl
    · exact leads_one (.empty hclosed) (Or.inl rfl)

theorem Worker.handle_leads (item : Item) (n : ℕ) (state : Option P) {outcome : Except Thrown Unit}
    (hprintable : ∀ err, outcome = .error err → err.text.isSome = true) :
    Leads (.retrying item n state) (wk.handle item n state outcome) := by
  cases outcome with
  | ok _ => exact leads_one .returned rfl
  | error err =>
    obtain ⟨text, htext⟩ := Option.isSome_iff_exists.mp (hprintable err rfl)
    refine leads_one (.threw err) ?_
    simp [asError, htext, Worker.goto, Worker.AtStage]

theorem Worker.policy_leads (item : Item) (n : ℕ) (state : Option P) (err : Thrown) :
    Leads (.failed item n state err) (wk.policy errorPolicy item n state err) := by
  refine leads_one (.asked _) ?_
  split
  · rename_i policyErr hresult
    rw [hresult]
    split
    · exact Or.inr ⟨⟨item, rfl⟩, Or.inl rfl⟩
    · exact Or.inr ⟨⟨item, rfl⟩, Or.inr rfl⟩
  · rename_i hresult
    rw [hresult]
    exact Or.inr ⟨⟨item, rfl⟩, Or.inl rfl⟩
  · rename_i hresult
    rw [hresult]
    rfl

theorem Worker.complete_leads (item : Item) (outcome : Except Thrown Unit) :
    Leads (.succeeded item) (wk.complete item outcome) := by
  refine leads_one (.complete outcome) ?_
  split
  · exact Or.inl rfl
  · split <;> exact Or.inl rfl

theorem Worker.go_leads {r : Worker M P × List (Action P)} (hat : wk.AtStage stage)
    (h : wk.go = some r) : Leads stage r := by
  unfold Worker.AtStage at hat
  unfold Worker.go at h
  split at h <;> rename_i hphase <;> cases h <;> rw [hphase] at hat
  · subst hat
    split_ifs
    · exact leads_nil (Or.inl rfl)
    · exact leads_nil rfl
  · exact leads_nil hat
  · exact leads_nil (hat.imp_right fun h => ⟨h.1, h.2.resolve_right fun h => nomatch h⟩)
  · exact leads_one (.stopped (hat.imp_right And.left)) rfl

/-- Each piece of the loop keeps to the protocol, while the thrown values can be converted. -/
theorem Worker.next_leads {input : Input} {r : Worker M P × List (Action P)} {t : List (Action P)}
    (hat : wk.AtStage stage) (hprintable : Printable ⟨wk, t⟩ input)
    (h : wk.next errorPolicy input = some r) : Leads stage r := by
  cases input with
  | stop =>
    cases h
    exact leads_nil hat
  | abort =>
    simp only [Worker.next] at h
    split_ifs at h with hbeats
    cases h
    apply leads_nil
    unfold Worker.AtStage at hat ⊢
    cases hphase : wk.phase <;> simp only [hphase] at hat ⊢
    case claim => simp [Worker.beats, hphase] at hbeats
    case settle => exact hat.imp_right fun h => ⟨h.1, Or.inl trivial⟩
    all_goals exact hat
  | claim item =>
    simp only [Worker.next] at h
    split at h <;> cases h
    rename_i hphase
    unfold Worker.AtStage at hat
    rw [hphase] at hat
    exact Worker.claim_leads hat item
  | load found =>
    simp only [Worker.next] at h
    split at h <;> cases h
    rename_i hphase
    unfold Worker.AtStage at hat
    rw [hphase] at hat
    subst hat
    split_ifs
    · exact leads_nil rfl
    · exact leads_nil (Or.inl rfl)
  | handle outcome =>
    simp only [Worker.next] at h
    split at h <;> cases h
    rename_i hphase
    unfold Worker.AtStage at hat
    rw [hphase] at hat
    subst hat
    refine Worker.handle_leads _ _ _ fun err herr => ?_
    subst herr
    exact hprintable
  | policy =>
    simp only [Worker.next] at h
    split at h <;> cases h
    rename_i hphase
    unfold Worker.AtStage at hat
    rw [hphase] at hat
    exact hat ▸ Worker.policy_leads _ _ _ _
  | complete outcome =>
    simp only [Worker.next] at h
    split at h <;> cases h
    rename_i hphase
    unfold Worker.AtStage at hat
    rw [hphase] at hat
    exact hat ▸ Worker.complete_leads _ outcome
  | go => exact Worker.go_leads hat h

theorem follows_step {s s' : Session M P} {input : Input} (hs : s.Follows)
    (hprintable : Printable s input) (h : s.step errorPolicy input = some s') : s'.Follows := by
  obtain ⟨stage, hpath, hat⟩ := hs
  obtain ⟨r, hr, rfl⟩ := Option.map_eq_some_iff.mp h
  obtain ⟨stage', hpath', hat'⟩ := Worker.next_leads (t := s.trace) hat hprintable hr
  exact ⟨stage', hpath.append hpath', hat'⟩

theorem follows_of_reachable {s : Session M P} (h : ReachableWhen (loop errorPolicy) Printable s) :
    s.Follows := by
  refine h.invariant (fun s hs => ?_) fun _ _ _ hs hprintable hstep =>
    follows_step hs hprintable hstep
  obtain ⟨id, memory, rfl⟩ := hs
  exact ⟨.idle, .nil, Or.inl rfl⟩

end Follows

/-! ## What the protocol gives -/

section Segments

variable (t : List (Action P))

/-- The attempts at which the handler was called. -/
def attempts : List ℕ := t.filterMap fun
  | .handle _ n _ => some n
  | _ => none

/-- The attempts that failed, with what the handler threw. -/
def failures : List (ℕ × Thrown) := t.filterMap fun
  | .handle _ n (.error err) => some (n, err)
  | _ => none

/-- The attempts and errors that the policy was called with. -/
def asked : List (ℕ × Thrown) := t.filterMap fun
  | .policy _ n err _ _ => some (n, err)
  | _ => none

/-- The states that the policy was called with. -/
def statesGiven : List (Option P) := t.filterMap fun
  | .policy _ _ _ state _ => some state
  | _ => none

/-- The states that the policy returned. -/
def statesReturned : List (Option P) := t.filterMap fun
  | .policy _ _ _ _ (.ok r) => some r.state
  | _ => none

/-- How often `complete` was called. -/
def completions : ℕ := t.countP fun
  | .complete .. => true
  | _ => false

/-- An attempt succeeded. -/
def Succeeded : Prop := ∃ item n, .handle item n (.ok ()) ∈ t

/-- The policy said to stop, or threw. -/
def Stops (result : Except Thrown (PolicyResult P)) : Prop :=
  (∃ err, result = .error err) ∨ ∃ state, result = .ok ⟨.stop, state⟩

def Stopped : Prop := ∃ item n err state result, .policy item n err state result ∈ t ∧ Stops result

variable (t' : List (Action P))

@[simp] theorem attempts_append : attempts (t ++ t') = attempts t ++ attempts t' :=
  List.filterMap_append

@[simp] theorem failures_append : failures (t ++ t') = failures t ++ failures t' :=
  List.filterMap_append

@[simp] theorem asked_append : asked (t ++ t') = asked t ++ asked t' := List.filterMap_append

@[simp] theorem statesGiven_append : statesGiven (t ++ t') = statesGiven t ++ statesGiven t' :=
  List.filterMap_append

@[simp] theorem statesReturned_append :
    statesReturned (t ++ t') = statesReturned t ++ statesReturned t' :=
  List.filterMap_append

@[simp] theorem completions_append : completions (t ++ t') = completions t + completions t' :=
  List.countP_append

@[simp] theorem succeeded_append : Succeeded (t ++ t') ↔ Succeeded t ∨ Succeeded t' := by
  simp only [Succeeded, List.mem_append, exists_or]

@[simp] theorem stopped_append : Stopped (t ++ t') ↔ Stopped t ∨ Stopped t' := by
  simp only [Stopped, List.mem_append, or_and_right, exists_or]

end Segments

/-- The item that the call is about. -/
def Action.item? : Action P → Option Item
  | .claim item => item
  | .handle item _ _ | .policy item _ _ _ _ | .complete item _ => some item
  | .stopped => none

def Action.isClaim : Action P → Bool
  | .claim _ => true
  | _ => false

/-- `mid` is what the worker did since it claimed `item`, and `next` is what it did then, if anything. -/
structure Retried (item : Item) (mid : List (Action P)) (next : Option (Action P)) : Prop where
  own : ∀ a ∈ mid, a.item? = some item
  /-- The attempts are `1, 2, …`. -/
  attempts : attempts mid = List.range' 1 (attempts mid).length
  /-- The policy was called for each attempt that failed, or is called next for the last one. -/
  policy : asked mid = failures mid ∨ ∃ n err, mid.getLast? = some (.handle item n (.error err)) ∧
    asked mid ++ [(n, err)] = failures mid ∧
    ∀ a ∈ next, ∃ state result, a = .policy item n err state result
  /-- It was given no state first, and then the state that it had returned. -/
  states : statesGiven mid <+: none :: statesReturned mid
  /-- `complete` was called once when an attempt has succeeded, or is called next, and else not. -/
  complete : completions mid = 0 ∧ ¬ Succeeded mid ∨ completions mid = 1 ∧ Succeeded mid ∨
    completions mid = 0 ∧ Succeeded mid ∧ ∀ a ∈ next, ∃ outcome, a = .complete item outcome
  /-- When the policy stops or throws, `complete` is not called, and the worker ends. -/
  stop : Stopped mid → completions mid = 0 ∧ ∀ a ∈ next, a = .stopped

/-- Every claimed item is treated so, at every time. -/
def RetriesItems (t : List (Action P)) : Prop :=
  ∀ pre item mid post, t = pre ++ .claim (some item) :: mid ++ post →
    (∀ a ∈ mid, a.isClaim = false ∧ a ≠ .stopped) → Retried item mid post.head?

/-- What was done for an item all of whose attempts have failed. -/
structure Going (item : Item) (mid : List (Action P)) (n : ℕ) (state : Option P) : Prop where
  own : ∀ a ∈ mid, a.item? = some item
  attempts : attempts mid = List.range' 1 (n - 1)
  pos : 1 ≤ n
  asked : asked mid = failures mid
  states : statesGiven mid ++ [state] = none :: statesReturned mid
  completions : completions mid = 0
  not_succeeded : ¬ Succeeded mid
  not_stopped : ¬ Stopped mid

/-- What was done for an item at the stage. -/
def Lived (item : Item) (mid : List (Action P)) : Stage P → Prop
  | .idle => False
  | .retrying it n state => it = item ∧ Going item mid n state
  | .failed it n state err => it = item ∧ ∃ before, mid = before ++ [.handle item n (.error err)] ∧
      Going item before n state
  | .succeeded it => it = item ∧ ∃ before n state, mid = before ++ [.handle item n (.ok ())] ∧
      Going item before n state
  | .completed it => it = item ∧ ∃ before n state outcome,
      mid = before ++ [.handle item n (.ok ()), .complete item outcome] ∧ Going item before n state
  | .gaveUp it => it = item ∧ ∃ before n state err result,
      mid = before ++ [.handle item n (.error err), .policy item n err state result] ∧
      Stops result ∧ Going item before n state

section Lived

variable {item : Item} {mid : List (Action P)} {stage : Stage P} {n : ℕ} {state : Option P}

theorem Going.start (item : Item) : Going item ([] : List (Action P)) 1 none where
  own _ h := by cases h
  attempts := rfl
  pos := le_rfl
  asked := rfl
  states := rfl
  completions := rfl
  not_succeeded h := by
    obtain ⟨_, _, h⟩ := h
    cases h
  not_stopped h := by
    obtain ⟨_, _, _, _, _, h, -⟩ := h
    cases h

/-- The attempts so far, and one more. -/
theorem Going.range (h : Going item mid n state) :
    Retry.attempts mid ++ [n] = List.range' 1 n := by
  have hpos := h.pos
  obtain ⟨k, rfl⟩ : ∃ k, n = k + 1 := ⟨n - 1, by omega⟩
  rw [h.attempts, List.range'_concat, Nat.add_sub_cancel]
  congr 2
  omega

/-- A failed attempt, and the policy says to retry. -/
theorem Going.round (h : Going item mid n state) (err : Thrown) (delayMs : ℚ) (state' : Option P) :
    Going item (mid ++ [.handle item n (.error err),
      .policy item n err state (.ok ⟨.retryIn delayMs, state'⟩)]) (n + 1) state' where
  own a ha := by
    rcases List.mem_append.mp ha with ha | ha
    · exact h.own a ha
    · simp only [List.mem_cons, List.not_mem_nil, or_false] at ha
      rcases ha with rfl | rfl <;> rfl
  attempts := by
    rw [attempts_append, Nat.add_sub_cancel, ← h.range]
    rfl
  pos := Nat.le_add_left ..
  asked := by
    rw [asked_append, failures_append, h.asked]
    rfl
  states := by
    rw [statesGiven_append, statesReturned_append]
    show (statesGiven mid ++ [state]) ++ [state'] = _
    rw [h.states]
    rfl
  completions := by
    rw [completions_append, h.completions]
    rfl
  not_succeeded := by
    rw [succeeded_append]
    rintro (hs | ⟨_, _, hs⟩)
    · exact h.not_succeeded hs
    · simp at hs
  not_stopped := by
    rw [stopped_append]
    rintro (hs | ⟨_, _, _, _, _, hs, hstops⟩)
    · exact h.not_stopped hs
    · simp only [List.mem_cons, reduceCtorEq, List.not_mem_nil, or_false, false_or] at hs
      cases hs
      rcases hstops with ⟨_, hstops⟩ | ⟨_, hstops⟩ <;> cases hstops

/-- What was done for the item, stage by stage. -/
theorem lived_of_path (h : Path Protocol (.retrying item 1 none) mid stage)
    (hmid : ∀ a ∈ mid, a.isClaim = false ∧ a ≠ .stopped) : Lived item mid stage := by
  induction h with
  | nil => exact ⟨rfl, .start item⟩
  | @snoc m stage mid a _ hstep ih =>
    have ih := ih fun a ha => hmid a (List.mem_append_left _ ha)
    obtain ⟨hclaim, hstopped⟩ := hmid a (by simp)
    cases hstep with
    | claimed _ _ => cases hclaim
    | empty _ => cases hclaim
    | stopped _ => exact absurd rfl hstopped
    | threw err =>
      obtain ⟨rfl, hgoing⟩ := ih
      exact ⟨rfl, mid, rfl, hgoing⟩
    | returned =>
      obtain ⟨rfl, hgoing⟩ := ih
      exact ⟨rfl, mid, _, _, rfl, hgoing⟩
    | complete outcome =>
      obtain ⟨rfl, before, n, state, rfl, hgoing⟩ := ih
      exact ⟨rfl, before, n, state, outcome, by simp, hgoing⟩
    | @asked it n state err result =>
      obtain ⟨rfl, before, rfl, hgoing⟩ := ih
      have hstops : Stops result →
          Lived it ((before ++ [.handle it n (.error err)]) ++ [.policy it n err state result])
            (.gaveUp it) := fun h =>
        ⟨rfl, before, n, state, err, result, by simp, h, hgoing⟩
      match result with
      | .error policyErr => exact hstops (Or.inl ⟨policyErr, rfl⟩)
      | .ok ⟨.stop, state'⟩ => exact hstops (Or.inr ⟨state', rfl⟩)
      | .ok ⟨.retryIn delayMs, state'⟩ =>
        refine ⟨rfl, ?_⟩
        have hround := hgoing.round err delayMs state'
        simpa using hround

theorem eq_range {xs : List ℕ} (h : xs = List.range' 1 n) : xs = List.range' 1 xs.length := by
  subst h
  rw [List.length_range']

theorem Going.states_prefix (h : Going item mid n state) :
    statesGiven mid <+: none :: statesReturned mid := ⟨[state], h.states⟩

/-- The calls that the item has had are about it. -/
theorem Going.own_append (h : Going item mid n state) {more : List (Action P)}
    (hmore : ∀ a ∈ more, a.item? = some item) : ∀ a ∈ mid ++ more, a.item? = some item := by
  intro a ha
  rcases List.mem_append.mp ha with ha | ha
  · exact h.own a ha
  · exact hmore a ha

theorem Going.not_succeeded_append (h : Going item mid n state) {more : List (Action P)}
    (hmore : ¬ Succeeded more) : ¬ Succeeded (mid ++ more) := by
  rw [succeeded_append]
  exact fun hs => hs.elim h.not_succeeded hmore

theorem Going.not_stopped_append (h : Going item mid n state) {more : List (Action P)}
    (hmore : ¬ Stopped more) : ¬ Stopped (mid ++ more) := by
  rw [stopped_append]
  exact fun hs => hs.elim h.not_stopped hmore

variable {next : Option (Action P)}

/-- The policy is to be asked. -/
theorem Going.failed (h : Going item mid n state) {err : Thrown}
    (hnext : ∀ a ∈ next, ∃ state result, a = .policy item n err state result) :
    Retried item (mid ++ [.handle item n (.error err)]) next where
  own := h.own_append (by simp [Action.item?])
  attempts := eq_range (by rw [attempts_append]; exact h.range)
  policy := by
    refine Or.inr ⟨n, err, by simp, ?_, hnext⟩
    rw [asked_append, failures_append, h.asked, List.append_assoc]
    rfl
  states := by
    rw [statesGiven_append, statesReturned_append]
    simpa [statesGiven, statesReturned] using h.states_prefix
  complete := by
    refine Or.inl ⟨?_, h.not_succeeded_append (by simp [Succeeded])⟩
    rw [completions_append, h.completions]
    rfl
  stop hs := absurd hs (h.not_stopped_append (by simp [Stopped]))

/-- The policy has stopped the worker. -/
theorem Going.stopped (h : Going item mid n state) {err : Thrown}
    {result : Except Thrown (PolicyResult P)} (hnext : ∀ a ∈ next, a = .stopped) :
    Retried item (mid ++ [.handle item n (.error err), .policy item n err state result]) next where
  own := h.own_append (by simp [Action.item?])
  attempts := eq_range (by rw [attempts_append]; exact h.range)
  policy := by
    refine Or.inl ?_
    rw [asked_append, failures_append, h.asked]
    rfl
  states := by
    rw [statesGiven_append]
    show statesGiven mid ++ [state] <+: _
    rw [h.states, statesReturned_append, ← List.cons_append]
    exact List.prefix_append ..
  complete := by
    refine Or.inl ⟨?_, h.not_succeeded_append (by simp [Succeeded])⟩
    rw [completions_append, h.completions]
    rfl
  stop _ := by
    refine ⟨?_, hnext⟩
    rw [completions_append, h.completions]
    rfl

/-- `complete` is to be called, or was called. -/
theorem Going.succeeded (h : Going item mid n state) {more : List (Action P)}
    (hmore : more = [] ∧ (∀ a ∈ next, ∃ outcome, a = .complete item outcome) ∨
      ∃ outcome, more = [.complete item outcome]) :
    Retried item (mid ++ .handle item n (.ok ()) :: more) next where
  own := by
    refine h.own_append ?_
    rcases hmore with ⟨rfl, -⟩ | ⟨outcome, rfl⟩ <;> simp [Action.item?]
  attempts := by
    apply eq_range (n := n)
    rw [attempts_append, ← h.range]
    rcases hmore with ⟨rfl, -⟩ | ⟨outcome, rfl⟩ <;> rfl
  policy := by
    refine Or.inl ?_
    rw [asked_append, failures_append, h.asked]
    rcases hmore with ⟨rfl, -⟩ | ⟨outcome, rfl⟩ <;> rfl
  states := by
    rw [statesGiven_append, statesReturned_append]
    rcases hmore with ⟨rfl, -⟩ | ⟨outcome, rfl⟩ <;>
      simpa [statesGiven, statesReturned] using h.states_prefix
  complete := by
    have hs : Succeeded (mid ++ .handle item n (.ok ()) :: more) := ⟨item, n, by simp⟩
    refine Or.inr ?_
    rw [completions_append, h.completions]
    rcases hmore with ⟨rfl, hnext⟩ | ⟨outcome, rfl⟩
    · exact Or.inr ⟨rfl, hs, hnext⟩
    · exact Or.inl ⟨rfl, hs⟩
  stop hs := by
    refine absurd hs (h.not_stopped_append ?_)
    rcases hmore with ⟨rfl, -⟩ | ⟨outcome, rfl⟩ <;> simp [Stopped]

/-- At every stage the item is treated as it should. -/
theorem Lived.retried (h : Lived item mid stage)
    (hnext : ∀ a ∈ next, ∃ stage', Protocol stage a stage') : Retried item mid next := by
  cases stage with
  | idle => exact h.elim
  | retrying it n state =>
    obtain ⟨rfl, h⟩ := h
    exact ⟨h.own, eq_range h.attempts, Or.inl h.asked, h.states_prefix,
      Or.inl ⟨h.completions, h.not_succeeded⟩, fun hs => absurd hs h.not_stopped⟩
  | failed it n state err =>
    obtain ⟨rfl, before, rfl, h⟩ := h
    refine h.failed fun a ha => ?_
    obtain ⟨_, hstep⟩ := hnext a ha
    cases hstep with
    | asked result => exact ⟨state, result, rfl⟩
    | claimed _ hclosed => cases hclosed
    | empty hclosed => cases hclosed
    | stopped hclosed => rcases hclosed with hclosed | ⟨_, hclosed⟩ <;> cases hclosed
  | succeeded it =>
    obtain ⟨rfl, before, n, state, rfl, h⟩ := h
    refine h.succeeded (Or.inl ⟨rfl, fun a ha => ?_⟩)
    obtain ⟨_, hstep⟩ := hnext a ha
    cases hstep with
    | complete outcome => exact ⟨outcome, rfl⟩
    | claimed _ hclosed => cases hclosed
    | empty hclosed => cases hclosed
    | stopped hclosed => rcases hclosed with hclosed | ⟨_, hclosed⟩ <;> cases hclosed
  | completed it =>
    obtain ⟨rfl, before, n, state, outcome, rfl, h⟩ := h
    exact h.succeeded (Or.inr ⟨outcome, rfl⟩)
  | gaveUp it =>
    obtain ⟨rfl, before, n, state, err, result, rfl, -, h⟩ := h
    refine h.stopped fun a ha => ?_
    obtain ⟨_, hstep⟩ := hnext a ha
    cases hstep with
    | stopped _ => rfl
    | claimed _ hclosed => cases hclosed
    | empty hclosed => cases hclosed

theorem retriesItems_of_path {t : List (Action P)} (h : Path Protocol .idle t stage) :
    RetriesItems t := by
  rintro pre item mid post rfl hmid
  obtain ⟨m, hleft, hpost⟩ := Path.append_iff.mp h
  obtain ⟨_, -, hclaimed⟩ := Path.append_iff.mp hleft
  obtain ⟨_, hclaim, hpath⟩ := Path.cons_iff.mp hclaimed
  cases hclaim
  refine (lived_of_path hpath hmid).retried fun a ha => ?_
  obtain ⟨rest, rfl⟩ := List.head?_eq_some_iff.mp ha
  obtain ⟨stage', hstep, -⟩ := Path.cons_iff.mp hpost
  exact ⟨stage', hstep⟩

/-- Only an item that was given up has seen the policy stop. -/
theorem Lived.gaveUp (h : Lived item mid stage) (hs : Stopped mid) : ∃ it, stage = .gaveUp it := by
  cases stage with
  | idle => exact h.elim
  | retrying it n state => exact absurd hs h.2.not_stopped
  | failed it n state err =>
    obtain ⟨-, before, rfl, h⟩ := h
    exact absurd hs (h.not_stopped_append (by simp [Stopped]))
  | succeeded it =>
    obtain ⟨-, before, n, state, rfl, h⟩ := h
    exact absurd hs (h.not_stopped_append (by simp [Stopped]))
  | completed it =>
    obtain ⟨-, before, n, state, outcome, rfl, h⟩ := h
    exact absurd hs (h.not_stopped_append (by simp [Stopped]))
  | gaveUp it => exact ⟨it, rfl⟩

end Lived

/-! ## The end of a worker -/

/-- The worker can go on to its end, without another call. -/
def Session.Ends (errorPolicy : ErrorPolicy M P) (s : Session M P) : Prop :=
  ∃ es s', (loop errorPolicy).run s es = some s' ∧ s'.trace = s.trace ++ [.stopped]

/-- The items of a session are treated as they should, and a policy that stops or throws ends it. -/
structure Session.Retries (errorPolicy : ErrorPolicy M P) (s : Session M P) : Prop where
  items : RetriesItems s.trace
  ends : ∀ pre item mid, s.trace = pre ++ .claim (some item) :: mid →
    (∀ a ∈ mid, a.isClaim = false ∧ a ≠ .stopped) → Stopped mid → s.Ends errorPolicy

/-- A worker that has been aborted ends at the head of its loop. -/
theorem Session.ends_of_claim {s : Session M P} (hphase : s.worker.phase = .claim)
    (haborted : s.worker.aborted = true) : s.Ends errorPolicy := by
  have hstep : s.worker.next errorPolicy (.claim none) = some (s.worker.goto .stopped, [.stopped]) := by
    simp [Worker.next, Worker.claim, Worker.ending, hphase, haborted]
  exact ⟨[.claim none], ⟨s.worker.goto .stopped, s.trace ++ [.stopped]⟩,
    System.run_cons_eq_some.mpr ⟨_, Option.map_eq_some_iff.mpr ⟨_, hstep, rfl⟩, rfl⟩, rfl⟩

theorem Session.ends_of_gaveUp {s : Session M P} {item : Item} (h : s.worker.AtStage (.gaveUp item)) :
    s.Ends errorPolicy := by
  unfold Worker.AtStage at h
  split at h <;> rename_i hphase
  · exact Session.ends_of_claim errorPolicy hphase (h.resolve_left (by simp [Stage.closed])).2
  all_goals try cases h
  · rename_i hclosed
    cases hclosed
  · rename_i exception h
    cases exception with
    | false =>
      have haborted : s.worker.aborted = true := h.2.resolve_right (by simp)
      have hstep : s.worker.next errorPolicy .go = some (s.worker.goto .claim, []) := by
        simp [Worker.next, Worker.go, hphase]
      obtain ⟨es, s', hrun, htrace⟩ :=
        Session.ends_of_claim (s := ⟨s.worker.goto .claim, s.trace ++ []⟩) errorPolicy rfl haborted
      rw [List.append_nil] at htrace
      exact ⟨.go :: es, s', System.run_cons_eq_some.mpr
        ⟨_, Option.map_eq_some_iff.mpr ⟨_, hstep, rfl⟩, hrun⟩, htrace⟩
    | true =>
      have hstep : s.worker.next errorPolicy .go = some (s.worker.goto .stopped, [.stopped]) := by
        simp [Worker.next, Worker.go, hphase]
      exact ⟨[.go], ⟨s.worker.goto .stopped, s.trace ++ [.stopped]⟩,
        System.run_cons_eq_some.mpr ⟨_, Option.map_eq_some_iff.mpr ⟨_, hstep, rfl⟩, rfl⟩, rfl⟩

variable {errorPolicy} in
theorem Session.Follows.retries {s : Session M P} (h : s.Follows) : s.Retries errorPolicy := by
  obtain ⟨stage, hpath, hat⟩ := h
  refine ⟨retriesItems_of_path hpath, fun pre item mid htrace hmid hs => ?_⟩
  rw [htrace] at hpath
  obtain ⟨_, -, hclaimed⟩ := Path.append_iff.mp hpath
  obtain ⟨_, hclaim, hitem⟩ := Path.cons_iff.mp hclaimed
  cases hclaim
  obtain ⟨it, rfl⟩ := (lived_of_path hitem hmid).gaveUp hs
  exact Session.ends_of_gaveUp errorPolicy hat

/-! ## A handler that always fails -/

/-- The handler fails, and nothing else interferes. -/
def Fails : Input → Prop
  | .handle (.error err) => err.text.isSome = true
  | .policy | .go => True
  | _ => False

/-- The worker has tried `1, …, k`, and has not been asked to end. -/
def Tried (wk : Worker M P) (acts : List (Action P)) (k : ℕ) : Prop :=
  attempts acts = List.range' 1 k ∧ wk.ending = false

/-- Where a worker stands whose handler fails, under the bound `n`. -/
def Trying (n : ℕ) (wk : Worker M P) (acts : List (Action P)) : Prop :=
  match wk.phase with
  | .attempt _ k _ | .handle _ k _ => 1 ≤ k ∧ k ≤ n + 1 ∧ Tried wk acts (k - 1)
  | .policy _ k _ err => 1 ≤ k ∧ k ≤ n + 1 ∧ Tried wk acts k ∧ err.text.isSome = true
  | .sleep _ k _ => 1 ≤ k ∧ k ≤ n ∧ Tried wk acts k
  | .settle exception => exception = false ∧ attempts acts = List.range' 1 (n + 1) ∧ wk.aborted = true
  | .claim => attempts acts = List.range' 1 (n + 1) ∧ wk.aborted = true
  | _ => False

section Trying

variable {n : ℕ} {inner policy : ErrorPolicy M P} {wk : Worker M P} {acts : List (Action P)}

theorem Tried.append {k : ℕ} (h : Tried wk acts k) {more : List (Action P)} (hmore : attempts more = []) :
    Tried wk (acts ++ more) k := by
  refine ⟨?_, h.2⟩
  rw [attempts_append, hmore, List.append_nil]
  exact h.1

/-- One more attempt fails. -/
theorem Tried.fail {k : ℕ} (h : Tried wk acts (k - 1)) (hk : 1 ≤ k) (item : Item) (err : Thrown) :
    Tried wk (acts ++ [.handle item k (.error err)]) k := by
  refine ⟨?_, h.2⟩
  obtain ⟨j, rfl⟩ : ∃ j, k = j + 1 := ⟨k - 1, by omega⟩
  rw [attempts_append, h.1, List.range'_concat, Nat.add_sub_cancel]
  show _ ++ [j + 1] = _ ++ [1 + 1 * j]
  rw [Nat.one_mul, Nat.add_comm]

/-- The decision of the bounded policy. -/
theorem retryUpTo_decision (hpolicy : retryUpTo n inner = .ok policy) (hinner : NeverStops inner)
    (err : Thrown) (ctx : ErrorPolicyContext) (state : Option P) (m : M) :
    n < ctx.attempt ∧ (policy err ctx state m).1 = .ok ⟨.stop, state⟩ ∨
      ctx.attempt ≤ n ∧ ∃ delayMs state', (policy err ctx state m).1 = .ok ⟨.retryIn delayMs, state'⟩ := by
  unfold retryUpTo at hpolicy
  split_ifs at hpolicy
  cases hpolicy
  by_cases hlt : (n : ℤ) < ctx.attempt
  · exact Or.inl ⟨by omega, congrArg Prod.fst (if_pos hlt)⟩
  · obtain ⟨delayMs, state', hretry⟩ := hinner err ctx state m
    exact Or.inr ⟨by omega, delayMs, state', (congrArg Prod.fst (if_neg hlt)).trans hretry⟩

theorem Trying.asks (hpolicy : retryUpTo n inner = .ok policy) (hinner : NeverStops inner)
    {item : Item} {k : ℕ} {state : Option P} {err : Thrown} (hk : 1 ≤ k) (hle : k ≤ n + 1)
    (h : Tried wk acts k) : Trying n (wk.policy policy item k state err).1
      (acts ++ (wk.policy policy item k state err).2) := by
  have hacts : ∀ result, attempts (acts ++ [.policy item k err state result]) = List.range' 1 k :=
    fun result => (h.append rfl).1
  rcases retryUpTo_decision hpolicy hinner err ⟨wk.id, item.partitionKey, item.eventNumber, k⟩ state
    wk.memory with ⟨hlt, hstop⟩ | ⟨hle', delayMs, state', hretry⟩
  · have hk' : k = n + 1 := by
      have hlt' : n < k := hlt
      omega
    simp only [Worker.policy, hstop]
    exact ⟨rfl, hk' ▸ hacts _, rfl⟩
  · simp only [Worker.policy, hretry]
    exact ⟨hk, hle', hacts _, h.2⟩

/-- Each step of a worker whose handler fails. -/
theorem Trying.step (hpolicy : retryUpTo n inner = .ok policy) (hinner : NeverStops inner)
    (h : Trying n wk acts) {input : Input} (hfails : Fails input) {r : Worker M P × List (Action P)}
    (hr : wk.next policy input = some r) : Trying n r.1 (acts ++ r.2) := by
  unfold Trying at h
  cases input with
  | handle outcome =>
    cases outcome with
    | ok _ => exact hfails.elim
    | error err =>
      simp only [Worker.next] at hr
      split at hr <;> cases hr
      rename_i item k state hphase
      rw [hphase] at h
      obtain ⟨hk, hle, htried⟩ := h
      obtain ⟨text, htext⟩ := Option.isSome_iff_exists.mp hfails
      simp only [Worker.handle, asError, htext, Option.map_some]
      have htried : Tried wk (acts ++ [.handle item k (.error err)]) k := htried.fail hk item err
      exact ⟨hk, hle, htried, hfails⟩
  | policy =>
    simp only [Worker.next] at hr
    split at hr <;> cases hr
    rename_i item k state err hphase
    rw [hphase] at h
    exact Trying.asks hpolicy hinner h.1 h.2.1 h.2.2.1
  | go =>
    simp only [Worker.next, Worker.go] at hr
    split at hr <;> rename_i hphase <;> cases hr <;> rw [hphase] at h
    · obtain ⟨hk, hle, htried⟩ := h
      rw [htried.2, List.append_nil]
      exact ⟨hk, hle, htried⟩
    · obtain ⟨hk, hle, htried⟩ := h
      rw [List.append_nil]
      exact ⟨by omega, by omega, htried⟩
    · rw [List.append_nil]
      exact h.2
    · cases h.1
  | _ => exact hfails.elim

/-- A run of steps like that. -/
theorem Trying.run (hpolicy : retryUpTo n inner = .ok policy) (hinner : NeverStops inner)
    (h : Trying n wk acts) {t : List (Action P)} {es : List Input} (hfails : ∀ e ∈ es, Fails e)
    {s : Session M P} (hrun : (loop policy).run ⟨wk, t ++ acts⟩ es = some s) :
    ∃ acts', s.trace = t ++ acts' ∧ Trying n s.worker acts' := by
  induction es generalizing wk acts with
  | nil =>
    cases hrun
    exact ⟨acts, rfl, h⟩
  | cons e es ih =>
    obtain ⟨s', hstep, hrun⟩ := System.run_cons_eq_some.mp hrun
    obtain ⟨r, hr, rfl⟩ := Option.map_eq_some_iff.mp hstep
    rw [List.append_assoc] at hrun
    exact ih (h.step hpolicy hinner (hfails e List.mem_cons_self) hr)
      (fun e he => hfails e (List.mem_cons_of_mem _ he)) hrun

theorem Trying.length_le (h : Trying n wk acts) : (attempts acts).length ≤ n + 1 := by
  unfold Trying at h
  split at h
  · rw [h.2.2.1, List.length_range']
    omega
  · rw [h.2.2.1, List.length_range']
    omega
  · rw [h.2.2.1.1, List.length_range']
    omega
  · rw [h.2.2.1, List.length_range']
    omega
  · rw [h.2.1, List.length_range']
  · rw [h.1, List.length_range']
  · exact h.elim

/-- `j` attempts from the attempt `k` on. -/
def rounds (errs : ℕ → Thrown) (k : ℕ) : ℕ → List Input
  | 0 => []
  | j + 1 => [.go, .handle (.error (errs k)), .policy, .go] ++ rounds errs (k + 1) j

/-- One attempt fails, and the policy allows another or stops the worker. -/
theorem run_round (hpolicy : retryUpTo n inner = .ok policy) (hinner : NeverStops inner) {item : Item}
    {k : ℕ} {state : Option P} (hphase : wk.phase = .attempt item k state)
    (hending : wk.ending = false) (hle : k ≤ n + 1) {err : Thrown} (herr : err.text.isSome = true)
    (t : List (Action P)) :
    ∃ s, (loop policy).run ⟨wk, t⟩ [.go, .handle (.error err), .policy, .go] = some s ∧
      (k = n + 1 ∧ s.worker.phase = .claim ∨
        k ≤ n ∧ s.worker.ending = false ∧ ∃ state', s.worker.phase = .attempt item (k + 1) state') := by
  obtain ⟨text, htext⟩ := Option.isSome_iff_exists.mp herr
  obtain ⟨id, phase, closing, aborted, memory⟩ := wk
  obtain rfl : phase = .attempt item k state := hphase
  have hasked := retryUpTo_decision hpolicy hinner err ⟨id, item.partitionKey, item.eventNumber, k⟩
    state memory
  simp only [System.run, loop, Session.step, Worker.next, Worker.go, hending, Worker.goto, Worker.handle,
    asError, htext, Worker.policy, Option.map_some, Option.bind_some, Bool.false_eq_true, if_false]
  rcases hasked with ⟨hlt, hstop⟩ | ⟨hle', delayMs, state', hretry⟩
  · simp only [hstop, Worker.giveUp, Option.map_some, Option.bind_some]
    have hlt : n < k := hlt
    exact ⟨_, rfl, Or.inl ⟨by omega, rfl⟩⟩
  · simp only [hretry, Option.map_some, Option.bind_some]
    exact ⟨_, rfl, Or.inr ⟨hle', hending, state', rfl⟩⟩

/-- The rounds are run until the bound is used up. -/
theorem run_rounds (hpolicy : retryUpTo n inner = .ok policy) (hinner : NeverStops inner)
    {errs : ℕ → Thrown} (herrs : ∀ k, (errs k).text.isSome = true) {item : Item} {k j : ℕ}
    {state : Option P} (hphase : wk.phase = .attempt item k state) (hending : wk.ending = false)
    (hk : k + j = n + 1) (t : List (Action P)) :
    ∃ s, (loop policy).run ⟨wk, t⟩ (rounds errs k (j + 1)) = some s ∧ s.worker.phase = .claim := by
  induction j generalizing wk k state t with
  | zero =>
    obtain ⟨s, hrun, hround⟩ := run_round hpolicy hinner hphase hending (by omega) (herrs k) t
    refine ⟨s, hrun, ?_⟩
    rcases hround with ⟨-, hclaim⟩ | ⟨hle, -⟩
    · exact hclaim
    · omega
  | succ j ih =>
    obtain ⟨⟨wk', t'⟩, hrun, hround⟩ :=
      run_round hpolicy hinner hphase hending (by omega) (herrs k) t
    rcases hround with ⟨hlast, -⟩ | ⟨-, hending', state', hphase'⟩
    · omega
    · obtain ⟨s, hrest, hclaim⟩ := ih hphase' hending' (by omega) t'
      exact ⟨s, System.run_append.mpr ⟨_, hrun, hrest⟩, hclaim⟩

end Trying

/-- A handler that always fails is run `n + 1` times for the item that was just claimed. -/
structure Exhausts (n : ℕ) (policy : ErrorPolicy M P) (item : Item) (s : Session M P) : Prop where
  /-- It is never run more often, and when the worker leaves the item it was run `n + 1` times. -/
  bound : ∀ es s', (∀ e ∈ es, Fails e) → (loop policy).run s es = some s' →
    ∃ acts, s'.trace = s.trace ++ acts ∧ (attempts acts).length ≤ n + 1 ∧
      (s'.worker.phase = .claim → attempts acts = List.range' 1 (n + 1) ∧ s'.worker.aborted = true)
  /-- The worker gets there, whatever is thrown. -/
  ends : ∀ errs : ℕ → Thrown, (∀ k, (errs k).text.isSome = true) →
    ∃ s', (loop policy).run s (rounds errs 1 (n + 1)) = some s' ∧ s'.worker.phase = .claim

theorem exhausts_of_retryUpTo {n : ℕ} {inner policy : ErrorPolicy M P}
    (hpolicy : retryUpTo n inner = .ok policy) (hinner : NeverStops inner) {item : Item}
    {s : Session M P} (hphase : s.worker.phase = .attempt item 1 none)
    (hending : s.worker.ending = false) : Exhausts n policy item s where
  bound es s' hfails hrun := by
    have hstart : Trying n s.worker ([] : List (Action P)) := by
      unfold Trying
      rw [hphase]
      exact ⟨le_rfl, by omega, rfl, hending⟩
    obtain ⟨acts, htrace, h⟩ := hstart.run (t := s.trace) hpolicy hinner hfails
      (by rwa [List.append_nil])
    refine ⟨acts, htrace, h.length_le, fun hclaim => ?_⟩
    unfold Trying at h
    rwa [hclaim] at h
  ends errs herrs := run_rounds hpolicy hinner herrs hphase hending (by omega) s.trace

/-! ## Main results -/

/-- A policy that always retries at once. -/
def retryAtOnce : ErrorPolicy Unit Unit := fun _ _ state m => (.ok ⟨.retryIn 0, state⟩, m)

def sampleItem : Item := ⟨"order-1", 7⟩

/-- `Object.create(null)` is thrown: the policy is not asked about the attempt that failed. -/
theorem items_retried_fails : ∃ s : Session Unit Unit, Reachable (loop retryAtOnce) s ∧
    s.trace = [.claim (some sampleItem), .handle sampleItem 1 (.error ⟨none⟩), .stopped] ∧
    ¬ s.Retries retryAtOnce := by
  have hrun : (loop retryAtOnce).run (Session.start "w" ()) [.claim (some sampleItem), .load true, .go,
      .handle (.error ⟨none⟩), .go] = some ⟨⟨"w", .stopped, false, false, ()⟩,
        [.claim (some sampleItem), .handle sampleItem 1 (.error ⟨none⟩), .stopped]⟩ := rfl
  refine ⟨_, .run (.init ⟨_, _, rfl⟩) hrun, rfl, fun h => ?_⟩
  have hmid := h.items [] sampleItem [.handle sampleItem 1 (.error ⟨none⟩)] [.stopped] rfl
    (by simp [Action.isClaim])
  rcases hmid.policy with hpolicy | ⟨_, _, -, -, hnext⟩
  · cases hpolicy
  · obtain ⟨_, _, h⟩ := hnext .stopped rfl
    cases h

variable (M P) in
/-- While every value that a handler throws can be converted to a string, each item is retried as its
    policy says. The bound of `retryUpTo` is exact, and bounds compose. -/
theorem items_retried :
    (∀ (errorPolicy : ErrorPolicy M P) s, ReachableWhen (loop errorPolicy) Printable s →
      s.Retries errorPolicy) ∧
    (∀ (n : ℕ) (inner policy : ErrorPolicy M P), retryUpTo n inner = .ok policy → NeverStops inner →
      ∀ (item : Item) (s : Session M P), s.worker.phase = .attempt item 1 none →
        s.worker.ending = false → Exhausts n policy item s) ∧
    ∀ (a b : ℤ) (inner : ErrorPolicy M P), 1 ≤ a → 1 ≤ b →
      (retryUpTo b inner).bind (retryUpTo a) = retryUpTo (min a b) inner :=
  ⟨fun _ _ h => (follows_of_reachable h).retries,
    fun _ _ _ hpolicy hinner _ _ => exhausts_of_retryUpTo hpolicy hinner,
    fun _ _ inner ha hb => retryUpTo_retryUpTo ha hb inner⟩

/-- The second attempt succeeds. A handler that always fails would be run twice. -/
theorem items_retried_sampleItem : ∃ (policy : ErrorPolicy Unit Unit) (s : Session Unit Unit),
    retryUpTo 1 retryAtOnce = .ok policy ∧ attempts s.trace = [1, 2] ∧ completions s.trace = 1 ∧
      s.Retries policy ∧
      Exhausts 1 policy sampleItem ⟨⟨"w", .attempt sampleItem 1 none, false, false, ()⟩, []⟩ := by
  obtain ⟨hruns, hexhausts, -⟩ := items_retried Unit Unit
  have hreached : (loop (fun err ctx state m => if (1 : ℤ) < ctx.attempt then (.ok ⟨.stop, state⟩, m)
      else retryAtOnce err ctx state m)).runWhen Printable (Session.start "w" ())
      [.claim (some sampleItem), .load true, .go, .handle (.error ⟨some "timeout"⟩), .policy, .go, .go,
        .handle (.ok ()), .complete (.ok ())] = some ⟨⟨"w", .settle false, false, false, ()⟩,
      [.claim (some sampleItem), .handle sampleItem 1 (.error ⟨some "timeout"⟩),
        .policy sampleItem 1 ⟨some "timeout"⟩ none (.ok ⟨.retryIn 0, none⟩),
        .handle sampleItem 2 (.ok ()), .complete sampleItem (.ok ())]⟩ := rfl
  exact ⟨_, _, rfl, rfl, rfl, hruns _ _ (.runWhen (.init ⟨_, _, rfl⟩) hreached),
    hexhausts 1 _ _ rfl (fun _ _ _ _ => ⟨0, _, rfl⟩) _ _ rfl rfl⟩

end Instructed.Retry
