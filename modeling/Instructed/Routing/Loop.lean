import Instructed.Lib.Trace
import Instructed.Routing.Worker

/-!
# The routing loop and its lease

`loop`, `routeOneBatch` and `releaseQuietly` (routing-worker.ts:204–359) by themselves, whatever their
calls come to and whenever the worker is asked to stop.

* `Action`: a call with what came of it, or the end of the loop;
* `Worker.next`: the pieces of the loop. The workers of `Routing.Worker` run it: `World.advance_next`;
* `Protocol`: what a worker may do with its lease, stage by stage;
* `Follows`, `follows_step`: a worker keeps to the protocol;
* `lease_kept`: **a lease is given back once, and only what was read under it is routed.**
-/

namespace Instructed.Routing

open Sql Relational Transition Trace

/-! ## The loop -/

/-- A call of the client or of `routeFn` with what came of it. -/
inductive Action where
  | claim (reply : Except Failure (ClaimOutcome × ℕ))
  | read (start : ℕ) (reply : Except Failure (List RecordedEvent))
  | routeFn (event : RecordedEvent) (outcome : RouteOutcome)
  | routeBatch (cursor : ℕ) (decisions : List (String × ℕ)) (reply : Except Failure Unit)
  | release (reply : Except Failure Unit)
  /-- `resolveStopped()`. -/
  | stopped

/-- What the pending call comes to, or a request to stop. -/
inductive Input where
  | stop
  | claim (reply : Except Failure (ClaimOutcome × ℕ))
  | read (reply : Except Failure (List RecordedEvent))
  /-- There is no pending call: the loop of `routeOneBatch` goes on. -/
  | route
  | decide (outcome : RouteOutcome)
  | commit (reply : Except Failure Unit)
  | release (reply : Except Failure Unit)

namespace Worker

variable (wk : Worker)

def goto (phase : Phase) : Worker := { wk with phase := phase }

/-- Lines 240–274. -/
def claim (reply : Except Failure (ClaimOutcome × ℕ)) : Worker × List Action :=
  if wk.ending then (wk.goto (.release .stop), [])
  else match reply with
    | .ok (.claimed, lastSeen) =>
      ({ wk with phase := .read lastSeen, holdingLease := true }, [.claim reply])
    | .ok (.alreadyClaimed, _) => (wk.goto .claim, [.claim reply])
    | .error _ => (wk.goto (.release .stop), [.claim reply])

/-- Lines 276–302. -/
def read (lastSeen : ℕ) (reply : Except Failure (List RecordedEvent)) : Worker × List Action :=
  if wk.ending then (wk.goto (.release .stop), [])
  else match reply with
    | .error _ | .ok [] => (wk.goto (.release .again), [.read (lastSeen + 1) reply])
    | .ok (e :: batch) =>
      (wk.goto (.route lastSeen (e :: batch) .empty), [.read (lastSeen + 1) reply])

/-- The head of the `for` loop of `routeOneBatch`. -/
def route (lastSeen : ℕ) (rest : List RecordedEvent) (r : Routed) : Worker :=
  match rest with
  | [] =>
    match r.cursorTo with
    | none => wk.goto (.release .stop)
    | some n => wk.goto (.commit lastSeen r n)
  | e :: rest =>
    if wk.ending then wk.goto (.release .stop) else wk.goto (.decide lastSeen e rest r)

/-- The rest of one iteration of it. -/
def decide (lastSeen : ℕ) (e : RecordedEvent) (rest : List RecordedEvent) (r : Routed)
    (outcome : RouteOutcome) : Worker × List Action :=
  let drop (aborted : Bool) : Worker := { wk with phase := .release .stop, aborted := aborted }
  let go (decisions : List (String × ℕ)) :=
    wk.goto (.route lastSeen rest ⟨r.seen ++ [e], decisions, some e.eventNumber⟩)
  let wk' := match outcome with
    | .threw => drop true
    | .malformed => drop (if wk.ending then wk.aborted else true)
    | .ignore => if wk.ending then drop wk.aborted else go r.decisions
    | .partition p =>
      if wk.ending then drop wk.aborted else go (r.decisions ++ [(p, e.eventNumber)])
  (wk', [.routeFn e outcome])

/-- Lines 313–338. -/
def commit (r : Routed) (cursorTo : ℕ) (reply : Except Failure Unit) : Worker × List Action :=
  let wk' := match reply with
    | .ok _ => wk.goto (.release .again)
    | .error f =>
      if f.isLeaseLoss then { wk with phase := .claim, holdingLease := false }
      else wk.goto (.release .again)
  (wk', [.routeBatch cursorTo r.decisions reply])

/-- `releaseQuietly`, and the end of the loop when it is the last time. -/
def release (next : Next) (reply : Except Failure Unit) : Worker × List Action :=
  let called : List Action := if wk.holdingLease then [.release reply] else []
  match next with
  | .again => ({ wk with phase := .claim, holdingLease := false }, called)
  | .stop => ({ wk with phase := .stopped, holdingLease := false }, called ++ [.stopped])

/-- The loop goes on to the end of its next call. -/
def next : Input → Option (Worker × List Action)
  | .stop => some ({ wk with closing := true }, [])
  | .claim reply =>
    match wk.phase with
    | .claim => some (wk.claim reply)
    | _ => none
  | .read reply =>
    match wk.phase with
    | .read lastSeen => some (wk.read lastSeen reply)
    | _ => none
  | .route =>
    match wk.phase with
    | .route lastSeen rest r => some (wk.route lastSeen rest r, [])
    | _ => none
  | .decide outcome =>
    match wk.phase with
    | .decide lastSeen e rest r => some (wk.decide lastSeen e rest r outcome)
    | _ => none
  | .commit reply =>
    match wk.phase with
    | .commit _ r cursorTo => some (wk.commit r cursorTo reply)
    | _ => none
  | .release reply =>
    match wk.phase with
    | .release next => some (wk.release next reply)
    | _ => none

end Worker

/-- A worker and what it did, a ghost. -/
structure Session where
  worker : Worker
  trace : List Action

def Session.step (s : Session) (input : Input) : Option Session :=
  (s.worker.next input).map fun r => ⟨r.1, s.trace ++ r.2⟩

/-- `startRoutingWorker`, with calls that come to anything. -/
def loop : System Session Input where
  init s := ∃ opts, s = ⟨.start opts, []⟩
  step := Session.step

section Advance

variable {κ : Type} {D : RoutingDefinition} {number : JsNumber} {w w' : World κ} {id : String}
  {wk : Worker} {now : Timestamp} {d : Delivery}

theorem workers_setWorker (w : World κ) (id : String) (x : Option Worker) :
    (w.setWorker id x).workers id = x := Function.update_self ..

theorem World.claim_worker : (w.claim D id wk now d).workers id = some (wk.claim
    ((d.reply (claimSubscription now (some D.stream) (some D.name) (some id)
      (some wk.opts.leaseSeconds) (some wk.opts.claimOptions) w.store)).map fun r =>
        (r.1.result, r.1.lastSeen))).1 := by
  unfold World.claim Worker.claim
  split_ifs
  · exact workers_setWorker ..
  · dsimp only
    split
    · rename_i r st hreply
      rw [hreply]
      simp only [Except.map]
      split <;> rename_i hresult <;> rw [hresult] <;> exact workers_setWorker ..
    · rename_i hreply
      rw [hreply]
      exact workers_setWorker ..

theorem World.read_worker (lastSeen : ℕ) : (w.read D id wk lastSeen d).workers id =
    some (wk.read lastSeen (d.reply (D.read lastSeen wk.opts w.store))).1 := by
  unfold World.read Worker.read
  split_ifs
  · exact workers_setWorker ..
  · split <;> rename_i hreply <;> rw [hreply] <;> exact workers_setWorker ..

theorem World.route_worker (lastSeen : ℕ) (rest : List RecordedEvent) (r : Routed) :
    (w.route id wk lastSeen rest r).workers id = some (wk.route lastSeen rest r) := by
  unfold World.route Worker.route
  split
  · cases r.cursorTo with
    | none => exact workers_setWorker ..
    | some n => exact workers_setWorker ..
  · split_ifs <;> exact workers_setWorker ..

theorem World.decide_worker (lastSeen : ℕ) (e : RecordedEvent) (rest : List RecordedEvent)
    (r : Routed) : (w.decide D id wk lastSeen e rest r).workers id =
      some (wk.decide lastSeen e rest r (D.routeFn e)).1 := by
  unfold World.decide Worker.decide
  dsimp only
  cases D.routeFn e with
  | threw => exact workers_setWorker ..
  | malformed => exact workers_setWorker ..
  | ignore =>
    dsimp only
    split_ifs <;> exact workers_setWorker ..
  | partition p =>
    dsimp only
    split_ifs <;> exact workers_setWorker ..

theorem World.commit_worker (r : Routed) (cursorTo : ℕ) :
    (w.commit D number id wk r cursorTo d).workers id = some (wk.commit r cursorTo
      ((d.reply (routeBatch (some D.stream) (some D.name) (some id) (some cursorTo)
        (some (decisionsPayload number r.decisions)) w.store)).map fun _ => ())).1 := by
  unfold World.commit Worker.commit
  dsimp only
  split
  · rename_i hreply
    rw [hreply]
    exact workers_setWorker ..
  · rename_i hreply
    rw [hreply]
    simp only [Except.map]
    split_ifs <;> exact workers_setWorker ..

theorem World.release_worker (next : Next) : (w.release D id wk next d).workers id =
    some (wk.release next (.ok ())).1 := by
  unfold World.release Worker.release
  cases next <;> exact workers_setWorker ..

/-- **The workers on the database run this loop.** -/
theorem World.advance_next (h : w.advance D number id wk now d = some w') :
    ∃ input r, wk.next input = some r ∧ w'.workers id = some r.1 := by
  have hnext : ∀ {phase : Phase} {input : Input} {r : Worker × List Action},
      wk.phase = phase → (wk.goto phase).next input = some r → wk.next input = some r := by
    rintro _ input r rfl h
    exact h
  unfold World.advance at h
  split at h <;> rename_i hphase <;> cases h
  · exact ⟨.claim _, _, hnext hphase rfl, World.claim_worker⟩
  · exact ⟨.read _, _, hnext hphase rfl, World.read_worker _⟩
  · exact ⟨.route, _, hnext hphase rfl, World.route_worker _ _ _⟩
  · exact ⟨.decide _, _, hnext hphase rfl, World.decide_worker _ _ _ _⟩
  · exact ⟨.commit _, _, hnext hphase rfl, World.commit_worker _ _⟩
  · exact ⟨.release _, _, hnext hphase rfl, World.release_worker _⟩

end Advance

/-! ## The protocol -/

/-- The outcome lets the batch go on. -/
def RouteOutcome.accepted : RouteOutcome → Bool
  | .ignore | .partition _ => true
  | .malformed | .threw => false

/-- The decision of one call of `routeFn`. -/
def decisionOf (call : RecordedEvent × RouteOutcome) : Option (String × ℕ) :=
  match call.2 with
  | .partition p => some (p, call.1.eventNumber)
  | _ => none

/-- What a worker has done since it was granted the lease. -/
inductive Stage where
  /-- It does not hold the lease. -/
  | idle
  | held (lastSeen : ℕ)
  /-- It has read `batch`, and called `routeFn` so often. -/
  | routing (lastSeen : ℕ) (batch : List RecordedEvent) (calls : List (RecordedEvent × RouteOutcome))
  /-- It can only release. -/
  | spent (lastSeen : ℕ)

/-- The reply of `route_batch` says that the lease, or the subscription, is gone. -/
def lost : Except Failure Unit → Bool
  | .ok _ => false
  | .error f => f.isLeaseLoss

/-- What a worker may do. -/
inductive Protocol : Stage → Action → Stage → Prop
  | claimed (lastSeen : ℕ) : Protocol .idle (.claim (.ok (.claimed, lastSeen))) (.held lastSeen)
  | alreadyClaimed (lastSeen : ℕ) : Protocol .idle (.claim (.ok (.alreadyClaimed, lastSeen))) .idle
  | claimFailed (f : Failure) : Protocol .idle (.claim (.error f)) .idle
  | stopped : Protocol .idle .stopped .idle
  | read (lastSeen : ℕ) (batch : List RecordedEvent) :
      Protocol (.held lastSeen) (.read (lastSeen + 1) (.ok batch)) (.routing lastSeen batch [])
  | readFailed (lastSeen : ℕ) (f : Failure) :
      Protocol (.held lastSeen) (.read (lastSeen + 1) (.error f)) (.spent lastSeen)
  | routeFn {lastSeen : ℕ} {batch : List RecordedEvent} {calls : List (RecordedEvent × RouteOutcome)}
      {e : RecordedEvent} (outcome : RouteOutcome) : calls.map Prod.fst ++ [e] <+: batch →
      Protocol (.routing lastSeen batch calls) (.routeFn e outcome)
        (.routing lastSeen batch (calls ++ [(e, outcome)]))
  | routeBatch {lastSeen cursor : ℕ} {batch : List RecordedEvent}
      {calls : List (RecordedEvent × RouteOutcome)} (reply : Except Failure Unit) :
      calls.map Prod.fst = batch → (∀ call ∈ calls, call.2.accepted = true) →
      batch.getLast?.map (·.eventNumber) = some cursor →
      Protocol (.routing lastSeen batch calls)
        (.routeBatch cursor (calls.filterMap decisionOf) reply)
        (if lost reply then .idle else .spent lastSeen)
  | release {stage : Stage} (reply : Except Failure Unit) : stage ≠ .idle →
      Protocol stage (.release reply) .idle

/-- The stage of a worker that is in the loop of `routeOneBatch`. -/
structure Routes (lastSeen : ℕ) (rest : List RecordedEvent) (r : Routed) (stage : Stage) : Prop where
  stage : ∃ calls, stage = .routing lastSeen (r.seen ++ rest) calls ∧ calls.map Prod.fst = r.seen ∧
    (∀ call ∈ calls, call.2.accepted = true) ∧ r.decisions = calls.filterMap decisionOf
  cursorTo : r.cursorTo = r.seen.getLast?.map (·.eventNumber)

/-- Where a worker stands, by the protocol. -/
def Worker.AtStage (wk : Worker) (stage : Stage) : Prop :=
  match wk.phase with
  | .claim | .stopped => wk.holdingLease = false ∧ stage = .idle
  | .read lastSeen => wk.holdingLease = true ∧ stage = .held lastSeen
  | .route lastSeen rest r => wk.holdingLease = true ∧ Routes lastSeen rest r stage
  | .decide lastSeen e rest r => wk.holdingLease = true ∧ Routes lastSeen (e :: rest) r stage
  | .commit lastSeen r cursorTo => wk.holdingLease = true ∧ Routes lastSeen [] r stage ∧
      r.cursorTo = some cursorTo
  | .release _ => wk.holdingLease = true ↔ stage ≠ .idle

/-- The worker has kept to the protocol. -/
def Session.Follows (s : Session) : Prop :=
  ∃ stage, Path Protocol .idle s.trace stage ∧ s.worker.AtStage stage

section Follows

variable {wk : Worker} {stage : Stage}

/-- The actions lead from the stage to one where the worker then stands. -/
def Leads (stage : Stage) (r : Worker × List Action) : Prop :=
  ∃ stage', Path Protocol stage r.2 stage' ∧ r.1.AtStage stage'

theorem leads_nil {wk : Worker} (h : wk.AtStage stage) : Leads stage (wk, []) := ⟨stage, .nil, h⟩

theorem leads_one {wk : Worker} {a : Action} {stage' : Stage} (hstep : Protocol stage a stage')
    (h : wk.AtStage stage') : Leads stage (wk, [a]) := ⟨stage', Path.singleton_iff.mpr hstep, h⟩

theorem Worker.claim_leads (hhold : wk.holdingLease = false) (reply : Except Failure (ClaimOutcome × ℕ)) :
    Leads .idle (wk.claim reply) := by
  unfold Worker.claim
  split_ifs
  · exact leads_nil (by simp [Worker.AtStage, Worker.goto, hhold])
  · split
    · exact leads_one (.claimed _) ⟨rfl, rfl⟩
    · exact leads_one (.alreadyClaimed _) ⟨hhold, rfl⟩
    · exact leads_one (.claimFailed _) (by simp [Worker.AtStage, Worker.goto, hhold])

theorem Worker.read_leads (hhold : wk.holdingLease = true) (lastSeen : ℕ)
    (reply : Except Failure (List RecordedEvent)) :
    Leads (.held lastSeen) (wk.read lastSeen reply) := by
  unfold Worker.read
  split_ifs
  · exact leads_nil (by simp [Worker.AtStage, Worker.goto, hhold])
  · split
    · exact leads_one (.readFailed _ _) (by simp [Worker.AtStage, Worker.goto, hhold])
    · exact leads_one (.read _ _) (by simp [Worker.AtStage, Worker.goto, hhold])
    · refine leads_one (.read _ _) ⟨hhold, ⟨[], rfl, rfl, ?_, rfl⟩, rfl⟩
      exact fun _ h => nomatch h

theorem Routes.ne_idle {lastSeen : ℕ} {rest : List RecordedEvent} {r : Routed}
    (h : Routes lastSeen rest r stage) : stage ≠ .idle := by
  obtain ⟨⟨calls, rfl, -⟩, -⟩ := h
  exact fun h => nomatch h

theorem atStage_release {next : Next} (hphase : wk.phase = .release next)
    (h : wk.holdingLease = true ↔ stage ≠ .idle) : wk.AtStage stage := by
  rw [Worker.AtStage, hphase]
  exact h

theorem Worker.route_leads (hhold : wk.holdingLease = true) {lastSeen : ℕ}
    {rest : List RecordedEvent} {r : Routed} (h : Routes lastSeen rest r stage) :
    Leads stage (wk.route lastSeen rest r, []) := by
  apply leads_nil
  have hne := h.ne_idle
  unfold Worker.route
  split
  · split
    · exact atStage_release rfl (by simp [Worker.goto, hhold, hne])
    · rename_i n hcursor
      exact ⟨hhold, h, hcursor⟩
  · split_ifs
    · exact atStage_release rfl (by simp [Worker.goto, hhold, hne])
    · exact ⟨hhold, h⟩

theorem Worker.decide_leads (hhold : wk.holdingLease = true) {lastSeen : ℕ} {e : RecordedEvent}
    {rest : List RecordedEvent} {r : Routed} (h : Routes lastSeen (e :: rest) r stage)
    (outcome : RouteOutcome) : Leads stage (wk.decide lastSeen e rest r outcome) := by
  obtain ⟨⟨calls, rfl, hcalls, haccepted, hdecisions⟩, hcursor⟩ := h
  have hprefix : calls.map Prod.fst ++ [e] <+: r.seen ++ e :: rest := by
    rw [hcalls]
    exact ⟨rest, by simp⟩
  -- The batch is dropped: whatever the call came to, the lease is released.
  have hdrop : ∀ aborted : Bool, Leads (.routing lastSeen (r.seen ++ e :: rest) calls)
      ({ wk with phase := .release .stop, aborted := aborted }, [.routeFn e outcome]) := fun _ =>
    leads_one (.routeFn outcome hprefix) (atStage_release rfl (by simp [hhold]))
  -- The batch goes on.
  have hgo : ∀ decisions, outcome.accepted = true →
      decisions = (calls ++ [(e, outcome)]).filterMap decisionOf →
      Leads (.routing lastSeen (r.seen ++ e :: rest) calls)
        (wk.goto (.route lastSeen rest ⟨r.seen ++ [e], decisions, some e.eventNumber⟩),
          [.routeFn e outcome]) := by
    intro decisions hok hds
    refine leads_one (.routeFn outcome hprefix)
      ⟨hhold, ⟨calls ++ [(e, outcome)], by simp, by simp [hcalls], ?_, hds⟩, by simp⟩
    intro call hcall
    rcases List.mem_append.mp hcall with hcall | hcall
    · exact haccepted call hcall
    · obtain rfl := List.mem_singleton.mp hcall
      exact hok
  unfold Worker.decide
  dsimp only
  cases outcome with
  | threw => exact hdrop _
  | malformed => exact hdrop _
  | ignore =>
    dsimp only
    split_ifs
    · exact hdrop _
    · exact hgo _ rfl (by simp [hdecisions, decisionOf])
  | partition p =>
    dsimp only
    split_ifs
    · exact hdrop _
    · exact hgo _ rfl (by simp [hdecisions, decisionOf])

theorem Worker.commit_leads (hhold : wk.holdingLease = true) {lastSeen : ℕ} {r : Routed} {cursorTo : ℕ}
    (h : Routes lastSeen [] r stage) (hcursorTo : r.cursorTo = some cursorTo)
    (reply : Except Failure Unit) : Leads stage (wk.commit r cursorTo reply) := by
  obtain ⟨⟨calls, rfl, hcalls, haccepted, hdecisions⟩, hcursor⟩ := h
  rw [List.append_nil]
  have hstep := @Protocol.routeBatch lastSeen _ _ _ reply hcalls haccepted (hcursor.symm.trans hcursorTo)
  rw [← hdecisions] at hstep
  unfold Worker.commit
  dsimp only
  refine leads_one hstep ?_
  cases reply with
  | ok _ => exact atStage_release rfl (by simp [Worker.goto, hhold, lost])
  | error f =>
    dsimp only [lost]
    split_ifs with hlost
    · exact ⟨rfl, if_pos hlost⟩
    · exact atStage_release rfl (by simp [Worker.goto, hhold, hlost])

theorem Worker.release_leads (hhold : wk.holdingLease = true ↔ stage ≠ .idle) (next : Next)
    (reply : Except Failure Unit) : Leads stage (wk.release next reply) := by
  have hcalled : Path Protocol stage (if wk.holdingLease then [.release reply] else []) .idle := by
    split_ifs with hholding
    · exact Path.singleton_iff.mpr (.release reply (hhold.mp hholding))
    · have hidle : stage = .idle := by
        by_contra hne
        exact hholding (hhold.mpr hne)
      exact hidle ▸ .nil
  cases next with
  | again => exact ⟨.idle, hcalled, rfl, rfl⟩
  | stop => exact ⟨.idle, hcalled.snoc .stopped, rfl, rfl⟩

/-- Each piece of the loop keeps to the protocol. -/
theorem Worker.next_leads {input : Input} {r : Worker × List Action} (hat : wk.AtStage stage)
    (h : wk.next input = some r) : Leads stage r := by
  unfold Worker.AtStage at hat
  cases input with
  | stop =>
    cases h
    exact leads_nil hat
  | claim reply =>
    simp only [Worker.next] at h
    split at h <;> cases h
    rename_i hphase
    rw [hphase] at hat
    exact hat.2 ▸ Worker.claim_leads hat.1 reply
  | read reply =>
    simp only [Worker.next] at h
    split at h <;> cases h
    rename_i hphase
    rw [hphase] at hat
    exact hat.2 ▸ Worker.read_leads hat.1 _ reply
  | route =>
    simp only [Worker.next] at h
    split at h <;> cases h
    rename_i hphase
    rw [hphase] at hat
    exact Worker.route_leads hat.1 hat.2
  | decide outcome =>
    simp only [Worker.next] at h
    split at h <;> cases h
    rename_i hphase
    rw [hphase] at hat
    exact Worker.decide_leads hat.1 hat.2 outcome
  | commit reply =>
    simp only [Worker.next] at h
    split at h <;> cases h
    rename_i hphase
    rw [hphase] at hat
    exact Worker.commit_leads hat.1 hat.2.1 hat.2.2 reply
  | release reply =>
    simp only [Worker.next] at h
    split at h <;> cases h
    rename_i hphase
    rw [hphase] at hat
    exact Worker.release_leads hat _ reply

theorem follows_step {s s' : Session} {input : Input} (hs : s.Follows) (h : s.step input = some s') :
    s'.Follows := by
  obtain ⟨stage, hpath, hat⟩ := hs
  obtain ⟨r, hr, rfl⟩ := Option.map_eq_some_iff.mp h
  obtain ⟨stage', hpath', hat'⟩ := Worker.next_leads hat hr
  exact ⟨stage', hpath.append hpath', hat'⟩

theorem follows_of_reachable {s : Session} (h : Reachable loop s) : s.Follows := by
  refine h.invariant (fun s hs => ?_) fun _ _ _ hs _ hstep => follows_step hs hstep
  obtain ⟨opts, rfl⟩ := hs
  exact ⟨.idle, .nil, rfl, rfl⟩

end Follows

/-! ## What the protocol gives -/

def Action.isClaim : Action → Bool
  | .claim _ => true
  | _ => false

/-- A release attempt, or a `route_batch` whose failure is of the kind `isLoss`. -/
def Action.gives (isLoss : Failure → Bool) : Action → Bool
  | .release _ => true
  | .routeBatch _ _ (.error f) => isLoss f
  | _ => false

/-- Between a claim that is granted and the next claim, or the end, the lease is given back once. -/
def GivenOnce (isLoss : Failure → Bool) (t : List Action) : Prop :=
  ∀ pre lastSeen mid x post,
    t = pre ++ .claim (.ok (.claimed, lastSeen)) :: mid ++ x :: post →
    (∀ y ∈ mid, y.isClaim = false) → x.isClaim = true ∨ x = .stopped →
    mid.countP (Action.gives isLoss) = 1

/-- A claim was granted, and since then there was no claim and the lease was not given back. -/
def Holds (t : List Action) (lastSeen : ℕ) (since : List Action) : Prop :=
  (∃ pre, t = pre ++ .claim (.ok (.claimed, lastSeen)) :: since) ∧
    ∀ y ∈ since, y.isClaim = false ∧ y.gives Failure.isLeaseLoss = false

/-- Only a worker that holds the lease releases it. -/
def ReleasesHeld (t : List Action) : Prop :=
  ∀ pre reply post, t = pre ++ .release reply :: post → ∃ lastSeen since, Holds pre lastSeen since

/-- What a worker routes is what `routeFn` made of the events that it has read since it was granted the
    lease, from the position behind `last_seen` on, up to the last of them. -/
def RoutesRead (t : List Action) : Prop :=
  ∀ pre cursor decisions reply post, t = pre ++ .routeBatch cursor decisions reply :: post →
    ∃ (lastSeen : ℕ) (batch : List RecordedEvent) (calls : List (RecordedEvent × RouteOutcome)),
      Holds pre lastSeen (.read (lastSeen + 1) (.ok batch) ::
        calls.map fun call => .routeFn call.1 call.2) ∧
      calls.map Prod.fst = batch ∧ (∀ call ∈ calls, call.2.accepted = true) ∧
      decisions = calls.filterMap decisionOf ∧ batch.getLast?.map (·.eventNumber) = some cursor

section Protocol

variable {stage stage' : Stage} {a : Action} {t : List Action}

/-- What a worker did since it was granted the lease. -/
def Stage.Since : Stage → ℕ → List Action → Prop
  | .idle, _, _ => False
  | .held n, lastSeen, since => n = lastSeen ∧ since = []
  | .routing n batch calls, lastSeen, since => n = lastSeen ∧
      since = .read (lastSeen + 1) (.ok batch) :: calls.map fun call => .routeFn call.1 call.2
  | .spent n, lastSeen, _ => n = lastSeen

/-- A worker that is not idle holds the lease. -/
theorem holds_of_path (h : Path Protocol .idle t stage) (hne : stage ≠ .idle) :
    ∃ lastSeen since, Holds t lastSeen since ∧ stage.Since lastSeen since := by
  induction h with
  | nil => exact absurd rfl hne
  | @snoc m stage t a _ hstep ih =>
    have hmore : ∀ {lastSeen since}, Holds t lastSeen since → a.isClaim = false →
        a.gives Failure.isLeaseLoss = false → Holds (t ++ [a]) lastSeen (since ++ [a]) := by
      rintro lastSeen since ⟨⟨pre, rfl⟩, hsince⟩ hclaim hgives
      refine ⟨⟨pre, by simp⟩, fun y hy => ?_⟩
      rcases List.mem_append.mp hy with hy | hy
      · exact hsince y hy
      · exact List.mem_singleton.mp hy ▸ ⟨hclaim, hgives⟩
    cases hstep with
    | claimed lastSeen => exact ⟨lastSeen, [], ⟨⟨t, rfl⟩, fun _ h => nomatch h⟩, rfl, rfl⟩
    | alreadyClaimed _ => exact absurd rfl hne
    | claimFailed _ => exact absurd rfl hne
    | stopped => exact absurd rfl hne
    | release _ _ => exact absurd rfl hne
    | read n batch =>
      obtain ⟨lastSeen, since, hholds, rfl, rfl⟩ := ih fun h => nomatch h
      exact ⟨_, _, hmore hholds rfl rfl, rfl, rfl⟩
    | readFailed n f =>
      obtain ⟨lastSeen, since, hholds, rfl, rfl⟩ := ih fun h => nomatch h
      exact ⟨_, _, hmore hholds rfl rfl, rfl⟩
    | routeFn outcome _ =>
      obtain ⟨lastSeen, since, hholds, rfl, rfl⟩ := ih fun h => nomatch h
      exact ⟨_, _, hmore hholds rfl rfl, rfl, by simp⟩
    | routeBatch reply _ _ _ =>
      obtain ⟨lastSeen, since, hholds, rfl, rfl⟩ := ih fun h => nomatch h
      split_ifs at hne ⊢ with hlost
      · exact absurd rfl hne
      · refine ⟨_, _, hmore hholds rfl ?_, rfl⟩
        cases reply with
        | ok _ => rfl
        | error f =>
          show f.isLeaseLoss = false
          simpa [lost] using hlost

/-- A step other than a claim leaves the lease as it is, or gives it back. -/
theorem gives_of_step (h : Protocol stage a stage') (hclaim : a.isClaim = false) :
    (a.gives Failure.isLeaseLoss = false ∧ (stage' = .idle ↔ stage = .idle)) ∨
      (a.gives Failure.isLeaseLoss = true ∧ stage ≠ .idle ∧ stage' = .idle) := by
  cases h with
  | claimed _ => cases hclaim
  | alreadyClaimed _ => cases hclaim
  | claimFailed _ => cases hclaim
  | stopped => exact Or.inl ⟨rfl, Iff.rfl⟩
  | read _ _ => exact Or.inl ⟨rfl, by simp⟩
  | readFailed _ _ => exact Or.inl ⟨rfl, by simp⟩
  | routeFn _ _ => exact Or.inl ⟨rfl, by simp⟩
  | routeBatch reply _ _ _ =>
    cases reply with
    | ok _ => exact Or.inl ⟨rfl, by simp [lost]⟩
    | error f =>
      cases hlost : f.isLeaseLoss with
      | true => exact Or.inr ⟨hlost, by simp, by simp [lost, hlost]⟩
      | false => exact Or.inl ⟨hlost, by simp [lost, hlost]⟩
  | release _ hne => exact Or.inr ⟨rfl, hne, rfl⟩

/-- Without a claim the lease is given back at most once. -/
theorem countP_of_path (h : Path Protocol stage t stage') (hclaims : ∀ y ∈ t, y.isClaim = false) :
    (t.countP (Action.gives Failure.isLeaseLoss) = 0 ∧ (stage' = .idle ↔ stage = .idle)) ∨
      (t.countP (Action.gives Failure.isLeaseLoss) = 1 ∧ stage ≠ .idle ∧ stage' = .idle) := by
  induction h with
  | nil => exact Or.inl ⟨rfl, Iff.rfl⟩
  | @snoc m stage' t a _ hstep ih =>
    have ih := ih fun y hy => hclaims y (List.mem_append_left _ hy)
    have hgives := gives_of_step hstep (hclaims a (by simp))
    rw [List.countP_append, List.countP_singleton]
    rcases ih with ⟨hzero, hidle⟩ | ⟨hone, hne, hidle⟩
    · rcases hgives with ⟨hkeep, hsame⟩ | ⟨hgive, hne, hidle'⟩
      · exact Or.inl ⟨by simp [hzero, hkeep], hsame.trans hidle⟩
      · exact Or.inr ⟨by simp [hzero, hgive], fun h => hne (hidle.mpr h), hidle'⟩
    · rcases hgives with ⟨hkeep, hsame⟩ | ⟨-, hne', -⟩
      · exact Or.inr ⟨by simp [hone, hkeep], hne, hsame.mpr hidle⟩
      · exact absurd hidle hne'

/-- A claim, and the end, find an idle worker. -/
theorem idle_of_step (h : Protocol stage a stage') (ha : a.isClaim = true ∨ a = .stopped) :
    stage = .idle := by
  cases h with
  | claimed _ => rfl
  | alreadyClaimed _ => rfl
  | claimFailed _ => rfl
  | stopped => rfl
  | _ => exact absurd ha (by simp [Action.isClaim])

theorem givenOnce_of_path (h : Path Protocol .idle t stage) : GivenOnce Failure.isLeaseLoss t := by
  rintro pre lastSeen mid x post rfl hclaims hx
  obtain ⟨m, hleft, hright⟩ := Path.append_iff.mp h
  obtain ⟨n, hx', -⟩ := Path.cons_iff.mp hright
  obtain ⟨k, -, hmid⟩ := Path.append_iff.mp hleft
  obtain ⟨held, hclaim, hmid⟩ := Path.cons_iff.mp hmid
  have hidle := idle_of_step hx' hx
  cases hclaim
  rcases countP_of_path hmid hclaims with ⟨-, hiff⟩ | ⟨hone, -, -⟩
  · cases hiff.mp hidle
  · exact hone

theorem releasesHeld_of_path (h : Path Protocol .idle t stage) : ReleasesHeld t := by
  rintro pre reply post rfl
  obtain ⟨m, hpre, hpost⟩ := Path.append_iff.mp h
  obtain ⟨_, hstep, -⟩ := Path.cons_iff.mp hpost
  cases hstep with
  | release _ hne =>
    obtain ⟨lastSeen, since, hholds, -⟩ := holds_of_path hpre hne
    exact ⟨lastSeen, since, hholds⟩

theorem routesRead_of_path (h : Path Protocol .idle t stage) : RoutesRead t := by
  rintro pre cursor decisions reply post rfl
  obtain ⟨m, hpre, hpost⟩ := Path.append_iff.mp h
  obtain ⟨_, hstep, -⟩ := Path.cons_iff.mp hpost
  cases hstep with
  | routeBatch _ hcalls haccepted hcursor =>
    obtain ⟨lastSeen, since, hholds, rfl, rfl⟩ := holds_of_path hpre fun h => nomatch h
    exact ⟨_, _, _, hholds, hcalls, haccepted, rfl, hcursor⟩

end Protocol

/-- **The routing loop neither leaks nor doubles its lease.** Whatever its calls come to and whenever it
    is asked to stop: between a claim that was granted and the next claim, or the end of the worker, there
    is one release attempt, or one `route_batch` that raises IS022 or IS020; only a worker that holds the
    lease releases it; and a worker routes just the events that it has read since that claim, from the
    position behind the `last_seen` it returned on. -/
theorem lease_kept {s : Session} (h : Reachable loop s) :
    GivenOnce Failure.isLeaseLoss s.trace ∧ ReleasesHeld s.trace ∧ RoutesRead s.trace := by
  obtain ⟨stage, hpath, -⟩ := follows_of_reachable h
  exact ⟨givenOnce_of_path hpath, releasesHeld_of_path hpath, routesRead_of_path hpath⟩

/-! ### Runs -/

/-- IS022. -/
def Failure.isSubscriptionLeaseLost : Failure → Bool
  | .raised e => e.sqlstate = .IS022
  | .connection => false

def sampleWorker : Worker := .start ⟨10, 5, none⟩

/-- An event to route. -/
def sampleRow : RecordedEvent :=
  ⟨⟨List.replicate 32 (Fin.last 15), rfl⟩, 1, "order-1", 1, "opened", none, none, .null, none, 0⟩

/-- A batch is routed under the lease, up to the call of `route_batch`. -/
def sampleBatch : List Input :=
  [.claim (.ok (.claimed, 0)), .read (.ok [sampleRow]), .route, .decide (.partition "order-1"), .route]

/-- `route_batch` finds no subscription, and the worker claims again. -/
def sampleDeleted : List Input :=
  sampleBatch ++ [.commit (.error (.raised ⟨.IS020, "not found"⟩)), .claim (.error .connection)]

/-- Of IS022 alone it is not so: when the subscription was deleted, `route_batch` raises IS020, and there
    is nothing to release. -/
theorem lease_kept_fails : ∃ s, loop.run ⟨sampleWorker, []⟩ sampleDeleted = some s ∧
    ¬ GivenOnce Failure.isSubscriptionLeaseLost s.trace := by
  refine ⟨_, rfl, fun h => ?_⟩
  have hcount := h [] 0
    [.read 1 (.ok [sampleRow]), .routeFn sampleRow (.partition "order-1"),
      .routeBatch 1 [("order-1", 1)] (.error (.raised ⟨.IS020, "not found"⟩))]
    (.claim (.error .connection)) [] rfl (by simp [Action.isClaim]) (Or.inl rfl)
  revert hcount
  decide

/-- The batch is committed, and the lease is released. -/
def sampleReleased : List Input :=
  sampleBatch ++ [.commit (.ok ()), .stop, .release (.ok ()), .claim (.error .connection),
    .release (.ok ())]

theorem lease_kept_sampleReleased : ∃ s, loop.run ⟨sampleWorker, []⟩ sampleReleased = some s ∧
    s.worker.phase = .stopped ∧ GivenOnce Failure.isLeaseLoss s.trace ∧ ReleasesHeld s.trace ∧
      RoutesRead s.trace := by
  have hstart : Reachable loop ⟨sampleWorker, []⟩ := .init ⟨_, rfl⟩
  have hrun : ∀ s, loop.run ⟨sampleWorker, []⟩ sampleReleased = some s → Reachable loop s :=
    fun _ h => hstart.run h
  exact ⟨_, rfl, rfl, lease_kept (hrun _ rfl)⟩

end Instructed.Routing
