import Instructed.Queue.WorkItem
import Instructed.Routing.Worker

/-!
# Waiting for subscriptions

`waitForProjection` (`consistency/consistency.ts`), cut at its calls of `is_subscription_caught_up`,
which reads the cursor and the work items in two statements, and the end of `dispatch`
(`facade/instructed.ts`, lines 509–515).

* `Wait`: a wait under way, with the refs that are still missing;
* `waitForProjection`: its start, with the guard against refs on other streams;
* `Wait.ask`, `Wait.answer`, `Wait.endPass`: the pieces of the polling loop;
* `dispatchWait`: the wait at the end of `dispatch`.
-/

namespace Instructed.Consistency

open Sql Routing

/-- `AppendedEvent`. -/
structure AppendedEvent extends AppendedRow where
  streamUuid : String

/-- `SubscriptionRef`. -/
structure SubscriptionRef where
  stream : String
  name : String
  deriving DecidableEq, Repr

def refKey (s : SubscriptionRef) : String := s.stream ++ "::" ++ s.name

/-- What the caller catches. -/
inductive WaitError where
  /-- `ConsistencyTargetError`. -/
  | target (message subscriptionStream subscriptionName : String) (appendedStreams : List String)
  /-- `ConsistencyTimeout`. -/
  | timeout (message : String) (waitedMs : ℕ) (missing : List String)
  | call (f : Failure)

/-- Where the polling loop stands. -/
inductive Stage where
  /-- In the `for` loop, with the entries that the pass has still to ask for. -/
  | pass (rest : List (String × SubscriptionRef))
  /-- In `client.isSubscriptionCaughtUp`, whose first statements have read the store. -/
  | asking (key : String) (ref : SubscriptionRef) (rest : List (String × SubscriptionRef))
      (read : Store)
  | returned
  | threw (e : WaitError)

/-- A call of `waitForProjection`, with its arguments. -/
structure Wait where
  rows : List AppendedEvent
  subscriptions : List SubscriptionRef
  timeout : ℕ
  target : ℕ
  /-- In milliseconds, as `Date.now()`. -/
  deadline : ℤ
  remaining : List (String × SubscriptionRef)
  stage : Stage

/-- `remaining.set(refKey(s), s)`. -/
def setRef (remaining : List (String × SubscriptionRef)) (s : SubscriptionRef) :
    List (String × SubscriptionRef) :=
  if (remaining.map Prod.fst).contains (refKey s) then
    remaining.map fun e => if e.1 = refKey s then (refKey s, s) else e
  else remaining ++ [(refKey s, s)]

/-- The ref is on one stream, and nothing was appended to it. -/
def crossStream (appendedStreams : List String) (s : SubscriptionRef) : Bool :=
  s.stream ≠ "$all" && !appendedStreams.contains s.stream

def targetError (s : SubscriptionRef) (appendedStreams : List String) : WaitError :=
  .target ("waitForProjection: per-stream subscription target \"" ++ s.stream ++ "::" ++ s.name ++
    "\" cannot wait on an append to [" ++ ", ".intercalate appendedStreams ++
    "]. A per-stream subscription on stream X can only wait on appends to stream X. Use \x7b " ++
    "stream: \"$all\", name \x7d if the subscription is cross-stream.")
    s.stream s.name appendedStreams

/-- The call, up to its first call of the database. -/
def waitForProjection (rows : List AppendedEvent) (subscriptions : List SubscriptionRef)
    (timeout : ℕ) (now : ℤ) : Wait :=
  let wait (target : ℕ) (remaining : List (String × SubscriptionRef)) (stage : Stage) : Wait :=
    ⟨rows, subscriptions, timeout, target, now + timeout, remaining, stage⟩
  match rows, subscriptions with
  | [], _ => wait 0 [] .returned
  | _, [] => wait 0 [] .returned
  | row :: rows, s :: ss =>
    let appendedStreams := ((row :: rows).map AppendedEvent.streamUuid).eraseDups
    let target := rows.foldl (fun m r => if r.eventNumber > m then r.eventNumber else m)
      row.eventNumber
    match (s :: ss).find? (crossStream appendedStreams) with
    | some s => wait target [] (.threw (targetError s appendedStreams))
    | none =>
      let remaining := (s :: ss).foldl setRef []
      wait target remaining (.pass remaining)

/-- The next entry of the pass: its call is under way, and has read the cursor. -/
def Wait.ask (w : Wait) (st : Store) : Option Wait :=
  match w.stage with
  | .pass ((key, ref) :: rest) => some { w with stage := .asking key ref rest st }
  | _ => none

/-- The rest of the call and of the iteration. -/
def Wait.answer (w : Wait) (d : Delivery) (st : Store) : Option Wait :=
  match w.stage with
  | .asking key ref rest read =>
    match d.reply (isSubscriptionCaughtUp (some ref.stream) (some ref.name) (some w.target) read st) with
    | .ok true => some { w with
        remaining := w.remaining.filter fun e => e.1 ≠ key
        stage := .pass rest }
    | .ok false => some { w with stage := .pass rest }
    | .error (.raised e) =>
      if e.sqlstate = .IS020 then some { w with stage := .pass rest }
      else some { w with stage := .threw (.call (.raised e)) }
    | .error .connection => some { w with stage := .threw (.call .connection) }
  | _ => none

def timeoutError (timeout : ℕ) (remaining : List (String × SubscriptionRef)) : WaitError :=
  .timeout ("waitForProjection: timed out after " ++ toString timeout ++ "ms waiting for " ++
    toString remaining.length ++ " subscription(s)") timeout (remaining.map fun e => refKey e.2)

/-- The end of a pass: the call returns, gives up, or sleeps and starts the next pass. -/
def Wait.endPass (w : Wait) (now : ℤ) : Option Wait :=
  match w.stage with
  | .pass [] =>
    if w.remaining.isEmpty then some { w with stage := .returned }
    else if w.deadline ≤ now then
      some { w with stage := .threw (timeoutError w.timeout w.remaining) }
    else some { w with stage := .pass w.remaining }
  | _ => none

/-! ## The arguments -/

section Arguments

variable {w w' : Wait}

/-- The wait is a call with the same arguments. -/
def Wait.SameCall (w w' : Wait) : Prop :=
  w'.rows = w.rows ∧ w'.subscriptions = w.subscriptions

theorem waitForProjection_call (rows : List AppendedEvent) (subscriptions : List SubscriptionRef)
    (timeout : ℕ) (now : ℤ) :
    (waitForProjection rows subscriptions timeout now).rows = rows ∧
      (waitForProjection rows subscriptions timeout now).subscriptions = subscriptions := by
  unfold waitForProjection
  dsimp only
  split
  · exact ⟨rfl, rfl⟩
  · exact ⟨rfl, rfl⟩
  · split <;> exact ⟨rfl, rfl⟩

theorem Wait.ask_call {st : Store} (h : w.ask st = some w') : w.SameCall w' := by
  unfold Wait.ask at h
  split at h
  · exact Option.some.inj h ▸ ⟨rfl, rfl⟩
  · cases h

theorem Wait.answer_call {d : Delivery} {st : Store} (h : w.answer d st = some w') :
    w.SameCall w' := by
  unfold Wait.answer at h
  split at h
  · split at h
    · exact Option.some.inj h ▸ ⟨rfl, rfl⟩
    · exact Option.some.inj h ▸ ⟨rfl, rfl⟩
    · split_ifs at h <;> exact Option.some.inj h ▸ ⟨rfl, rfl⟩
    · exact Option.some.inj h ▸ ⟨rfl, rfl⟩
  · cases h

theorem Wait.endPass_call {now : ℤ} (h : w.endPass now = some w') : w.SameCall w' := by
  unfold Wait.endPass at h
  split at h
  · split_ifs at h <;> exact Option.some.inj h ▸ ⟨rfl, rfl⟩
  · cases h

end Arguments

/-! ## The target -/

theorem le_foldl_target (rows : List AppendedEvent) (m : ℕ) :
    m ≤ rows.foldl (fun m r => if r.eventNumber > m then r.eventNumber else m) m ∧
      ∀ r ∈ rows,
        r.eventNumber ≤ rows.foldl (fun m r => if r.eventNumber > m then r.eventNumber else m) m := by
  induction rows generalizing m with
  | nil => exact ⟨le_rfl, fun r hr => nomatch hr⟩
  | cons x rows ih =>
    rw [List.foldl_cons]
    obtain ⟨hle, hrows⟩ := ih (if x.eventNumber > m then x.eventNumber else m)
    refine ⟨le_trans (by split_ifs <;> omega) hle, fun r hr => ?_⟩
    rcases List.mem_cons.mp hr with rfl | hr
    · exact le_trans (by split_ifs <;> omega) hle
    · exact hrows r hr

theorem foldl_target_mem (rows : List AppendedEvent) (m : ℕ) :
    rows.foldl (fun m r => if r.eventNumber > m then r.eventNumber else m) m = m ∨
      ∃ r ∈ rows, r.eventNumber =
        rows.foldl (fun m r => if r.eventNumber > m then r.eventNumber else m) m := by
  induction rows generalizing m with
  | nil => exact Or.inl rfl
  | cons x rows ih =>
    rw [List.foldl_cons]
    rcases ih (if x.eventNumber > m then x.eventNumber else m) with heq | ⟨r, hr, heq⟩
    · rw [heq]
      split_ifs
      · exact Or.inr ⟨x, List.mem_cons_self, rfl⟩
      · exact Or.inl rfl
    · exact Or.inr ⟨r, List.mem_cons_of_mem _ hr, heq⟩

/-! ## `dispatch` -/

/-- An entry of `DispatchOptions.consistency`. -/
inductive ConsistencyEntry where
  | name (name : String)
  | ref (s : SubscriptionRef)

def normaliseConsistency (list : List ConsistencyEntry) : List SubscriptionRef :=
  list.map fun
    | .name name => ⟨"$all", name⟩
    | .ref s => s

/-- `dispatch`, from the result of `runCommandWithSnapshots` on. It waits when neither list is empty;
    `waitForProjection` returns at once when one is. -/
def dispatchWait (appended : List AppendedEvent) (consistency : Option (List ConsistencyEntry))
    (consistencyTimeout : Option ℕ) (now : ℤ) : Wait :=
  waitForProjection appended (normaliseConsistency (consistency.getD []))
    (consistencyTimeout.getD 5000) now

end Instructed.Consistency
