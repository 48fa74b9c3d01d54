import Instructed.Lib.HighWater
import Instructed.Projection.InOrder

/-!
# Projections with a read store

The application owns the read store of a projection. Its handler writes one row for an event, guarded by
the event's number, and awaits the write. A call of `pool.query` is executed at any time after it was
sent: when its worker has lost its claim, has given up the attempt or has crashed.

* `Handling`, `ReadModel`: what a handler does with an event, and how its writes are guarded;
* `World`: the workers of the projection, the calls of `pool.query`, and the rows;
* `step`, `system`: the workers go on, or a call is executed;
* `step_cases`: **the steps**.
-/

namespace Instructed.ReadStore

open Sql Relational Transition Routing Processing Projection HighWater

/-- What a handler does with an event. -/
inductive Handling (α : Type) where
  /-- It throws before it writes. -/
  | threw
  /-- It returns without a write. -/
  | returned
  /-- It awaits a write to the row of the key. -/
  | writes (key : String) (a : α)

/-- The handler of a projection (bank-account/src/projections/balances/projection.ts:49–79), whose
    writes are guarded (queries.ts:30–33, 44–48). -/
structure ReadModel (D : RoutingDefinition) (α ρ : Type) extends Guarded α ρ where
  handle : RecordedEvent → Handling α
  /-- The row is that of the event's partition, and the write carries the event's number. -/
  partitioned : ∀ {e : RecordedEvent} {p key : String} {a : α}, D.routeFn e = .partition p →
    handle e = .writes key a → key = p ∧ number a = e.eventNumber

/-- What has become of a call of `pool.query` (queries.ts:25, 43). -/
inductive QueryState where
  | sent
  | executed
  | failed
  deriving DecidableEq, Repr

/-- A call of `pool.query`, with the event that it writes. -/
structure Query where
  event : RecordedEvent
  state : QueryState

structure World (ρ : Type) where
  processing : Processing.World Unit Unit Empty
  queries : List Query
  /-- The call that the handler of a worker awaits. -/
  awaited : String → ℕ
  rows : String → Option ρ

/-- What happens next. -/
inductive Op where
  | processing (op : Processing.Op Unit HandlerOutcome)
  /-- A call of `pool.query` is executed, or fails. -/
  | query (i : ℕ)

section World

variable {D : RoutingDefinition} {α ρ : Type} (M : ReadModel D α ρ) (number : JsNumber)

def World.install : World ρ := ⟨Processing.World.install, [], fun _ => 0, fun _ => none⟩

def World.store (w : World ρ) : Store := w.processing.store

/-- The event with which the next step of the worker calls the handler. -/
def calls (wk : Processing.Worker Unit Unit Empty) : Option RecordedEvent :=
  match wk.phase with
  | .attempt _ event _ => if wk.ending then none else some event
  | _ => none

/-- The handler of a worker may end so (projection.ts:58, 65, 72): it returns when its write was
    executed, if it makes one. -/
def World.mayEnd (w : World ρ) (id : String) (wk : Processing.Worker Unit Unit Empty)
    (outcome : HandlerOutcome) : Bool :=
  match wk.phase with
  | .handle _ event _ _ =>
    match M.handle event, outcome with
    | .threw, outcome => outcome = .threw
    | .returned, outcome => outcome = .returned
    | .writes .., .threw => true
    | .writes .., .returned => (w.queries[w.awaited id]?).any fun q => q.state = .executed
  | _ => true

/-- The handler is called with the event, and sends its write (projection.ts:49–79). -/
def World.send (w : World ρ) (id : String) (event : RecordedEvent) : World ρ :=
  match M.handle event with
  | .writes .. =>
    { w with
      queries := w.queries ++ [⟨event, .sent⟩]
      awaited := Function.update w.awaited id w.queries.length }
  | .threw | .returned => w

/-- A call of `pool.query` that was sent is executed, or fails. -/
def World.query (w : World ρ) (i : ℕ) : Option (World ρ) :=
  match w.queries[i]? with
  | some ⟨event, .sent⟩ =>
    match M.handle event with
    | .writes key a =>
      match M.write a (w.rows key) with
      | some row => some { w with
          queries := w.queries.set i ⟨event, .executed⟩
          rows := Function.update w.rows key row }
      | none => some { w with queries := w.queries.set i ⟨event, .failed⟩ }
    | .threw | .returned => none
  | _ => none

/-- The workers go on. -/
def World.process (w : World ρ) (op : Processing.Op Unit HandlerOutcome) : Option (World ρ) :=
  (Processing.step D (adapter D) number w.processing op).map fun processing =>
    { w with processing := processing }

/-- One step. -/
def step (w : World ρ) : Op → Option (World ρ)
  | .processing (.advance id x) =>
    (w.processing.workers id).bind fun wk =>
      if w.mayEnd M id wk x.handler then
        (w.process (D := D) number (.advance id x)).map fun w' =>
          match calls wk with
          | some event => w'.send M id event
          | none => w'
      else none
  | .processing op => w.process (D := D) number op
  | .query i => w.query M i

/-- A projection on a fresh install, with an empty read store. -/
def system : System (World ρ) Op where
  init w := w = World.install
  step := step M number

end World

end Instructed.ReadStore
