import Instructed.Processing.Worker

/-!
# The projection worker

`workers/projection/projection-worker.ts`: the callbacks that `startProjectionWorker` gives to the
processing worker. The user's handler is opaque: it returns or throws, after any time.
-/

namespace Instructed.Projection

open Sql Relational Transition Routing Processing

/-- What the user's handler comes to. -/
inductive HandlerOutcome where
  | returned
  | threw
  deriving DecidableEq, Repr

/-- The callbacks of `startProjectionWorker`. -/
def adapter (D : RoutingDefinition) : Adapter Unit Unit HandlerOutcome Empty where
  start _ _ _ := ()
  handle _ _ _ _ x _ :=
    match x.handler with
    | .returned => ⟨(), .returned, []⟩
    | .threw => ⟨(), .threw, []⟩
  complete id _ item _ := ((), some fun _ => .completeProjection (itemArgs D id item))
  owns _ := false

end Instructed.Projection
