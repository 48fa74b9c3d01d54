import Instructed.Routing.Worker

/-!
# The facade's registry

The registration methods of the class `Instructed` (`facade/instructed.ts`, lines 327–437), the stream
name that `dispatch` derives (444–507), and the translation of `partitionBy` (`facade/partition-by.ts`).

* `Registerable`, `Facade.register`: the four shapes, and what is refused;
* `prefixType`: the default stream name (`aggregate/run-command.ts`, lines 87–89), which is also the
  default `source_uuid` of a process manager;
* `Facade.dispatchStream`: the stream of an aggregate.
-/

namespace Instructed

open Sql Relational Routing

/-- The default `streamName`. -/
def prefixType (type : String) : String → String := fun id => type ++ "-" ++ id

/-! ## Definitions -/

/-- The fields of an `AggregateDefinition` that the facade reads. -/
structure AggregateDefinition where
  type : String
  streamName : Option (String → String)

/-- What comes of the `key` function of a `per-key` projection. -/
inductive KeyOutcome where
  | key (k : String)
  | notAString
  | threw

/-- `PartitionBy`. -/
inductive PartitionBy where
  | sequential
  | perEvent
  | perKey (key : RecordedEvent → KeyOutcome)

/-- `routingFnForPartitionBy`. -/
def routingFnForPartitionBy : PartitionBy → RecordedEvent → RouteOutcome
  | .sequential => fun _ => .partition "_default"
  | .perEvent => fun e => .partition (toString e.eventNumber)
  | .perKey key => fun e =>
    match key e with
    | .key k => .partition k
    | .notAString => .malformed
    | .threw => .threw

/-- The fields of a `ProjectionDefinition` that the facade reads. -/
structure ProjectionDefinition where
  type : String
  stream : Option String
  partitionBy : Option PartitionBy
  routeFn : Option (RecordedEvent → RouteOutcome)
  startFrom : Option StartFrom

/-- The fields of a `ProcessManagerDefinition` that the facade reads. -/
structure ProcessManagerDefinition where
  type : String
  stream : Option String
  streamName : Option (String → String)
  routeFn : RecordedEvent → RouteOutcome
  startFrom : Option StartFrom

/-- What `register` accepts, told apart by its shape. `γ` is the type of commands. -/
inductive Registerable (γ : Type) where
  | commandRouter (router : γ → String × String)
  | aggregate (d : AggregateDefinition)
  | projection (d : ProjectionDefinition)
  | processManager (d : ProcessManagerDefinition)
  | unrecognised

structure RegisteredProjection where
  stream : String
  definition : ProjectionDefinition

structure RegisteredProcessManager where
  stream : String
  definition : ProcessManagerDefinition

/-! ## The registry -/

/-- The registry of the class `Instructed`. -/
structure Facade (γ : Type) where
  aggregates : Table AggregateDefinition.type
  projections : List RegisteredProjection
  processManagers : List RegisteredProcessManager
  commandRouter : Option (γ → String × String)

section Registry

variable {γ : Type}

def Facade.new : Facade γ := ⟨.empty _, [], [], none⟩

/-- `registerAggregate`. -/
def Facade.registerAggregate (f : Facade γ) (d : AggregateDefinition) : Except String (Facade γ) :=
  if (f.aggregates.find? d.type).isSome then
    .error ("Instructed.register: aggregate type \"" ++ d.type ++ "\" already registered")
  else .ok { f with aggregates := f.aggregates.put d }

/-- `registerProjection`. -/
def Facade.registerProjection (f : Facade γ) (d : ProjectionDefinition) : Except String (Facade γ) :=
  if d.partitionBy.isSome && d.routeFn.isSome then
    .error ("Instructed.register(\"" ++ d.type ++
      "\"): `partitionBy` and `routeFn` are mutually exclusive")
  else .ok { f with projections := f.projections ++ [⟨d.stream.getD "$all", d⟩] }

/-- `registerProcessManager`. -/
def Facade.registerProcessManager (f : Facade γ) (d : ProcessManagerDefinition) :
    Except String (Facade γ) :=
  .ok { f with processManagers := f.processManagers ++ [⟨d.stream.getD "$all", d⟩] }

/-- `registerCommandRouter`. -/
def Facade.registerCommandRouter (f : Facade γ) (router : γ → String × String) :
    Except String (Facade γ) :=
  if f.commandRouter.isSome then
    .error "Instructed.register: a command router is already registered"
  else .ok { f with commandRouter := some router }

/-- `register`. `opts` says whether options were given. -/
def Facade.register (f : Facade γ) (arg : Registerable γ) (opts : Bool) : Except String (Facade γ) :=
  match arg with
  | .commandRouter router =>
    if opts then .error "Instructed.register: a CommandRouter takes no options"
    else f.registerCommandRouter router
  | .aggregate d =>
    if opts then .error "Instructed.register: an AggregateDefinition takes no options"
    else f.registerAggregate d
  | .processManager d => f.registerProcessManager d
  | .projection d => f.registerProjection d
  | .unrecognised => .error ("Instructed.register: argument doesn't match any registerable shape " ++
      "(CommandRouter / AggregateDefinition / ProjectionDefinition / ProcessManagerDefinition)")

/-- A sequence of registrations, all of them accepted. -/
def Facade.registerAll (f : Facade γ) : List (Registerable γ × Bool) → Except String (Facade γ)
  | [] => .ok f
  | (arg, opts) :: regs => do
    let f ← f.register arg opts
    f.registerAll regs

/-- `resolveProjectionRouteFn`. -/
def RegisteredProjection.resolveRouteFn (p : RegisteredProjection) : RecordedEvent → RouteOutcome :=
  match p.definition.routeFn with
  | some routeFn => routeFn
  | none => routingFnForPartitionBy (p.definition.partitionBy.getD .sequential)

/-! ## Names -/

/-- The stream of an aggregate. -/
def AggregateDefinition.streamUuid (d : AggregateDefinition) (id : String) : String :=
  (d.streamName.getD (prefixType d.type)) id

/-- `sourceUuidOf`, the key of a process manager's snapshot. -/
def ProcessManagerDefinition.sourceUuid (d : ProcessManagerDefinition) (partitionKey : String) :
    String :=
  (d.streamName.getD (prefixType d.type)) partitionKey

/-- The stream that `dispatch(aggregateType, id, command)` appends to. -/
def Facade.dispatchStream (f : Facade γ) (aggregateType id : String) : Except String String :=
  match f.aggregates.find? aggregateType with
  | some d => .ok (d.streamUuid id)
  | none => .error ("Unknown aggregate type: " ++ aggregateType)

/-- The stream that `dispatch(command)` appends to. -/
def Facade.routedStream (f : Facade γ) (command : γ) : Except String String :=
  match f.commandRouter with
  | some router => f.dispatchStream (router command).1 (router command).2
  | none => .error ("Instructed.dispatch: no command router registered. Call `register(router)` " ++
      "first, or use the explicit `dispatch(aggregateType, id, command, opts?)` overload.")

end Registry

end Instructed
