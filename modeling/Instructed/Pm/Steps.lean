import Instructed.Pm.Worker
import Instructed.Processing.Invariant

/-!
# The steps of a process manager's handler

* `HandleBy`, `handle_cases`: what one piece of `handle` does;
* `dispatchNext_cases`: how the command loop goes on;
* `complete_of_staged`: the call of `complete` after a state was staged;
* `adapter_untargeted`: the calls of a process manager leave routing alone.
-/

namespace Instructed.Pm

open Sql Relational Transition Routing Processing

section Steps

variable {δ S C : Type} (P : PmDefinition δ S C) {m : Memory δ S} {item : Item} {event : RecordedEvent}
  {pc : Pc S C} {x : Input (PmInput C)} {st : Store}
  {r : HandlerStep (Pc S C) (Memory δ S) (PmAct S C)}

/-- What one piece of `handle` does. -/
inductive HandleBy (m : Memory δ S) (item : Item) (event : RecordedEvent) (st : Store) :
    Pc S C → HandlerStep (Pc S C) (Memory δ S) (PmAct S C) → Prop
  /-- There is no snapshot that can be used. -/
  | missed : HandleBy m item event st .readSnapshot ⟨m, .running .rebuild, []⟩
  | loaded {snap : SnapshotRow} :
      readSnapshot (some (P.sourceUuid item.partitionKey)) st = .ok snap →
      P.matchesSnapshot m.version snap = true →
      HandleBy m item event st .readSnapshot
        ⟨m, .running (.handle (P.apply m.version (P.jsonToState snap.data) event)), []⟩
  | rebuilt {events : List RecordedEvent} :
      listPmRebuildEvents (some P.stream) (some P.type) (some item.partitionKey)
        (some item.eventNumber) st = .ok events →
      HandleBy m item event st .rebuild ⟨m, .running (.handle (P.apply m.version
        (events.foldl (P.apply m.version) (P.initialState m.version)) event)), []⟩
  /-- A read, or the user's `handle`, throws. -/
  | threw {pc : Pc S C} : (∀ s b c cs, pc ≠ .dispatch s b c cs) →
      HandleBy m item event st pc ⟨m, .threw, []⟩
  | handled {stagedState : S} {commands : List (DispatchedCommand C)} {complete : Bool} :
      HandleBy m item event st (.handle stagedState) (dispatchNext P m item stagedState complete
        [.handled stagedState commands complete] commands)
  | waiting {stagedState : S} {complete : Bool} {command : DispatchedCommand C}
      {rest : List (DispatchedCommand C)} :
      HandleBy m item event st (.dispatch stagedState complete command rest)
        ⟨m, .running (.dispatch stagedState complete command rest), []⟩
  | failed {stagedState : S} {complete : Bool} {command : DispatchedCommand C}
      {rest : List (DispatchedCommand C)} :
      HandleBy m item event st (.dispatch stagedState complete command rest)
        ⟨m, .threw, [.dispatched command .threw]⟩
  | dispatched {stagedState : S} {complete : Bool} {command : DispatchedCommand C}
      {rest : List (DispatchedCommand C)} {outcome : Aggregate.Outcome} : outcome ≠ .threw →
      outcomeAllowed st outcome = true →
      HandleBy m item event st (.dispatch stagedState complete command rest)
        (dispatchNext P m item stagedState complete [.dispatched command outcome] rest)

variable {P}

theorem handle_cases (h : handle P m item event pc x st = r) : HandleBy P m item event st pc r := by
  subst h
  unfold handle
  dsimp only
  cases pc with
  | readSnapshot =>
    have hthrew : HandleBy P m item event st .readSnapshot ⟨m, .threw, []⟩ :=
      .threw fun _ _ _ _ h => by cases h
    dsimp only
    split
    · rename_i snap hreply
      split_ifs with hmatches
      · exact .loaded (Delivery.reply_ok hreply).2 hmatches
      · exact .missed
    · split_ifs
      · exact .missed
      · exact hthrew
    · exact hthrew
  | rebuild =>
    dsimp only
    split
    · rename_i events hreply
      exact .rebuilt (Delivery.reply_ok hreply).2
    · exact .threw fun _ _ _ _ h => by cases h
  | handle stagedState =>
    dsimp only
    split
    · exact .threw fun _ _ _ _ h => by cases h
    · exact .handled
  | dispatch stagedState complete command rest =>
    dsimp only
    split_ifs with hallowed
    · split
      · exact .failed
      · rename_i outcome hne
        exact .dispatched hne hallowed
    · exact .waiting

/-- How the command loop goes on. -/
theorem dispatchNext_cases (m : Memory δ S) (item : Item) (stagedState : S) (complete : Bool)
    (acts : List (PmAct S C)) (commands : List (DispatchedCommand C)) :
    (commands = [] ∧ ∃ staged, staged (stagedKey item) =
        some ⟨P.sourceUuid item.partitionKey, stagedState, complete⟩ ∧
      dispatchNext P m item stagedState complete acts commands =
        ⟨⟨m.version, staged⟩, .returned, acts⟩) ∨
    ∃ command rest, commands = command :: rest ∧
      ((P.resolveDispatch m.version command = none ∧
        dispatchNext P m item stagedState complete acts commands = ⟨m, .threw, acts⟩) ∨
      ∃ streamUuid, P.resolveDispatch m.version command = some streamUuid ∧
        dispatchNext P m item stagedState complete acts commands =
          ⟨m, .running (.dispatch stagedState complete command rest),
            acts ++ [.dispatch command streamUuid]⟩) := by
  cases commands with
  | nil => exact Or.inl ⟨rfl, _, Function.update_self .., rfl⟩
  | cons command rest =>
    right
    refine ⟨command, rest, rfl, ?_⟩
    cases hresolve : P.resolveDispatch m.version command with
    | none => exact Or.inl ⟨rfl, by rw [dispatchNext, hresolve]⟩
    | some streamUuid => exact Or.inr ⟨streamUuid, rfl, by rw [dispatchNext, hresolve]⟩

/-- The call of `complete` writes the staged state. -/
theorem complete_of_staged (id : String) (event : RecordedEvent) {entry : StagedWork S}
    (h : m.staged (stagedKey item) = some entry) : ∃ staged,
      complete P id m item event =
        (⟨m.version, staged⟩, some (completeCall P id m.version item event entry)) := by
  unfold complete
  rw [h]
  exact ⟨_, rfl⟩

/-- A handler that returns has staged a state. -/
theorem HandleBy.staged (h : HandleBy P m item event st pc r) (hran : r.ran = .returned) :
    ∃ entry, r.memory.staged (stagedKey item) = some entry := by
  have hnext : ∀ s b acts cs, (dispatchNext P m item s b acts cs).ran = .returned →
      ∃ entry, (dispatchNext P m item s b acts cs).memory.staged (stagedKey item) = some entry := by
    intro s b acts cs hran
    rcases dispatchNext_cases (P := P) m item s b acts cs with ⟨-, staged, hstaged, heq⟩ |
      ⟨_, _, -, ⟨-, heq⟩ | ⟨_, -, heq⟩⟩ <;> rw [heq] at hran ⊢
    · exact ⟨_, hstaged⟩
    · cases hran
    · cases hran
  cases h with
  | handled => exact hnext _ _ _ _ hran
  | dispatched _ _ => exact hnext _ _ _ _ hran
  | _ => cases hran

/-- A worker keeps its version. -/
theorem HandleBy.version_eq (h : HandleBy P m item event st pc r) : r.memory.version = m.version := by
  have hnext : ∀ s b acts cs, (dispatchNext P m item s b acts cs).memory.version = m.version := by
    intro s b acts cs
    rcases dispatchNext_cases (P := P) m item s b acts cs with ⟨-, staged, -, heq⟩ |
      ⟨_, _, -, ⟨-, heq⟩ | ⟨_, -, heq⟩⟩ <;> rw [heq]
  cases h with
  | handled => exact hnext ..
  | dispatched _ _ => exact hnext ..
  | _ => rfl

theorem complete_ok {id : String} {m m' : Memory δ S} {call : Timestamp → Queue.Call}
    (h : complete P id m item event = (m', some call)) : ∃ entry,
      m.staged (stagedKey item) = some entry ∧ call = completeCall P id m.version item event entry := by
  unfold complete at h
  split at h
  · cases h
  · rename_i entry hentry
    cases h
    exact ⟨entry, hentry, rfl⟩

theorem completeCall_target (id : String) (v : δ) (item : Item) (event : RecordedEvent)
    (entry : StagedWork S) (now : Timestamp) (st : Store) :
    (completeCall P id v item event entry now).target st = none := by
  unfold completeCall
  split_ifs <;> rfl

/-- **The calls of a process manager leave routing alone.** -/
theorem adapter_untargeted (keys : String → Bool) : (adapter P keys).Untargeted := by
  intro id m item e m' call hcomplete now st
  obtain ⟨entry, -, rfl⟩ := complete_ok hcomplete
  exact completeCall_target ..

theorem complete_version_eq (id : String) (m : Memory δ S) (item : Item) (event : RecordedEvent) :
    (complete P id m item event).1.version = m.version := by
  unfold complete
  split <;> rfl

end Steps

end Instructed.Pm
