import Instructed.Aggregate.Serializable
import Instructed.Lib.History

/-!
# Streams as sequential histories

Where commands alone write to a stream, any number of clients leave behind what some sequence of commands
leaves behind, each executed against the fold of all events before it. What such sequences keep, the
streams of an aggregate keep under concurrency.

* `Commanded`: the histories of commands that are executed one after the other;
* `commanded_of_reachable`: **every stream that only commands write to holds such a history**;
* `Commanded.justified`: what `execute` justifies event by event holds of the whole history.
-/

namespace Instructed.Aggregate

open Sql Relational Transition Numbering History

variable {ι δ S C V : Type}

section Commanded

/-- The events of commands, each executed against the fold of the events before it. -/
inductive Commanded (D : Deployment δ S C V) : List (DomainEvent V) → Prop
  | nil : Commanded D []
  | command (i : δ) {h : List (DomainEvent V)} {c : C} {events : List (NewEvent V)} : Commanded D h →
      (D.definition i).execute (h.foldl (D.definition i).apply (D.definition i).initialState) c =
        .ok events → Commanded D (h ++ events.map NewEvent.toDomain)

/-- The stream holds the events of the history, as they are read back. -/
def Holds (D : Deployment δ S C V) (streamUuid : String) (log : List RecordedEvent)
    (h : List (DomainEvent V)) : Prop :=
  (onStream streamUuid log).map (recordedToDomain D.codec) = h.map (readBack D.codec)

/-- Nobody appends to the stream but commands. -/
def OnlyCommands (streamUuid : String) (_ : World ι δ S C V) : Op ι δ C → Prop
  | .append _ a => a.streamUuid ≠ some streamUuid
  | _ => True

instance (streamUuid : String) (w : World ι δ S C V) : ∀ op, Decidable (OnlyCommands streamUuid w op)
  | .append _ a => inferInstanceAs (Decidable (a.streamUuid ≠ some streamUuid))
  | .start .. | .call .. | .fail .. | .deleteSnapshot .. | .recordSnapshot .. =>
    inferInstanceAs (Decidable True)

variable {D : Deployment δ S C V} {streamUuid : String} {log : List RecordedEvent}
  {h : List (DomainEvent V)}

/-- The fold of the stream is that of the history. -/
theorem Holds.foldEvents_eq (hh : Holds D streamUuid log h) (i : δ) :
    foldEvents D.codec (D.definition i) (onStream streamUuid log) =
      h.foldl (D.definition i).apply (D.definition i).initialState := by
  rw [foldEvents, hh, foldl_readBack]

/-- A command appends the events that it was executed to. -/
theorem Commanded.append {run : Run δ C} {loaded : Loaded S} {filled : List (NewEvent V)}
    {now : Timestamp} {ids : ℕ → String} {new : List RecordedEvent} (hs : Commanded D h)
    (hh : Holds D streamUuid log h) (hok : (Pc.append loaded filled).Ok D streamUuid log run)
    (hnew : appendCall now (appendArgs D.codec streamUuid loaded.version ids filled) log = .ok new) :
    ∃ h', Commanded D h' ∧ Holds D streamUuid (log ++ new) h' := by
  obtain ⟨hstate, events, hexec, hdomain⟩ := hok
  obtain ⟨hlen, -, hstream, -, hmap⟩ := append_filled D.codec hnew
  rw [hstate.of_length hlen, Run.def, hh.foldEvents_eq] at hexec
  refine ⟨_, hs.command _ hexec, ?_⟩
  have hself : onStream streamUuid new = new :=
    List.filter_eq_self.mpr fun e he => decide_eq_true (hstream e he)
  rw [Holds, onStream_append, hself, List.map_append, List.map_append, hh, hmap, ← hdomain,
    List.map_map]
  rfl

/-- **A stream that only commands write to holds a sequential history**, for every interleaving of the
    calls of any number of clients. -/
theorem commanded_of_reachable [DecidableEq ι] {w : World ι δ S C V}
    (hw : ReachableWhen (system D streamUuid) (OnlyCommands streamUuid) w) :
    ∃ h, Commanded D h ∧ Holds D streamUuid w.db.store.log h := by
  refine hw.invariant_of_reachable
    (P := fun w => ∃ h, Commanded D h ∧ Holds D streamUuid w.db.store.log h) ?_
    fun s op s' hs ih hC hstep => ?_
  · rintro _ rfl
    exact ⟨[], .nil, rfl⟩
  have hinv := World.Inv.of_reachable hs.reachable
  have hsame : ∀ {v : World ι δ S C V}, v.db.store.log = s.db.store.log →
      ∃ h, Commanded D h ∧ Holds D streamUuid v.db.store.log h := fun heq => heq ▸ ih
  have hnext : ∀ (v : World ι δ S C V) (i : ι) (next : Next δ S C V), (v.next i next).db = v.db := by
    intro v i next
    cases next <;> rfl
  cases op with
  | start i definition command retryBudget causationDefault correlationId withSnapshots =>
    simp only [system, Aggregate.step] at hstep
    split at hstep
    · obtain rfl := Option.some.inj hstep
      exact ih
    · cases hstep
  | call i now ids =>
    simp only [system, Aggregate.step] at hstep
    split at hstep
    · rename_i run pc hi
      obtain rfl := Option.some.inj hstep
      obtain ⟨-, hok, -⟩ := hinv.clients.client i run pc hi
      cases pc with
      | readSnapshot => exact hsame (congrArg (fun db => db.store.log) (hnext ..))
      | readPage loaded => exact hsame (congrArg (fun db => db.store.log) (hnext ..))
      | recordSnapshot rows state version =>
        exact hsame (sameEvents_recordSnapshotCall ..).log
      | append loaded filled =>
        obtain ⟨h, hseq, hholds⟩ := ih
        show ∃ h, Commanded D h ∧ Holds D streamUuid (World.next _ i _).db.store.log h
        rw [hnext]
        show ∃ h, Commanded D h ∧ Holds D streamUuid (s.db.append now _).2.store.log h
        rcases hinv.db.consistent.append_cases now
          (appendArgs D.codec streamUuid loaded.version ids filled) with
          ⟨new, hnew, -, hlog⟩ | ⟨e, -, hlog⟩
        · rw [hlog]
          exact hseq.append hholds hok hnew
        · rw [hlog]
          exact ⟨h, hseq, hholds⟩
    · cases hstep
  | fail i =>
    simp only [system, Aggregate.step] at hstep
    split at hstep
    · rename_i run pc hi
      obtain rfl := Option.some.inj hstep
      have hdb : (s.fail i run pc).db = s.db := by
        cases pc <;> exact hnext ..
      exact hsame (congrArg (fun db => db.store.log) hdb)
    · cases hstep
  | append now a =>
    obtain rfl := Option.some.inj hstep
    obtain ⟨h, hseq, hholds⟩ := ih
    show ∃ h, Commanded D h ∧ Holds D streamUuid (s.db.append now a).2.store.log h
    rcases hinv.db.consistent.append_cases now a with ⟨new, hnew, -, hlog⟩ | ⟨e, -, hlog⟩
    · -- The events are another stream's.
      have hother : onStream streamUuid new = [] := by
        obtain ⟨r, es, hr, -, -, -, rfl⟩ := appendCall_ok hnew
        obtain ⟨hru, -⟩ := validateAppend_ok hr
        refine List.filter_eq_nil_iff.mpr fun e he heq => hC (hru.trans (congrArg some ?_))
        rw [← recordBatch_streamUuid he]
        exact of_decide_eq_true heq
      refine ⟨h, hseq, ?_⟩
      rw [hlog, Holds, onStream_append, hother, List.append_nil]
      exact hholds
    · rw [hlog]
      exact ⟨h, hseq, hholds⟩
  | deleteSnapshot sourceUuid =>
    obtain rfl := Option.some.inj hstep
    exact hsame rfl
  | recordSnapshot now sourceUuid sourceType sourceVersion data metadata =>
    simp only [system, Aggregate.step] at hstep
    split_ifs at hstep
    split at hstep
    · rename_i st hst
      obtain rfl := Option.some.inj hstep
      obtain ⟨u, t, v, d, -, -, -, -, -, rfl⟩ := recordSnapshot_ok hst
      exact hsame (sameEvents_upsertSnapshot ..).log
    · obtain rfl := Option.some.inj hstep
      exact ih

/-- What `execute` justifies event by event holds of the whole history. -/
theorem Commanded.justified {J : List (DomainEvent V) → DomainEvent V → Prop} (hs : Commanded D h)
    (hexec : ∀ i h c events, Justified J h →
      (D.definition i).execute (h.foldl (D.definition i).apply (D.definition i).initialState) c =
        .ok events → Justified (fun before => J (h ++ before)) (events.map NewEvent.toDomain)) :
    Justified J h := by
  induction hs with
  | nil => exact .nil
  | command i _ hcommand ih => exact Justified.append_iff.mpr ⟨ih, hexec i _ _ _ ih hcommand⟩

end Commanded

end Instructed.Aggregate
