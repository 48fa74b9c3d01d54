import Instructed.Aggregate.RunCommand

/-!
# Commands on one stream are serializable

Loading an aggregate is a series of calls between which other clients append and write snapshots.
The loaded state is nevertheless always the fold of a prefix of the stream (`StateAt`), because a
stream only grows at its end and every stored snapshot is such a fold. The append at the exact
version then finds that this prefix is the whole stream.

* `StateAt`: a state is the fold of the first events of the stream;
* `Next.Ok`, one lemma for each call of a client: what its code decides from a good state is good;
* `World.Inv`: the invariant, kept by every step (`World.Inv.step`);
* `commands_serializable`: **every reachable world is serializable**.
-/

namespace Instructed.Aggregate

open Sql Relational Transition Numbering Sequential

variable {ι δ S C V : Type}

/-! ## Folding a stream -/

/-- The left fold of `apply` over recorded events, from `initialState`. -/
def foldEvents (codec : Codec S V) (d : AggregateDefinition S C V) (events : List RecordedEvent) :
    S :=
  (events.map (recordedToDomain codec)).foldl d.apply d.initialState

theorem foldEvents_append (codec : Codec S V) (d : AggregateDefinition S C V)
    (xs ys : List RecordedEvent) : foldEvents codec d (xs ++ ys) =
      (ys.map (recordedToDomain codec)).foldl d.apply (foldEvents codec d xs) := by
  rw [foldEvents, List.map_append, List.foldl_append]
  rfl

/-- The loop over a page of consecutive rows. -/
theorem foldPage_eq (codec : Codec S V) (d : AggregateDefinition S C V) {page : List RecordedEvent}
    {loaded : Loaded S} (h : Consecutive (·.streamVersion) (loaded.version + 1) page) :
    (foldPage d codec loaded page).version = loaded.version + page.length ∧
      (foldPage d codec loaded page).state =
        (page.map (recordedToDomain codec)).foldl d.apply loaded.state := by
  induction page generalizing loaded with
  | nil => exact ⟨rfl, rfl⟩
  | cons row page ih =>
    obtain ⟨hrow, h⟩ := Consecutive.cons_iff.mp h
    have hv : row.streamVersion = loaded.version + 1 := hrow
    obtain ⟨hver, hstate⟩ := @ih ⟨d.apply loaded.state (recordedToDomain codec row),
      row.streamVersion, loaded.eventsSinceSnapshot + 1⟩ (hv ▸ h)
    refine ⟨?_, hstate⟩
    show (foldPage d codec _ page).version = _
    rw [hver, List.length_cons]
    show row.streamVersion + page.length = _
    omega

section StateAt

variable (D : Deployment δ S C V) (streamUuid : String)

/-- `state` is the fold of the first `version` events of the stream. -/
structure StateAt (d : AggregateDefinition S C V) (log : List RecordedEvent) (state : S)
    (version : ℕ) : Prop where
  version_le : version ≤ (onStream streamUuid log).length
  state_eq : state = foldEvents D.codec d ((onStream streamUuid log).take version)

variable {D streamUuid} {d : AggregateDefinition S C V} {log log' : List RecordedEvent} {state : S}
  {version : ℕ}

theorem StateAt.initial : StateAt D streamUuid d log d.initialState 0 := ⟨Nat.zero_le _, rfl⟩

/-- A stream only grows at its end. -/
theorem StateAt.mono (h : StateAt D streamUuid d log state version) (hpre : log <+: log') :
    StateAt D streamUuid d log' state version := by
  obtain ⟨new, rfl⟩ := hpre
  refine ⟨?_, ?_⟩
  · rw [onStream_append, List.length_append]
    exact Nat.le_add_right_of_le h.version_le
  · rw [onStream_append, List.take_append_of_le_length h.version_le]
    exact h.state_eq

/-- At the stream's length the state is the fold of all its events. -/
theorem StateAt.of_length (h : StateAt D streamUuid d log state version)
    (hlen : (onStream streamUuid log).length = version) :
    state = foldEvents D.codec d (onStream streamUuid log) := by
  rw [h.state_eq, ← hlen, List.take_length]

/-- Folding the next events of the stream. -/
theorem StateAt.foldPage {loaded : Loaded S} (hn : Numbered log)
    (h : StateAt D streamUuid d log loaded.state loaded.version) (qty : ℕ) :
    StateAt D streamUuid d log
      (foldPage d D.codec loaded (((onStream streamUuid log).drop loaded.version).take qty)).state
      (foldPage d D.codec loaded
        (((onStream streamUuid log).drop loaded.version).take qty)).version := by
  have hnum := ((hn.streamVersion streamUuid).drop h.version_le).take qty
  rw [Nat.add_comm] at hnum
  obtain ⟨hver, hstate⟩ := foldPage_eq D.codec d hnum
  rw [hver, hstate]
  have hpage := List.prefix_iff_eq_take.mp
    (List.take_prefix qty ((onStream streamUuid log).drop loaded.version))
  refine ⟨?_, ?_⟩
  · have hle := h.version_le
    rw [List.length_take, List.length_drop]
    omega
  · rw [List.take_add, foldEvents_append, ← h.state_eq, ← hpage]

/-- Definitions with the same module version tag fold alike. -/
theorem StateAt.of_module_eq {i j : δ} (hij : (D.definition i).snapshotModuleVersion =
      (D.definition j).snapshotModuleVersion)
    (h : StateAt D streamUuid (D.definition i) log state version) :
    StateAt D streamUuid (D.definition j) log state version := by
  obtain ⟨hinit, happly⟩ := D.module_eq i j hij
  refine ⟨h.version_le, h.state_eq.trans ?_⟩
  rw [foldEvents, foldEvents, hinit, happly]

/-- `apply` does not tell an event in memory from the same event read back. -/
theorem foldl_readBack (i : δ) (events : List (DomainEvent V)) (s : S) :
    (events.map (readBack D.codec)).foldl (D.definition i).apply s =
      events.foldl (D.definition i).apply s := by
  rw [List.foldl_map]
  exact congrArg (fun f => events.foldl f s)
    (funext fun s => funext fun e => D.apply_readBack i s e)

end StateAt

/-! ## The append of a command -/

section Append

variable (codec : Codec S V)

@[simp] theorem packEvent_eventType (id : String) (e : NewEvent V) :
    (packEvent codec id e).getText? "event_type" = some e.type := by
  simp [packEvent, Json.getText?, Json.get?]

@[simp] theorem packEvent_data (id : String) (e : NewEvent V) :
    (packEvent codec id e).get? "data" = some (codec.stringify e.data) := by
  simp [packEvent, Json.get?]

@[simp] theorem packEvent_metadata (id : String) (e : NewEvent V) :
    (packEvent codec id e).get? "metadata" = e.metadata.map codec.stringify := by
  obtain ⟨_, _, _, metadata, causation, correlation⟩ := e
  cases metadata <;> cases causation <;> cases correlation <;>
    simp [packEvent, Json.get?, optionalField]

@[simp] theorem fillEvent_toDomain (causationDefault : String) (correlationId : Option String)
    (e : NewEvent V) : (fillEvent causationDefault correlationId e).toDomain = e.toDomain := rfl

/-- What a successful append of packed events adds to the log, at whatever expected version. -/
theorem append_packed {a : AppendArgs} {u : String} {ids : ℕ → String} {filled : List (NewEvent V)}
    {now : Timestamp} {log new : List RecordedEvent} (hu : a.streamUuid = some u)
    (hevents : a.events = some (.arr (filled.zipIdx.map fun e => packEvent codec (ids e.2) e.1)))
    (h : appendCall now a log = .ok new) :
    new ≠ [] ∧ (∀ e ∈ new, e.streamUuid = u) ∧
      Consecutive (·.streamVersion) ((onStream u log).length + 1) new ∧
      new.map (recordedToDomain codec) = filled.map fun e => readBack codec e.toDomain := by
  obtain ⟨r, es, hr, -, hes, -, rfl⟩ := appendCall_ok h
  obtain ⟨hru, -, hne, hrev⟩ := validateAppend_ok hr
  obtain rfl := Option.some.inj (hru.symm.trans hu)
  have hpacked : r.events = filled.zipIdx.map fun e => packEvent codec (ids e.2) e.1 :=
    Json.arr.inj (Option.some.inj ((eventsOf_ok hrev).symm.trans hevents))
  refine ⟨?_, fun e he => recordBatch_streamUuid he, recordBatch_streamVersion, ?_⟩
  · apply List.ne_nil_of_length_pos
    rw [recordBatch_length, newEvents_length hes]
    exact r.n_pos
  · have hcols := congrArg (List.map fun c : Option String × Json × Option Json =>
      (⟨c.1.getD "", codec.parse (some c.2.1), some (codec.parse c.2.2)⟩ : DomainEvent V))
      (newEvents_columns hes)
    rw [List.map_map, hpacked, List.map_map, List.map_map] at hcols
    rw [map_recordBatch_of_event (g := fun e => (⟨e.eventType, codec.parse (some e.data),
      some (codec.parse e.metadata)⟩ : DomainEvent V)) fun _ _ _ _ => rfl]
    refine hcols.trans ?_
    conv_rhs => rw [← List.zipIdx_map_fst 0 filled, List.map_map]
    refine List.map_congr_left fun e _ => ?_
    simp [readBack, NewEvent.toDomain]

/-- An append at an exact version finds the stream at that version. -/
theorem append_exact {a : AppendArgs} {u : String} {v : ℕ} {now : Timestamp}
    {log new : List RecordedEvent} (hu : a.streamUuid = some u)
    (hexp : expectedVersionOf a.expectedVersionType a.expectedVersion = .ok (.exact v))
    (h : appendCall now a log = .ok new) : (onStream u log).length = v := by
  obtain ⟨r, es, hr, hcheck, -, -, -⟩ := appendCall_ok h
  obtain ⟨hru, hrexp, -⟩ := validateAppend_ok hr
  obtain rfl := Option.some.inj (hru.symm.trans hu)
  obtain hexact := Except.ok.inj (hrexp.symm.trans hexp)
  rw [hexact] at hcheck
  rcases checkExpected_exact_iff log r.streamUuid v with ⟨-, hlen⟩ | ⟨e, he, -, -⟩
  · exact hlen
  · rw [he] at hcheck
    cases hcheck

/-- What a successful append of a command adds to the log. -/
theorem append_filled {u : String} {v : ℕ} {ids : ℕ → String} {filled : List (NewEvent V)}
    {now : Timestamp} {log new : List RecordedEvent}
    (h : appendCall now (appendArgs codec u v ids filled) log = .ok new) :
    (onStream u log).length = v ∧ new ≠ [] ∧ (∀ e ∈ new, e.streamUuid = u) ∧
      Consecutive (·.streamVersion) (v + 1) new ∧
      new.map (recordedToDomain codec) = filled.map fun e => readBack codec e.toDomain := by
  have hlen : (onStream u log).length = v :=
    append_exact rfl (by simp [appendArgs, expectedVersionOf]) h
  exact ⟨hlen, hlen ▸ append_packed codec rfl rfl h⟩

end Append

/-! ## The invariant -/

variable {D : Deployment δ S C V} {streamUuid : String}

section Invariant

variable (D streamUuid)

/-- How a successful append of a command lies in the log: `mid` are its events, `pre` is the log
    before them. -/
structure Executed (log : List RecordedEvent) (run : Run δ C) (state : S) (rows : List AppendedRow)
    (pre mid : List RecordedEvent) : Prop where
  stored : pre ++ mid <+: log
  rows_eq : mid.map RecordedEvent.toAppendedRow = rows
  nonempty : mid ≠ []
  stream : ∀ e ∈ mid, e.streamUuid = streamUuid
  contiguous : Consecutive (·.streamVersion) ((onStream streamUuid pre).length + 1) mid
  state_eq : state = foldEvents D.codec (run.def D) (onStream streamUuid pre)
  events : ∃ events, (run.def D).execute state run.command = .ok events ∧
    mid.map (recordedToDomain D.codec) = events.map fun e => readBack D.codec e.toDomain

/-- The appends of the command number `n`. -/
def World.writesOf (w : World ι δ S C V) (n : ℕ) : List (Write δ S C) :=
  w.writes.filter fun wr => wr.author.any fun a => a.1.number = n

/-- `ws` are the appends of a command whose next call is `pc`. -/
def Pc.Wrote (run : Run δ C) (ws : List (Write δ S C)) : Pc S V → Prop
  | .recordSnapshot rows _ _ => ∃ state, ws = [⟨some (run, state), rows⟩]
  | _ => ws = []

/-- `ws` are the appends of a command that ended so. -/
def Outcome.Wrote (run : Run δ C) (ws : List (Write δ S C)) : Outcome → Prop
  | .appended rows => ∃ state, ws = [⟨some (run, state), rows⟩]
  | .noOp | .threw => ws = []

/-- What a client holds between two calls. -/
def Pc.Ok (log : List RecordedEvent) (run : Run δ C) : Pc S V → Prop
  | .readSnapshot => True
  | .readPage loaded => StateAt D streamUuid (run.def D) log loaded.state loaded.version
  | .append loaded filled =>
    StateAt D streamUuid (run.def D) log loaded.state loaded.version ∧
      ∃ events, (run.def D).execute loaded.state run.command = .ok events ∧
        filled.map NewEvent.toDomain = events.map NewEvent.toDomain
  | .recordSnapshot _ state version => StateAt D streamUuid (run.def D) log state version

/-- What a client decides between two calls, when `ws` are the appends of its command `n`. -/
def Next.Ok (log : List RecordedEvent) (n : ℕ) (ws : List (Write δ S C)) : Next δ S C V → Prop
  | .call run pc => run.number = n ∧ pc.Ok D streamUuid log run ∧ pc.Wrote run ws
  | .finish run outcome => run.number = n ∧ outcome.Wrote run ws

/-- A stored snapshot is a state of the stream, for every definition that would use it. -/
def SnapshotOk (st : Store) : Prop :=
  ∀ row, st.snapshots.find? streamUuid = some row → ∀ i,
    readVersion row.metadata = (D.definition i).snapshotModuleVersion →
      StateAt D streamUuid (D.definition i) st.log (D.codec.jsonToState row.data) row.sourceVersion

/-- The database and the record of the appends. -/
structure World.DbInv (w : World ι δ S C V) : Prop where
  consistent : w.db.Consistent
  stored : w.db.store.log.map RecordedEvent.toAppendedRow = w.writes.flatMap (·.rows)
  snapshot : SnapshotOk D streamUuid w.db.store
  author : ∀ wr ∈ w.writes, ∀ run state, wr.author = some (run, state) → run.number < w.started ∧
    ∃ pre mid, Executed D streamUuid w.db.store.log run state wr.rows pre mid

/-- The clients and the commands that have ended. -/
structure World.ClientInv (w : World ι δ S C V) : Prop where
  client : ∀ i run pc, w.client i = some (run, pc) → run.number < w.started ∧
    pc.Ok D streamUuid w.db.store.log run ∧ pc.Wrote run (w.writesOf run.number)
  distinct : ∀ i j run run' pc pc', w.client i = some (run, pc) → w.client j = some (run', pc') →
    run.number = run'.number → i = j
  finished : ∀ run outcome, (run, outcome) ∈ w.finished → run.number < w.started ∧
    outcome.Wrote run (w.writesOf run.number) ∧
      ∀ i run' pc, w.client i = some (run', pc) → run'.number ≠ run.number

structure World.Inv (w : World ι δ S C V) : Prop where
  db : w.DbInv D streamUuid
  clients : w.ClientInv D streamUuid

end Invariant

theorem Pc.Ok.mono {log log' : List RecordedEvent} {run : Run δ C} {pc : Pc S V}
    (h : pc.Ok D streamUuid log run) (hpre : log <+: log') : pc.Ok D streamUuid log' run := by
  cases pc with
  | readSnapshot => trivial
  | readPage loaded => exact StateAt.mono h hpre
  | append loaded filled => exact ⟨h.1.mono hpre, h.2⟩
  | recordSnapshot rows state version => exact StateAt.mono h hpre

theorem Executed.mono {log log' : List RecordedEvent} {run : Run δ C} {state : S}
    {rows : List AppendedRow} {pre mid : List RecordedEvent}
    (h : Executed D streamUuid log run state rows pre mid) (hpre : log <+: log') :
    Executed D streamUuid log' run state rows pre mid :=
  { h with stored := h.stored.trans hpre }

theorem SnapshotOk.of_eq {st st' : Store} (h : SnapshotOk D streamUuid st)
    (hsnap : st'.snapshots.find? streamUuid = st.snapshots.find? streamUuid)
    (hpre : st.log <+: st'.log) : SnapshotOk D streamUuid st' := by
  intro row hrow i hi
  exact (h row (hsnap ▸ hrow) i hi).mono hpre

/-! ## What a client decides -/

section Calls

variable {log : List RecordedEvent} {run : Run δ C} {ws : List (Write δ S C)} {loaded : Loaded S}

theorem retry_ok (run : Run δ C) :
    (retry run : Next δ S C V).Ok D streamUuid log run.number [] := by
  unfold retry
  split_ifs
  · exact ⟨rfl, rfl⟩
  · exact ⟨rfl, trivial, rfl⟩

theorem afterLoad_ok (h : StateAt D streamUuid (run.def D) log loaded.state loaded.version) :
    (afterLoad D run loaded).Ok D streamUuid log run.number [] := by
  unfold afterLoad
  cases hexec : (run.def D).execute loaded.state run.command with
  | error t =>
    cases t with
    | wrongExpectedVersion => exact retry_ok run
    | other message => exact ⟨rfl, rfl⟩
  | ok events =>
    cases events with
    | nil => exact ⟨rfl, rfl⟩
    | cons e es =>
      refine ⟨rfl, ⟨h, e :: es, hexec, ?_⟩, rfl⟩
      rw [List.map_map]
      exact List.map_congr_left fun x _ => fillEvent_toDomain ..

theorem readSnapshotCall_ok (run : Run δ C) {st : Store} (hs : SnapshotOk D streamUuid st) :
    (readSnapshotCall D streamUuid run st).Ok D streamUuid st.log run.number [] := by
  unfold readSnapshotCall Instructed.readSnapshot
  dsimp only
  cases hfind : st.snapshots.find? streamUuid with
  | none => exact ⟨rfl, StateAt.initial, rfl⟩
  | some row =>
    dsimp only
    split_ifs with hv
    · exact ⟨rfl, hs row hfind run.definition hv, rfl⟩
    · exact ⟨rfl, StateAt.initial, rfl⟩

theorem readPageCall_ok {st : Store} (hc : st.Consistent)
    (h : StateAt D streamUuid (run.def D) st.log loaded.state loaded.version) :
    (readPageCall D streamUuid run loaded st).Ok D streamUuid st.log run.number [] := by
  unfold readPageCall
  by_cases hu : streamUuid = "$all"
  · simp [readStream, hu, raise, Next.Ok, Outcome.Wrote]
  rw [readStream_eq hc hu (show 0 < loadPageSize from Nat.succ_pos _)]
  split_ifs with hnil
  · simp only [raise]
    split_ifs
    · exact afterLoad_ok h
    · exact ⟨rfl, rfl⟩
  · have hpage := h.foldPage hc.log_numbered loadPageSize
    dsimp only
    rw [Nat.add_sub_cancel]
    split_ifs
    · exact afterLoad_ok hpage
    · exact ⟨rfl, hpage, rfl⟩

/-- After a successful append the new events complete the state that was loaded. -/
theorem StateAt.appended {filled : List (NewEvent V)} {new : List RecordedEvent}
    (h : StateAt D streamUuid (run.def D) log loaded.state loaded.version)
    (hlen : (onStream streamUuid log).length = loaded.version)
    (hstream : ∀ e ∈ new, e.streamUuid = streamUuid)
    (hmap : new.map (recordedToDomain D.codec) = filled.map fun e => readBack D.codec e.toDomain) :
    StateAt D streamUuid (run.def D) (log ++ new)
      ((filled.map NewEvent.toDomain).foldl (run.def D).apply loaded.state)
      (loaded.version + new.length) := by
  have hself : onStream streamUuid new = new :=
    List.filter_eq_self.mpr fun e he => by simpa using hstream e he
  refine ⟨?_, ?_⟩
  · rw [onStream_append, hself, List.length_append, hlen]
  · rw [onStream_append, hself, ← hlen, ← List.length_append, List.take_length, foldEvents_append,
      ← h.of_length hlen, hmap]
    have hread := foldl_readBack (D := D) run.definition (filled.map NewEvent.toDomain) loaded.state
    rw [List.map_map] at hread
    exact hread.symm

theorem afterAppend_ok {filled : List (NewEvent V)} {new : List RecordedEvent}
    (h : StateAt D streamUuid (run.def D) (log ++ new)
      ((filled.map NewEvent.toDomain).foldl (run.def D).apply loaded.state)
      (loaded.version + new.length))
    (hne : new ≠ []) (hver : Consecutive (·.streamVersion) (loaded.version + 1) new) (state : S) :
    (afterAppend D run loaded filled (new.map RecordedEvent.toAppendedRow)).Ok D streamUuid
      (log ++ new) run.number [⟨some (run, state), new.map RecordedEvent.toAppendedRow⟩] := by
  have hlast : (((new.map RecordedEvent.toAppendedRow).getLast?.map (·.streamVersion)).getD
      loaded.version) = loaded.version + new.length := by
    have hl := hver.getLast?_pos hne
    rw [List.getLast?_map, Option.map_map]
    show (new.getLast?.map (·.streamVersion)).getD _ = _
    rw [hl, Option.getD_some]
  unfold afterAppend
  dsimp only
  rw [hlast]
  split
  · split_ifs
    · exact ⟨rfl, h, state, rfl⟩
    · exact ⟨rfl, state, rfl⟩
  · exact ⟨rfl, state, rfl⟩

theorem afterAppendError_ok (run : Run δ C) (e : SqlError) :
    (afterAppendError run e : Next δ S C V).Ok D streamUuid log run.number [] := by
  unfold afterAppendError
  split_ifs
  · exact retry_ok run
  · exact ⟨rfl, rfl⟩

/-! ### The snapshot write -/

@[simp] theorem readVersion_stampVersion (v : Option String) : readVersion (stampVersion v) = v := by
  cases v with
  | none => rfl
  | some v => simp [readVersion, stampVersion, Json.get?]

theorem sameEvents_upsertSnapshot (now : Timestamp) (u t : String) (v : ℕ) (data : Json)
    (metadata : Option Json) (st : Store) : st.SameEvents (upsertSnapshot now u t v data metadata st) :=
  ⟨rfl, rfl, rfl⟩

theorem sameEvents_recordSnapshotCall (now : Timestamp) (run : Run δ C) (state : S) (version : ℕ)
    (st : Store) : st.SameEvents (recordSnapshotCall D streamUuid now run state version st) := by
  unfold recordSnapshotCall
  split
  · rename_i st' hst
    obtain ⟨u, t, v, d, -, -, -, -, -, rfl⟩ := recordSnapshot_ok hst
    exact sameEvents_upsertSnapshot ..
  · exact ⟨rfl, rfl, rfl⟩

theorem recordSnapshotCall_ok {now : Timestamp} {state : S} {version : ℕ} {st : Store}
    (hs : SnapshotOk D streamUuid st)
    (h : StateAt D streamUuid (run.def D) st.log state version) :
    SnapshotOk D streamUuid (recordSnapshotCall D streamUuid now run state version st) := by
  have hsame : st.SameEvents (recordSnapshotCall D streamUuid now run state version st) :=
    sameEvents_recordSnapshotCall now run state version st
  have hlog := hsame.log
  unfold SnapshotOk
  rw [hlog]
  unfold recordSnapshotCall
  split
  · rename_i st' hst
    obtain ⟨u, t, v, d, hu, ht, hv, -, hd, rfl⟩ := recordSnapshot_ok hst
    cases hu
    cases hv
    cases hd
    intro row hrow i hi
    simp only [upsertSnapshot, Table.find?_put, if_true, Option.some.injEq] at hrow
    subst hrow
    rw [readVersion_stampVersion] at hi
    rw [D.state_roundTrip, Int.toNat_natCast]
    exact h.of_module_eq hi
  · exact hs

end Calls

/-! ## The steps -/

section Step

variable {w w' : World ι δ S C V} {i : ι} {run : Run δ C} {pc : Pc S V}

/-- Only the database and the record of the appends have changed, and the log has grown. -/
structure World.SameClients (w w' : World ι δ S C V) : Prop where
  client : w'.client = w.client
  started : w'.started = w.started
  finished : w'.finished = w.finished
  log : w.db.store.log <+: w'.db.store.log

theorem World.ClientInv.env (h : w.ClientInv D streamUuid) (hsame : w.SameClients w')
    (hwr : ∀ n, w'.writesOf n = w.writesOf n) : w'.ClientInv D streamUuid := by
  refine ⟨?_, ?_, ?_⟩
  · intro j r p hj
    obtain ⟨hlt, hok, hwrote⟩ := h.client j r p (hsame.client ▸ hj)
    exact ⟨hsame.started ▸ hlt, hok.mono hsame.log, hwr _ ▸ hwrote⟩
  · rw [hsame.client]
    exact h.distinct
  · intro r o hr
    obtain ⟨hlt, hwrote, hne⟩ := h.finished r o (hsame.finished ▸ hr)
    exact ⟨hsame.started ▸ hlt, hwr _ ▸ hwrote, hsame.client ▸ hne⟩

theorem World.DbInv.setStore (h : w.DbInv D streamUuid) {st : Store}
    (hsame : w.db.store.SameEvents st) (hs : SnapshotOk D streamUuid st) :
    (w.setStore st).DbInv D streamUuid := by
  refine ⟨⟨hsame.consistent h.consistent.store, h.consistent.seq_pos, ?_⟩, ?_, hs, ?_⟩
  · intro r hr
    exact h.consistent.seq r (hsame.streams ▸ hr)
  · show st.log.map _ = _
    rw [hsame.log]
    exact h.stored
  · intro wr hwr r s hr
    obtain ⟨hlt, pre, mid, hex⟩ := h.author wr hwr r s hr
    refine ⟨hlt, pre, mid, ?_⟩
    show Executed D streamUuid st.log r s wr.rows pre mid
    rw [hsame.log]
    exact hex

theorem World.sameClients_setStore (w : World ι δ S C V) {st : Store}
    (hsame : w.db.store.SameEvents st) : w.SameClients (w.setStore st) :=
  ⟨rfl, rfl, rfl, by
    show w.db.store.log <+: st.log
    rw [hsame.log]⟩

/-- An append, when the author's events are where its state says. -/
theorem World.DbInv.append (h : w.DbInv D streamUuid) (author : Option (Run δ C × S))
    (now : Timestamp) (a : AppendArgs)
    (hauthor : ∀ run state, author = some (run, state) → run.number < w.started ∧
      ∀ new, appendCall now a w.db.store.log = .ok new →
        Executed D streamUuid (w.db.store.log ++ new) run state
          (new.map RecordedEvent.toAppendedRow) w.db.store.log new) :
    (w.append author now a).DbInv D streamUuid := by
  have hsnap := (h.consistent.append_refines (now, a)).2.2.1
  have hsnap' : (w.db.append now a).2.store.snapshots = w.db.store.snapshots := hsnap
  rcases h.consistent.append_cases now a with ⟨new, hcall, hok, hlog⟩ | ⟨e, herr, hlog⟩
  · have hpre : w.db.store.log <+: (w.db.append now a).2.store.log :=
      hlog ▸ List.prefix_append ..
    refine ⟨h.consistent.append now a, ?_, ?_, ?_⟩
    · simp only [World.append, hok, hlog, List.map_append, h.stored, List.flatMap_append,
        List.flatMap_cons, List.flatMap_nil, List.append_nil]
    · exact h.snapshot.of_eq (by rw [World.append, hsnap']) hpre
    · intro wr hwr run state hrun
      simp only [World.append, hok] at hwr
      rcases List.mem_append.mp hwr with hwr | hwr
      · obtain ⟨hlt, pre, mid, hex⟩ := h.author wr hwr run state hrun
        exact ⟨hlt, pre, mid, hex.mono hpre⟩
      · obtain rfl := List.mem_singleton.mp hwr
        obtain ⟨hlt, hex⟩ := hauthor run state hrun
        refine ⟨hlt, w.db.store.log, new, ?_⟩
        show Executed D streamUuid (w.db.append now a).2.store.log _ _ _ _ _
        rw [hlog]
        exact hex new hcall
  · refine ⟨h.consistent.append now a, ?_, ?_, ?_⟩
    · simp only [World.append, herr, hlog, h.stored]
    · exact h.snapshot.of_eq (by rw [World.append, hsnap']) (hlog ▸ List.prefix_rfl)
    · intro wr hwr run state hrun
      simp only [World.append, herr] at hwr
      obtain ⟨hlt, pre, mid, hex⟩ := h.author wr hwr run state hrun
      refine ⟨hlt, pre, mid, ?_⟩
      show Executed D streamUuid (w.db.append now a).2.store.log _ _ _ _ _
      rw [hlog]
      exact hex

theorem World.sameClients_append (hc : w.db.Consistent) (author : Option (Run δ C × S))
    (now : Timestamp) (a : AppendArgs) : w.SameClients (w.append author now a) := by
  refine ⟨rfl, rfl, rfl, ?_⟩
  show w.db.store.log <+: (w.db.append now a).2.store.log
  rcases hc.append_cases now a with ⟨new, -, -, hlog⟩ | ⟨e, -, hlog⟩
  · exact hlog ▸ List.prefix_append ..
  · exact hlog ▸ List.prefix_rfl

theorem World.writesOf_append (n : ℕ) (author : Option (Run δ C × S)) (now : Timestamp)
    (a : AppendArgs) : (w.append author now a).writesOf n = w.writesOf n ++
      match (w.db.append now a).1 with
      | .ok rows => if author.any fun x => x.1.number = n then [⟨author, rows⟩] else []
      | .error _ => [] := by
  unfold World.append World.writesOf
  dsimp only
  cases (w.db.append now a).1 with
  | ok rows =>
    rw [List.filter_append]
    split_ifs with hn <;> simp [hn]
  | error e => simp

/-- No command has the next number yet. -/
theorem World.DbInv.writesOf_started (h : w.DbInv D streamUuid) : w.writesOf w.started = [] := by
  refine List.filter_eq_nil_iff.mpr fun wr hwr hany => ?_
  cases hauthor : wr.author with
  | none => simp [hauthor] at hany
  | some x =>
    have hlt := (h.author wr hwr x.1 x.2 hauthor).1
    simp only [hauthor, Option.any_some, decide_eq_true_eq] at hany
    omega

/-- A change of the snapshots by someone else. -/
theorem World.Inv.setStore (h : w.Inv D streamUuid) {st : Store} (hsame : w.db.store.SameEvents st)
    (hs : SnapshotOk D streamUuid st) : (w.setStore st).Inv D streamUuid :=
  ⟨h.db.setStore hsame hs, h.clients.env (w.sameClients_setStore hsame) fun _ => rfl⟩

variable [DecidableEq ι]

/-- Client `i` called and went on. Only its own command may have appended. -/
theorem World.ClientInv.next (h : w.ClientInv D streamUuid) (hi : w.client i = some (run, pc))
    (hsame : w.SameClients w') (hwr : ∀ n ≠ run.number, w'.writesOf n = w.writesOf n)
    {next : Next δ S C V}
    (hn : next.Ok D streamUuid w'.db.store.log run.number (w'.writesOf run.number)) :
    (w'.next i next).ClientInv D streamUuid := by
  have hother : ∀ j ≠ i, ∀ r p, w.client j = some (r, p) → r.number ≠ run.number := by
    intro j hj r p hr heq
    exact hj (h.distinct j i r run p pc hr hi heq)
  have hold : ∀ j ≠ i, ∀ r p, w'.client j = some (r, p) → r.number < w'.started ∧
      p.Ok D streamUuid w'.db.store.log r ∧ p.Wrote r (w'.writesOf r.number) := by
    intro j hj r p hr
    rw [hsame.client] at hr
    obtain ⟨hlt, hok, hwrote⟩ := h.client j r p hr
    exact ⟨hsame.started ▸ hlt, hok.mono hsame.log, hwr _ (hother j hj r p hr) ▸ hwrote⟩
  have hfin : ∀ r o, (r, o) ∈ w'.finished → r.number < w'.started ∧
      o.Wrote r (w'.writesOf r.number) ∧ r.number ≠ run.number ∧
        ∀ j r' p, w'.client j = some (r', p) → r'.number ≠ r.number := by
    intro r o hr
    obtain ⟨hlt, hwrote, hne⟩ := h.finished r o (hsame.finished ▸ hr)
    have hrun := (hne i run pc hi).symm
    exact ⟨hsame.started ▸ hlt, hwr _ hrun ▸ hwrote, hrun, hsame.client ▸ hne⟩
  have hlt : run.number < w'.started := hsame.started ▸ (h.client i run pc hi).1
  cases next with
  | call run' pc' =>
    obtain ⟨hnum, hok, hwrote⟩ := hn
    have hclient : ∀ j r p, (w'.next i (.call run' pc')).client j = some (r, p) →
        (j = i ∧ r = run' ∧ p = pc') ∨ (j ≠ i ∧ w'.client j = some (r, p)) := by
      intro j r p hj
      by_cases hji : j = i
      · simp only [World.next, hji, Function.update_self, Option.some.injEq, Prod.mk.injEq] at hj
        exact Or.inl ⟨hji, hj.1.symm, hj.2.symm⟩
      · simp only [World.next, Function.update_of_ne hji] at hj
        exact Or.inr ⟨hji, hj⟩
    refine ⟨?_, ?_, ?_⟩
    · intro j r p hj
      rcases hclient j r p hj with ⟨-, rfl, rfl⟩ | ⟨hji, hj⟩
      · exact ⟨hnum ▸ hlt, hok, hnum ▸ hwrote⟩
      · exact hold j hji r p hj
    · intro j k r r' p p' hj hk heq
      rcases hclient j r p hj with ⟨rfl, rfl, -⟩ | ⟨hji, hj'⟩ <;>
        rcases hclient k r' p' hk with ⟨rfl, rfl, -⟩ | ⟨hki, hk'⟩
      · rfl
      · exact absurd (heq.symm.trans hnum) (hother k hki r' p' (hsame.client ▸ hk'))
      · exact absurd (heq.trans hnum) (hother j hji r p (hsame.client ▸ hj'))
      · exact h.distinct j k r r' p p' (hsame.client ▸ hj') (hsame.client ▸ hk') heq
    · intro r o hr
      obtain ⟨hlt', hwrote', hrun, hne⟩ := hfin r o hr
      refine ⟨hlt', hwrote', fun j r' p hj => ?_⟩
      rcases hclient j r' p hj with ⟨-, rfl, -⟩ | ⟨-, hj⟩
      · exact hnum ▸ hrun.symm
      · exact hne j r' p hj
  | finish run' outcome =>
    obtain ⟨hnum, hwrote⟩ := hn
    have hclient : ∀ j r p, (w'.next i (.finish run' outcome)).client j = some (r, p) →
        j ≠ i ∧ w'.client j = some (r, p) := by
      intro j r p hj
      by_cases hji : j = i
      · simp [World.next, hji] at hj
      · simp only [World.next, Function.update_of_ne hji] at hj
        exact ⟨hji, hj⟩
    refine ⟨?_, ?_, ?_⟩
    · intro j r p hj
      obtain ⟨hji, hj⟩ := hclient j r p hj
      exact hold j hji r p hj
    · intro j k r r' p p' hj hk heq
      exact h.distinct j k r r' p p' (hsame.client ▸ (hclient j r p hj).2)
        (hsame.client ▸ (hclient k r' p' hk).2) heq
    · intro r o hr
      rcases List.mem_append.mp hr with hr | hr
      · obtain ⟨hlt', hwrote', -, hne⟩ := hfin r o hr
        exact ⟨hlt', hwrote', fun j r' p hj => hne j r' p (hclient j r' p hj).2⟩
      · rw [List.mem_singleton, Prod.mk.injEq] at hr
        obtain ⟨rfl, rfl⟩ := hr
        refine ⟨hnum ▸ hlt, hnum ▸ hwrote, fun j r' p hj => ?_⟩
        obtain ⟨hji, hj⟩ := hclient j r' p hj
        exact hnum ▸ hother j hji r' p (hsame.client ▸ hj)

theorem World.DbInv.next (h : w.DbInv D streamUuid) (i : ι) (next : Next δ S C V) :
    (w.next i next).DbInv D streamUuid := by
  cases next with
  | call run pc => exact ⟨h.consistent, h.stored, h.snapshot, h.author⟩
  | finish run outcome => exact ⟨h.consistent, h.stored, h.snapshot, h.author⟩

/-- Client `i` called, which may have changed the database, and went on. -/
theorem World.Inv.next (h : w.Inv D streamUuid) (hi : w.client i = some (run, pc))
    (hdb : w'.DbInv D streamUuid) (hsame : w.SameClients w')
    (hwr : ∀ n ≠ run.number, w'.writesOf n = w.writesOf n) (next : Next δ S C V)
    (hn : next.Ok D streamUuid w'.db.store.log run.number (w'.writesOf run.number)) :
    (w'.next i next).Inv D streamUuid :=
  ⟨hdb.next i next, h.clients.next hi hsame hwr hn⟩

/-- As `next`, when the call only read. -/
theorem World.Inv.nextRead (h : w.Inv D streamUuid) (hi : w.client i = some (run, pc))
    (next : Next δ S C V)
    (hn : next.Ok D streamUuid w.db.store.log run.number (w.writesOf run.number)) :
    (w.next i next).Inv D streamUuid :=
  h.next hi h.db ⟨rfl, rfl, rfl, List.prefix_rfl⟩ (fun _ _ => rfl) next hn

/-- Client `i` starts a command. -/
theorem World.ClientInv.start (h : w.ClientInv D streamUuid) (hnone : w.writesOf w.started = [])
    (hnum : run.number = w.started) :
    ({ w with
      client := Function.update w.client i (some (run, .readSnapshot))
      started := w.started + 1 } : World ι δ S C V).ClientInv D streamUuid := by
  have hclient : ∀ j r p,
      Function.update w.client i (some (run, Pc.readSnapshot)) j = some (r, p) →
        (j = i ∧ r = run ∧ p = Pc.readSnapshot) ∨ (j ≠ i ∧ w.client j = some (r, p)) := by
    intro j r p hj
    by_cases hji : j = i
    · simp only [hji, Function.update_self, Option.some.injEq, Prod.mk.injEq] at hj
      exact Or.inl ⟨hji, hj.1.symm, hj.2.symm⟩
    · exact Or.inr ⟨hji, by rwa [Function.update_of_ne hji] at hj⟩
  refine ⟨?_, ?_, ?_⟩
  · intro j r p hj
    rcases hclient j r p hj with ⟨-, rfl, rfl⟩ | ⟨-, hj⟩
    · exact ⟨hnum ▸ Nat.lt_succ_self _, trivial, hnum ▸ hnone⟩
    · obtain ⟨hlt, hok, hwrote⟩ := h.client j r p hj
      exact ⟨Nat.lt_succ_of_lt hlt, hok, hwrote⟩
  · intro j k r r' p p' hj hk heq
    rcases hclient j r p hj with ⟨rfl, rfl, -⟩ | ⟨-, hj'⟩ <;>
      rcases hclient k r' p' hk with ⟨rfl, rfl, -⟩ | ⟨-, hk'⟩
    · rfl
    · have hlt := (h.client k r' p' hk').1
      omega
    · have hlt := (h.client j r p hj').1
      omega
    · exact h.distinct j k r r' p p' hj' hk' heq
  · intro r o hr
    obtain ⟨hlt, hwrote, hne⟩ := h.finished r o hr
    refine ⟨Nat.lt_succ_of_lt hlt, hwrote, fun j r' p hj => ?_⟩
    rcases hclient j r' p hj with ⟨-, rfl, -⟩ | ⟨-, hj⟩
    · omega
    · exact hne j r' p hj

/-- The append of a command, and what its client does next. -/
theorem World.Inv.callAppend (h : w.Inv D streamUuid) {loaded : Loaded S}
    {filled : List (NewEvent V)} (hi : w.client i = some (run, .append loaded filled))
    (now : Timestamp) (ids : ℕ → String) :
    (w.call D streamUuid i now ids run (.append loaded filled)).Inv D streamUuid := by
  obtain ⟨hlt, ⟨hstate, events, hexec, hdomain⟩, hwrote⟩ := h.clients.client i run _ hi
  have hnone : w.writesOf run.number = [] := hwrote
  let a := appendArgs D.codec streamUuid loaded.version ids filled
  have hdb : (w.append (some (run, loaded.state)) now a).DbInv D streamUuid := by
    refine h.db.append _ now a fun r s hr => ?_
    obtain ⟨rfl, rfl⟩ := Prod.mk.inj (Option.some.inj hr)
    refine ⟨hlt, fun new hnew => ?_⟩
    obtain ⟨hlen, hne, hstream, hver, hmap⟩ := append_filled D.codec hnew
    refine ⟨List.prefix_rfl, rfl, hne, hstream, hlen ▸ hver, hstate.of_length hlen, events, hexec,
      hmap.trans ?_⟩
    have hread := congrArg (List.map (readBack D.codec)) hdomain
    rwa [List.map_map, List.map_map] at hread
  have hsame := World.sameClients_append h.db.consistent (some (run, loaded.state)) now a
  refine h.next hi hdb hsame ?_ _ ?_
  · intro n hn
    rw [World.writesOf_append]
    cases (w.db.append now a).1 with
    | ok rows => simp [Ne.symm hn]
    | error e => simp
  · rw [World.writesOf_append, hnone, List.nil_append]
    show Next.Ok D streamUuid (w.db.append now a).2.store.log _ _ _
    rcases h.db.consistent.append_cases now a with ⟨new, hnew, hok, hlog⟩ | ⟨e, herr, hlog⟩
    · obtain ⟨hlen, hne, hstream, hver, hmap⟩ := append_filled D.codec hnew
      rw [hlog, hok]
      simp only [Option.any_some, decide_true, if_true]
      exact afterAppend_ok (hstate.appended hlen hstream hmap) hne hver loaded.state
    · rw [hlog, herr]
      exact afterAppendError_ok run e

/-- The other calls of a client. -/
theorem World.Inv.call (h : w.Inv D streamUuid) (hi : w.client i = some (run, pc))
    (now : Timestamp) (ids : ℕ → String) :
    (w.call D streamUuid i now ids run pc).Inv D streamUuid := by
  obtain ⟨-, hok, hwrote⟩ := h.clients.client i run pc hi
  cases pc with
  | readSnapshot =>
    have hnone : w.writesOf run.number = [] := hwrote
    exact h.nextRead hi _ (hnone ▸ readSnapshotCall_ok run h.db.snapshot)
  | readPage loaded =>
    have hnone : w.writesOf run.number = [] := hwrote
    exact h.nextRead hi _ (hnone ▸ readPageCall_ok h.db.consistent.store hok)
  | append loaded filled => exact h.callAppend hi now ids
  | recordSnapshot rows state version =>
    have hsame : w.db.store.SameEvents
        (recordSnapshotCall D streamUuid now run state version w.db.store) :=
      sameEvents_recordSnapshotCall ..
    have hdb := h.db.setStore hsame (recordSnapshotCall_ok h.db.snapshot hok)
    exact h.next hi hdb (w.sameClients_setStore hsame) (fun _ _ => rfl)
      (.finish run (.appended rows)) ⟨rfl, hwrote⟩

theorem World.Inv.fail (h : w.Inv D streamUuid) (hi : w.client i = some (run, pc)) :
    (w.fail i run pc).Inv D streamUuid := by
  obtain ⟨-, -, hwrote⟩ := h.clients.client i run pc hi
  cases pc with
  | recordSnapshot rows state version =>
    exact h.nextRead hi (.finish run (.appended rows)) ⟨rfl, hwrote⟩
  | _ => exact h.nextRead hi (.finish run .threw) ⟨rfl, hwrote⟩

/-- **Every step keeps the invariant.** -/
theorem World.Inv.step (h : w.Inv D streamUuid) {op : Op ι δ C}
    (hstep : Aggregate.step D streamUuid w op = some w') : w'.Inv D streamUuid := by
  cases op with
  | start i definition command retryBudget causationDefault correlationId withSnapshots =>
    simp only [Aggregate.step] at hstep
    split at hstep
    · obtain rfl := Option.some.inj hstep
      refine ⟨⟨h.db.consistent, h.db.stored, h.db.snapshot, fun wr hwr r s hr => ?_⟩,
        h.clients.start h.db.writesOf_started rfl⟩
      obtain ⟨hlt, hex⟩ := h.db.author wr hwr r s hr
      exact ⟨Nat.lt_succ_of_lt hlt, hex⟩
    · cases hstep
  | call i now ids =>
    simp only [Aggregate.step] at hstep
    split at hstep
    · rename_i run pc hi
      obtain rfl := Option.some.inj hstep
      exact h.call hi now ids
    · cases hstep
  | fail i =>
    simp only [Aggregate.step] at hstep
    split at hstep
    · rename_i run pc hi
      obtain rfl := Option.some.inj hstep
      exact h.fail hi
    · cases hstep
  | append now a =>
    obtain rfl := Option.some.inj hstep
    refine ⟨h.db.append none now a (fun _ _ hr => nomatch hr),
      h.clients.env (World.sameClients_append h.db.consistent none now a) fun n => ?_⟩
    rw [World.writesOf_append]
    cases (w.db.append now a).1 <;> simp
  | deleteSnapshot sourceUuid =>
    obtain rfl := Option.some.inj hstep
    refine h.setStore ⟨rfl, rfl, rfl⟩ fun row hrow => h.db.snapshot row ?_
    rw [Table.find?_deleteWhere, Option.filter_eq_some_iff] at hrow
    exact hrow.1
  | recordSnapshot now sourceUuid sourceType sourceVersion data metadata =>
    simp only [Aggregate.step] at hstep
    split_ifs at hstep with hu
    split at hstep
    · rename_i st hst
      obtain rfl := Option.some.inj hstep
      obtain ⟨u, t, v, d, hu', -, -, -, -, rfl⟩ := recordSnapshot_ok hst
      cases hu'
      have hsame := sameEvents_upsertSnapshot now sourceUuid t v.toNat d metadata w.db.store
      refine h.setStore hsame (h.db.snapshot.of_eq ?_ (by rw [hsame.log]))
      rw [upsertSnapshot, Table.find?_put, if_neg hu]
    · obtain rfl := Option.some.inj hstep
      exact h

end Step

/-! ## The result -/

section Result

theorem World.Inv.install : (World.install : World ι δ S C V).Inv D streamUuid where
  db :=
    { consistent := Db.install_consistent
      stored := rfl
      snapshot := fun _ hrow => nomatch hrow
      author := fun _ hwr => nomatch hwr }
  clients :=
    { client := fun _ _ _ hi => nomatch hi
      distinct := fun _ _ _ _ _ _ hi => nomatch hi
      finished := fun _ _ hr => nomatch hr }

/-- The log consists of the successful appends. The events of a command lie together in it, at
    contiguous stream versions, and are what `execute` returned for the fold of all events before
    them. A command that succeeded appended once; one that threw or returned no events appended
    nothing. -/
structure Serializable (D : Deployment δ S C V) (streamUuid : String) (w : World ι δ S C V) :
    Prop where
  stored : w.db.store.log.map RecordedEvent.toAppendedRow = w.writes.flatMap (·.rows)
  executed : ∀ run state rows, ⟨some (run, state), rows⟩ ∈ w.writes →
    ∃ pre mid, Executed D streamUuid w.db.store.log run state rows pre mid
  finished : ∀ run outcome, (run, outcome) ∈ w.finished →
    outcome.Wrote run (w.writesOf run.number)

variable [DecidableEq ι]

theorem World.Inv.of_reachable {w : World ι δ S C V} (hw : Reachable (system D streamUuid) w) :
    w.Inv D streamUuid := by
  refine hw.invariant ?_ fun _ _ _ h _ hs => h.step hs
  rintro _ rfl
  exact World.Inv.install

/-- **Commands are serializable**, for every interleaving of the calls of any number of clients. -/
theorem commands_serializable {w : World ι δ S C V}
    (hw : Reachable (system D streamUuid) w) : Serializable D streamUuid w := by
  have hinv := World.Inv.of_reachable hw
  refine ⟨hinv.db.stored, ?_, ?_⟩
  · intro run state rows hwr
    exact (hinv.db.author _ hwr run state rfl).2
  · intro run outcome hr
    exact (hinv.clients.finished run outcome hr).2.1

/-- A counter that counts its own events and is stored at every command. -/
def counter : Deployment Unit ℕ String Json where
  definition _ :=
    { type := "counter"
      initialState := 0
      execute := fun n id => .ok [⟨some id, "counted", .int n, none, none, none⟩]
      apply := fun n _ => n + 1
      snapshotPolicy := some fun _ _ _ => true
      snapshotModuleVersion := none }
  codec :=
    { stringify := id
      parse := fun j => j.getD .null
      stateToJson := fun n => .int n
      jsonToState := fun
        | .num n => n.unscaled.toNat
        | _ => 0 }
  module_eq _ _ _ := ⟨rfl, rfl⟩
  state_roundTrip _ := rfl
  apply_readBack _ _ _ := rfl

/-- Two clients load the empty stream; the second loses its append, loads the snapshot of the first
    and appends after it. -/
def counterRun : List (Op Bool Unit String) :=
  let call (i : Bool) : Op Bool Unit String := .call i 10 fun _ => ""
  [.start true () "00000000-0000-0000-0000-000000000001" 5 "" none true,
   .start false () "00000000-0000-0000-0000-000000000002" 5 "" none true,
   call true, call false, call true, call false, call true, call false, call true,
   call false, call false, call false, call false]

theorem commands_serializable_counterRun : ∃ w, (system counter "counter-1").run World.install
    counterRun = some w ∧ w.writes.length = 2 ∧ Serializable counter "counter-1" w := by
  have hlen : ((system counter "counter-1").run World.install counterRun).map
      (fun w => w.writes.length) = some 2 := by decide +kernel
  obtain ⟨w, hw, hwrites⟩ := Option.map_eq_some_iff.mp hlen
  exact ⟨w, hw, hwrites, commands_serializable (Reachable.run (.init rfl) hw)⟩

end Result

end Instructed.Aggregate
