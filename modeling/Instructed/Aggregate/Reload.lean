import Instructed.Aggregate.ExpectedVersion
import Instructed.Store.Outcome

/-!
# The state after a command and the state that is read back

`runCommandAndApply` (run-command.ts:411–448) folds the events that it has just appended in memory.
`loadAggregate` folds the rows of the stream. An optional field that the application leaves out is
`undefined` in memory; the column is `NULL`, and reads back as `null`.

* `loadAggregate`, `executeCommand`, `runCommandAndApply`: the functions, over what each of their calls
  finds; others append between the calls;
* `LoadedAt`, `loadAggregate_spec`: a load is the fold of the stream behind the snapshot;
* `FoldsAsReloaded`: the result of every command that returns these events is what a load returns;
* `foldsAsReloaded_iff`: **this is so just when every event carries its metadata, and JSON storage gives
  its data and metadata back unchanged.**
-/

namespace Instructed.Aggregate

open Sql Relational Numbering

variable {S C V : Type}

/-! ## The functions -/

/-- What a call finds: the database, the time, and the values of `crypto.randomUUID()`. -/
structure Moment where
  db : Db
  now : Timestamp
  ids : ℕ → String

/-- What `executeCommand` throws. -/
inductive CommandError where
  | sql (e : SqlError)
  | thrown (t : Thrown)
  | retryBudgetExhausted (attempts : ℕ) (lastError : CommandError)

/-- `err instanceof WrongExpectedVersion`. -/
def CommandError.isWrongExpectedVersion : CommandError → Bool
  | .sql e => e.sqlstate = .IS001
  | .thrown .wrongExpectedVersion => true
  | _ => false

/-- A function whose calls find the moments of a list, one after the other: its result, the database
    after its last call, and the moments that are left. It is `none` when it has not returned. -/
abbrev Reply (α : Type) := Option (Except CommandError α × Db × List Moment)

/-- `RunCommandOptions`. -/
structure RunCommandOptions where
  retryBudget : Option ℕ
  expectedVersion : Option Expected
  commandId : Option String
  causationId : Option String
  correlationId : Option String

/-- `DEFAULT_RETRY_BUDGET`. -/
def defaultRetryBudget : ℕ := 5

/-- The defaulting of `causation_id` and `correlation_id`; `uuid` is a fresh command id. -/
def RunCommandOptions.fill (o : RunCommandOptions) (uuid : String) (e : NewEvent V) : NewEvent V :=
  fillEvent (o.causationId.getD (o.commandId.getD uuid)) o.correlationId e

/-- `ExecutedCommand`. -/
structure ExecutedCommand (S V : Type) where
  appended : List AppendedRow
  loaded : Loaded S
  filled : List (NewEvent V)
  noOp : Bool

/-- `RanCommand`. -/
structure RanCommand (S : Type) where
  appended : List AppendedRow
  state : S
  version : ℕ
  eventsSinceSnapshot : ℕ

section Functions

variable (d : AggregateDefinition S C V) (codec : Codec S V) (streamUuid : String)

/-- The snapshot read of `loadAggregate`. -/
def baseline (st : Store) : Except SqlError (Loaded S) :=
  match Instructed.readSnapshot (some streamUuid) st with
  | .ok snap =>
    if readVersion snap.metadata = d.snapshotModuleVersion then
      .ok ⟨codec.jsonToState snap.data, snap.sourceVersion, 0⟩
    else .ok ⟨d.initialState, 0, 0⟩
  | .error e => if e.sqlstate = .IS010 then .ok ⟨d.initialState, 0, 0⟩ else .error e

/-- The loop of `loadAggregate`. -/
def loadPages : Loaded S → List Moment → Reply (Loaded S)
  | _, [] => none
  | loaded, m :: ms =>
    match readStream (some streamUuid) (some (loaded.version + 1 : ℕ)) (some loadPageSize)
      m.db.store with
    | .ok page =>
      let loaded := foldPage d codec loaded page
      if page.length < loadPageSize then some (.ok loaded, m.db, ms) else loadPages loaded ms
    | .error e =>
      if e.sqlstate = .IS003 ∧ loaded.version = 0 then some (.ok loaded, m.db, ms)
      else some (.error (.sql e), m.db, ms)

def loadAggregate : List Moment → Reply (Loaded S)
  | [] => none
  | m :: ms =>
    match baseline d codec streamUuid m.db.store with
    | .ok loaded => loadPages d codec streamUuid loaded ms
    | .error e => some (.error (.sql e), m.db, ms)

variable (command : C) (o : RunCommandOptions) (uuid : String)

/-- `client.appendToStream(streamUuid, explicitExpected ?? ev.exact(loaded.version), filled)`. -/
def commandArgs (loaded : Loaded S) (ids : ℕ → String) (filled : List (NewEvent V)) : AppendArgs :=
  { appendArgs codec streamUuid loaded.version ids filled with
    expectedVersionType := some (expectedOf o.expectedVersion loaded).type
    expectedVersion := (expectedOf o.expectedVersion loaded).version? }

/-- The `try` block of `executeCommand`. -/
def attempt (ms : List Moment) : Reply (ExecutedCommand S V) :=
  match loadAggregate d codec streamUuid ms with
  | none => none
  | some (.error e, db, ms) => some (.error e, db, ms)
  | some (.ok loaded, db, ms) =>
    match d.execute loaded.state command with
    | .error t => some (.error (.thrown t), db, ms)
    | .ok [] => some (.ok ⟨[], loaded, [], true⟩, db, ms)
    | .ok (e :: es) =>
      let filled := (e :: es).map (o.fill uuid)
      match ms with
      | [] => none
      | m :: ms =>
        match m.db.append m.now (commandArgs codec streamUuid o loaded m.ids filled) with
        | (.ok rows, db) => some (.ok ⟨rows, loaded, filled, false⟩, db, ms)
        | (.error e, db) => some (.error (.sql e), db, ms)

/-- The attempts of `executeCommand`; `left` retries remain. -/
def attempts (left : ℕ) (ms : List Moment) : Reply (ExecutedCommand S V) :=
  match attempt d codec streamUuid command o uuid ms with
  | some (.error e, db, ms) =>
    if e.isWrongExpectedVersion ∧ o.expectedVersion = none then
      match left with
      | 0 => some (.error (.retryBudgetExhausted (o.retryBudget.getD defaultRetryBudget + 1) e), db, ms)
      | left + 1 => attempts left ms
    else some (.error e, db, ms)
  | reply => reply

def executeCommand (ms : List Moment) : Reply (ExecutedCommand S V) :=
  attempts d codec streamUuid command o uuid (o.retryBudget.getD defaultRetryBudget) ms

/-- `runCommandAndApply`, after `executeCommand` returned. -/
def ExecutedCommand.ran (r : ExecutedCommand S V) : RanCommand S :=
  if r.noOp then ⟨r.appended, r.loaded.state, r.loaded.version, r.loaded.eventsSinceSnapshot⟩
  else ⟨r.appended, (r.filled.map NewEvent.toDomain).foldl d.apply r.loaded.state,
    (r.appended.getLast?.map (·.streamVersion)).getD r.loaded.version,
    r.loaded.eventsSinceSnapshot + r.appended.length⟩

def runCommandAndApply (ms : List Moment) : Reply (RanCommand S) :=
  (executeCommand d codec streamUuid command o uuid ms).map fun reply =>
    (reply.1.map fun r => r.ran d, reply.2)

end Functions

/-! ## A load -/

/-- `st'` may be found after `st`: the log has grown, and the snapshot of the stream is the same. -/
structure Later (streamUuid : String) (st st' : Store) : Prop where
  log : st.log <+: st'.log
  snapshot : st'.snapshots.find? streamUuid = st.snapshots.find? streamUuid

/-- What the reads of a load may find, one after the other, while others append. -/
structure Grow (ms : List Moment) : Prop where
  reachable : ∀ m ∈ ms, m.db.Reachable
  log : ms.Pairwise fun m m' => m.db.store.log <+: m'.db.store.log

/-- What calls may find, one after the other, while others append. -/
structure Follow (streamUuid : String) (ms : List Moment) : Prop where
  reachable : ∀ m ∈ ms, m.db.Reachable
  later : ms.Pairwise fun m m' => Later streamUuid m.db.store m'.db.store

/-- `loadAggregate` returns `loaded` when all its calls find `db`. -/
def Loads (d : AggregateDefinition S C V) (codec : Codec S V) (streamUuid : String) (db : Db)
    (loaded : Loaded S) : Prop :=
  ∃ ms, (∀ m ∈ ms, m.db = db) ∧ ∃ db' rest,
    loadAggregate d codec streamUuid ms = some (.ok loaded, db', rest)

/-- `final` is `base` with the events of the stream behind it. -/
structure LoadedAt (d : AggregateDefinition S C V) (codec : Codec S V) (streamUuid : String)
    (st : Store) (base final : Loaded S) : Prop where
  not_all : streamUuid ≠ "$all"
  empty : onStream streamUuid st.log = [] → base.version = 0
  version : final.version = max base.version (onStream streamUuid st.log).length
  state : final.state =
    (((onStream streamUuid st.log).drop base.version).map (recordedToDomain codec)).foldl d.apply
      base.state

section Load

variable {d : AggregateDefinition S C V} {codec : Codec S V} {streamUuid : String} {st : Store}
  {base loaded final : Loaded S} {db : Db} {m : Moment} {ms rest : List Moment}

variable (d codec) in
theorem foldPage_drop (hc : st.Consistent) (hle : loaded.version ≤ (onStream streamUuid st.log).length)
    (qty : ℕ) :
    let page := ((onStream streamUuid st.log).drop loaded.version).take qty
    (foldPage d codec loaded page).version = loaded.version + page.length ∧
      (foldPage d codec loaded page).state =
        (page.map (recordedToDomain codec)).foldl d.apply loaded.state := by
  have hnum := ((hc.log_numbered.streamVersion streamUuid).drop hle).take qty
  rw [Nat.add_comm] at hnum
  exact foldPage_eq codec d hnum

/-- What the call for a page finds. -/
theorem readPage_eq (hc : st.Consistent) (hu : streamUuid ≠ "$all") (loaded : Loaded S) :
    readStream (some streamUuid) (some (loaded.version + 1 : ℕ)) (some loadPageSize) st =
      if onStream streamUuid st.log = [] then
        raise .IS003 ("read_stream: stream " ++ streamUuid ++ " not found")
      else .ok (((onStream streamUuid st.log).drop loaded.version).take loadPageSize) := by
  have hq : 0 < loadPageSize := by decide
  rw [readStream_eq hc hu hq, Nat.add_sub_cancel]

/-- The last page: it is not full. -/
theorem LoadedAt.of_page (hc : st.Consistent) (hu : streamUuid ≠ "$all")
    (hne : onStream streamUuid st.log ≠ [])
    (hlast : (((onStream streamUuid st.log).drop base.version).take loadPageSize).length <
      loadPageSize) :
    LoadedAt d codec streamUuid st base
      (foldPage d codec base (((onStream streamUuid st.log).drop base.version).take loadPageSize)) := by
  have hall : ((onStream streamUuid st.log).drop base.version).take loadPageSize =
      (onStream streamUuid st.log).drop base.version := by
    rw [List.length_take] at hlast
    exact List.take_of_length_le (by omega)
  rcases Nat.le_total base.version (onStream streamUuid st.log).length with hle | hle
  · obtain ⟨hver, hstate⟩ := foldPage_drop d codec hc hle loadPageSize
    rw [hall] at hver hstate ⊢
    refine ⟨hu, fun h => absurd h hne, ?_, hstate⟩
    rw [hver, List.length_drop]
    omega
  · rw [List.drop_eq_nil_of_le hle, List.take_nil]
    refine ⟨hu, fun h => absurd h hne, ?_, ?_⟩
    · rw [Nat.max_eq_left hle]
      rfl
    · rw [List.drop_eq_nil_of_le hle]
      rfl

/-- A full page, and the pages that follow while the stream grows. -/
theorem LoadedAt.after_page {st' : Store} (hc : st.Consistent)
    (hpre : onStream streamUuid st.log <+: onStream streamUuid st'.log)
    (hfull : loadPageSize ≤
      (((onStream streamUuid st.log).drop base.version).take loadPageSize).length)
    (h : LoadedAt d codec streamUuid st'
      (foldPage d codec base (((onStream streamUuid st.log).drop base.version).take loadPageSize))
      final) :
    LoadedAt d codec streamUuid st' base final := by
  have hlen := hfull
  rw [List.length_take, List.length_drop] at hlen
  have hpos : 0 < loadPageSize := by decide
  obtain ⟨more, hmore⟩ := hpre
  obtain ⟨hver, hstate⟩ := foldPage_drop d codec hc
    (show base.version ≤ (onStream streamUuid st.log).length by omega) loadPageSize
  have hsize : (((onStream streamUuid st.log).drop base.version).take loadPageSize).length =
      loadPageSize := by
    rw [List.length_take, List.length_drop]
    omega
  rw [hsize] at hver
  have hlonger : (onStream streamUuid st.log).length ≤ (onStream streamUuid st'.log).length := by
    rw [← hmore, List.length_append]
    omega
  have hpage : ((onStream streamUuid st.log).drop base.version).take loadPageSize =
      ((onStream streamUuid st'.log).drop base.version).take loadPageSize := by
    rw [← hmore, List.drop_append_of_le_length (by omega), List.take_append_of_le_length]
    rw [List.length_drop]
    omega
  refine ⟨h.not_all, fun hnil => ?_, ?_, ?_⟩
  · rw [hnil, List.length_nil] at hlonger
    omega
  · rw [h.version, hver]
    omega
  · rw [h.state, hver, hstate, hpage, ← List.foldl_append, ← List.map_append, ← List.drop_drop,
      List.take_append_drop]

theorem Grow.cons_iff : Grow (m :: ms) ↔
    m.db.Reachable ∧ (∀ m' ∈ ms, m.db.store.log <+: m'.db.store.log) ∧ Grow ms := by
  constructor
  · intro h
    obtain ⟨hlater, hpairs⟩ := List.pairwise_cons.mp h.log
    exact ⟨h.reachable m List.mem_cons_self, hlater,
      fun m' hm' => h.reachable m' (List.mem_cons_of_mem _ hm'), hpairs⟩
  · rintro ⟨hm, hlater, h⟩
    exact ⟨List.forall_mem_cons.mpr ⟨hm, h.reachable⟩, List.pairwise_cons.mpr ⟨hlater, h.log⟩⟩

theorem Later.onStream (h : Later streamUuid st m.db.store) :
    onStream streamUuid st.log <+: onStream streamUuid m.db.store.log :=
  h.log.filter _

theorem Follow.grow (hf : Follow streamUuid ms) : Grow ms :=
  ⟨hf.reachable, hf.later.imp fun h => h.log⟩

/-- **The loop of a load.** It ends at one of its calls, with the events of the stream at that time. -/
theorem loadPages_spec (hg : Grow ms)
    (h : loadPages d codec streamUuid loaded ms = some (.ok final, db, rest)) :
    ∃ pre m, ms = pre ++ m :: rest ∧ db = m.db ∧
      LoadedAt d codec streamUuid db.store loaded final := by
  induction ms generalizing loaded with
  | nil => cases h
  | cons m ms ih =>
    obtain ⟨hm, hlater, hg⟩ := Grow.cons_iff.mp hg
    have hc := hm.consistent.store
    rw [loadPages] at h
    by_cases hu : streamUuid = "$all"
    · rw [hu] at h
      cases h
    rw [readPage_eq hc hu loaded] at h
    split_ifs at h with hnil
    · simp only [raise] at h
      split_ifs at h with hzero
      · cases h
        refine ⟨[], m, rfl, rfl, hu, fun _ => hzero.2, ?_, ?_⟩
        · simp [hnil]
        · simp [hnil]
      · cases h
    · dsimp only at h
      split_ifs at h with hlast
      · cases h
        exact ⟨[], m, rfl, rfl, .of_page hc hu hnil hlast⟩
      · obtain ⟨pre, m', rfl, rfl, hat⟩ := ih hg h
        have hmem : m' ∈ pre ++ m' :: rest := List.mem_append_right _ List.mem_cons_self
        refine ⟨m :: pre, m', rfl, rfl, ?_⟩
        exact hat.after_page hc ((hlater m' hmem).filter _) (by omega)

variable (d codec) in
/-- Enough calls that find one database end the loop. -/
theorem loadPages_returns (hdb : m.db.Reachable) (hu : streamUuid ≠ "$all")
    (hempty : onStream streamUuid m.db.store.log = [] → loaded.version = 0) :
    ∃ n final, ∀ rest, loadPages d codec streamUuid loaded (List.replicate n m ++ rest) =
      some (.ok final, m.db, rest) := by
  have hc := hdb.consistent.store
  induction hk : (onStream streamUuid m.db.store.log).length - loaded.version using
    Nat.strong_induction_on generalizing loaded with
  | _ k ih =>
    by_cases hnil : onStream streamUuid m.db.store.log = []
    · refine ⟨1, loaded, fun rest => ?_⟩
      show loadPages d codec streamUuid loaded (m :: rest) = _
      rw [loadPages, readPage_eq hc hu, if_pos hnil]
      exact if_pos ⟨rfl, hempty hnil⟩
    · let page := ((onStream streamUuid m.db.store.log).drop loaded.version).take loadPageSize
      have hcons : ∀ ms, loadPages d codec streamUuid loaded (m :: ms) =
          if page.length < loadPageSize then some (.ok (foldPage d codec loaded page), m.db, ms)
          else loadPages d codec streamUuid (foldPage d codec loaded page) ms := by
        intro ms
        rw [loadPages, readPage_eq hc hu, if_neg hnil]
      by_cases hlast : page.length < loadPageSize
      · refine ⟨1, foldPage d codec loaded page, fun rest => ?_⟩
        show loadPages d codec streamUuid loaded (m :: rest) = _
        rw [hcons, if_pos hlast]
      · have hpos : 0 < loadPageSize := by decide
        have hlen : page.length =
            min loadPageSize ((onStream streamUuid m.db.store.log).length - loaded.version) := by
          rw [List.length_take, List.length_drop]
        have hver : (foldPage d codec loaded page).version = loaded.version + page.length :=
          (foldPage_drop d codec hc (by omega) loadPageSize).1
        obtain ⟨n, final, hfinal⟩ := ih _ (by rw [hver]; omega) (fun h => absurd h hnil) rfl
        refine ⟨n + 1, final, fun rest => ?_⟩
        rw [List.replicate_succ, List.cons_append, hcons, if_neg hlast]
        exact hfinal rest

theorem baseline_eq (h : Later streamUuid st m.db.store) :
    baseline d codec streamUuid m.db.store = baseline d codec streamUuid st := by
  unfold baseline Instructed.readSnapshot
  dsimp only
  rw [h.snapshot]

variable (d codec streamUuid) in
theorem exists_baseline (st : Store) : ∃ base, baseline d codec streamUuid st = .ok base := by
  unfold baseline Instructed.readSnapshot
  dsimp only
  cases st.snapshots.find? streamUuid with
  | none => exact ⟨_, rfl⟩
  | some snap =>
    dsimp only
    split_ifs
    · exact ⟨_, rfl⟩
    · exact ⟨_, rfl⟩

/-- **A load.** It is the fold of the stream behind the snapshot, as its last call finds them. -/
theorem loadAggregate_spec (hf : Follow streamUuid ms)
    (h : loadAggregate d codec streamUuid ms = some (.ok final, db, rest)) :
    ∃ pre m base, ms = pre ++ m :: rest ∧ db = m.db ∧
      baseline d codec streamUuid db.store = .ok base ∧
        LoadedAt d codec streamUuid db.store base final := by
  cases ms with
  | nil => cases h
  | cons m ms =>
    obtain ⟨hlater, hpairs⟩ := List.pairwise_cons.mp hf.later
    have hf' : Follow streamUuid ms :=
      ⟨fun m' hm' => hf.reachable m' (List.mem_cons_of_mem _ hm'), hpairs⟩
    obtain ⟨base, hbase⟩ := exists_baseline d codec streamUuid m.db.store
    simp only [loadAggregate, hbase] at h
    obtain ⟨pre, m', rfl, rfl, hat⟩ := loadPages_spec hf'.grow h
    have hmem : m' ∈ pre ++ m' :: rest := List.mem_append_right _ List.mem_cons_self
    exact ⟨m :: pre, m', base, rfl, rfl, (baseline_eq (hlater m' hmem)).trans hbase, hat⟩

theorem Follow.const (hdb : db.Reachable) (h : ∀ m ∈ ms, m.db = db) : Follow streamUuid ms := by
  refine ⟨fun m hm => h m hm ▸ hdb, ?_⟩
  rw [List.pairwise_iff_forall_sublist]
  intro m m' hsub
  rw [h m (hsub.subset (by simp)), h m' (hsub.subset (by simp))]
  exact ⟨List.prefix_refl _, rfl⟩

theorem Loads.spec (h : Loads d codec streamUuid db final) (hdb : db.Reachable) :
    ∃ base, baseline d codec streamUuid db.store = .ok base ∧
      LoadedAt d codec streamUuid db.store base final := by
  obtain ⟨ms, hms, db', rest, hload⟩ := h
  obtain ⟨pre, m, base, rfl, rfl, hbase, hat⟩ := loadAggregate_spec (.const hdb hms) hload
  have hm := hms m (List.mem_append_right _ List.mem_cons_self)
  exact ⟨base, hm ▸ hbase, hm ▸ hat⟩

theorem exists_loads (hdb : db.Reachable) (hu : streamUuid ≠ "$all")
    (hbase : baseline d codec streamUuid db.store = .ok base)
    (hempty : onStream streamUuid db.store.log = [] → base.version = 0) :
    ∃ loaded, Loads d codec streamUuid db loaded := by
  let m : Moment := ⟨db, 0, fun _ => ""⟩
  obtain ⟨n, final, hfinal⟩ := loadPages_returns d codec (m := m) hdb hu hempty
  refine ⟨final, m :: (List.replicate n m ++ []), fun m' hm' => ?_, db, [], ?_⟩
  · rw [List.append_nil] at hm'
    rcases List.mem_cons.mp hm' with rfl | hm'
    · rfl
    · rw [List.eq_of_mem_replicate hm']
  · simp only [loadAggregate, m, hbase]
    exact hfinal []

end Load

/-! ## A command -/

/-- JSON storage gives the event back: it carries its metadata, and storage changes neither the data
    nor the metadata. -/
structure Survives (codec : Codec S V) (e : NewEvent V) : Prop where
  data : codec.parse (some (codec.stringify e.data)) = e.data
  metadata : ∃ m, e.metadata = some m ∧ codec.parse (some (codec.stringify m)) = m

theorem survives_iff {codec : Codec S V} {e : NewEvent V} :
    Survives codec e ↔ readBack codec e.toDomain = e.toDomain := by
  obtain ⟨id, type, data, metadata, causation, correlation⟩ := e
  constructor
  · rintro ⟨hdata, m, rfl, hm⟩
    simp only at hdata
    simp [readBack, NewEvent.toDomain, hdata, hm]
  · intro h
    simp only [readBack, NewEvent.toDomain, DomainEvent.mk.injEq, true_and] at h
    obtain ⟨hdata, hmetadata⟩ := h
    refine ⟨hdata, _, hmetadata.symm, ?_⟩
    cases metadata with
    | none => cases hmetadata
    | some m =>
      have hm := Option.some.inj hmetadata
      rw [hm]
      exact hm

/-- What `runCommandAndApply` returned is what `loadAggregate` returns. -/
structure Reloads (d : AggregateDefinition S C V) (codec : Codec S V) (streamUuid : String) (db : Db)
    (r : RanCommand S) : Prop where
  returns : ∃ loaded, Loads d codec streamUuid db loaded
  same : ∀ loaded, Loads d codec streamUuid db loaded →
    loaded.state = r.state ∧ loaded.version = r.version

/-- The events of the command were appended, and a load folds them as they are read back. -/
structure ReloadsRead (d : AggregateDefinition S C V) (codec : Codec S V) (streamUuid : String)
    (db : Db) (r : ExecutedCommand S V) : Prop where
  stored : r.filled = [] ∨ ∃ (m : Moment) (version : ℕ) (rows : List AppendedRow), m.db.Reachable ∧
    (m.db.append m.now (appendArgs codec streamUuid version m.ids r.filled)).1 = .ok rows
  returns : ∃ loaded, Loads d codec streamUuid db loaded
  version : ∀ loaded, Loads d codec streamUuid db loaded → loaded.version = (r.ran d).version
  read : ∀ loaded, Loads d codec streamUuid db loaded → loaded.state =
    (r.filled.map fun e => readBack codec e.toDomain).foldl d.apply r.loaded.state
  state : (r.ran d).state = (r.filled.map NewEvent.toDomain).foldl d.apply r.loaded.state

section Command

variable {d : AggregateDefinition S C V} {codec : Codec S V} {streamUuid : String} {command : C}
  {o : RunCommandOptions} {uuid : String} {base loaded : Loaded S} {r : ExecutedCommand S V} {db : Db}
  {ms rest : List Moment} {m : Moment}

/-- Nothing was appended. -/
theorem ReloadsRead.noOp (hdb : db.Reachable) (hbase : baseline d codec streamUuid db.store = .ok base)
    (hat : LoadedAt d codec streamUuid db.store base loaded) :
    ReloadsRead d codec streamUuid db ⟨[], loaded, [], true⟩ := by
  have hspec : ∀ again, Loads d codec streamUuid db again →
      again.version = loaded.version ∧ again.state = loaded.state := by
    intro again h
    obtain ⟨base', hbase', hat'⟩ := h.spec hdb
    obtain rfl := Except.ok.inj (hbase.symm.trans hbase')
    exact ⟨hat'.version.trans hat.version.symm, hat'.state.trans hat.state.symm⟩
  refine ⟨Or.inl rfl, exists_loads hdb hat.not_all hbase hat.empty, fun again h => ?_,
    fun again h => ?_, rfl⟩
  · exact (hspec again h).1
  · exact (hspec again h).2

/-- The append found the stream as it was loaded, so a load goes on with the events appended. -/
theorem ReloadsRead.appended {db₀ : Db} {filled : List (NewEvent V)} {rows : List AppendedRow}
    (hdb : m.db.Reachable) (hlater : Later streamUuid db₀.store m.db.store)
    (hbase : baseline d codec streamUuid db₀.store = .ok base)
    (hat : LoadedAt d codec streamUuid db₀.store base loaded)
    (hrows : (m.db.append m.now (appendArgs codec streamUuid loaded.version m.ids filled)).1 = .ok rows) :
    ReloadsRead d codec streamUuid
      (m.db.append m.now (appendArgs codec streamUuid loaded.version m.ids filled)).2
      ⟨rows, loaded, filled, false⟩ := by
  have hc := hdb.consistent
  let a : AppendArgs := appendArgs codec streamUuid loaded.version m.ids filled
  have hdb' : (m.db.append m.now a).2.Reachable := .append _ _ hdb
  obtain ⟨new, hcall, hok, hlog⟩ : ∃ new, appendCall m.now a m.db.store.log = .ok new ∧
      (m.db.append m.now a).1 = .ok (new.map RecordedEvent.toAppendedRow) ∧
        (m.db.append m.now a).2.store.log = m.db.store.log ++ new := by
    rcases hc.append_cases m.now a with h | ⟨e, herr, -⟩
    · exact h
    · rw [hrows] at herr
      cases herr
  have hnew : rows = new.map RecordedEvent.toAppendedRow := Except.ok.inj (hrows.symm.trans hok)
  obtain ⟨hlen, hne, hstream, hnum, hmap⟩ := append_filled codec hcall
  have hsnap : (m.db.append m.now a).2.store.snapshots = m.db.store.snapshots :=
    (hc.append_refines (m.now, a)).2.2.1
  have hself : onStream streamUuid new = new :=
    List.filter_eq_self.mpr fun e he => by simpa using hstream e he
  have hafter : onStream streamUuid (m.db.append m.now a).2.store.log =
      onStream streamUuid m.db.store.log ++ new := by
    rw [hlog, onStream_append, hself]
  -- the stream was not ahead of what was loaded, and has it as a prefix
  have hversion := hat.version
  have hloaded : loaded.state = (((onStream streamUuid m.db.store.log).drop base.version).map
      (recordedToDomain codec)).foldl d.apply base.state := by
    rw [hat.state]
    rcases Nat.lt_or_ge (onStream streamUuid db₀.store.log).length loaded.version with hlt | hge
    · rw [List.drop_eq_nil_of_le (by omega), List.drop_eq_nil_of_le (by omega)]
    · have heq : onStream streamUuid db₀.store.log = onStream streamUuid m.db.store.log :=
        hlater.onStream.eq_of_length (by have hle := hlater.onStream.length_le; omega)
      rw [heq]
  have hbase' : baseline d codec streamUuid (m.db.append m.now a).2.store = .ok base := by
    refine (baseline_eq (m := ⟨_, m.now, m.ids⟩) ⟨hlog ▸ List.prefix_append .., ?_⟩).trans
      ((baseline_eq hlater).trans hbase)
    rw [hsnap]
  have hlast : (rows.getLast?.map (·.streamVersion)).getD loaded.version =
      loaded.version + new.length := by
    rw [hnew, List.getLast?_map, Option.map_map]
    show (new.getLast?.map (·.streamVersion)).getD _ = _
    rw [hnum.getLast?_pos hne, Option.getD_some]
  have hspec : ∀ again, Loads d codec streamUuid (m.db.append m.now a).2 again →
      LoadedAt d codec streamUuid (m.db.append m.now a).2.store base again := by
    intro again h
    obtain ⟨base', hb, hat'⟩ := h.spec hdb'
    obtain rfl := Except.ok.inj (hbase'.symm.trans hb)
    exact hat'
  refine ⟨Or.inr ⟨m, _, rows, hdb, hrows⟩, exists_loads hdb' hat.not_all hbase' fun hnil => ?_,
    fun again h => ?_, fun again h => ?_, rfl⟩
  · rw [hafter] at hnil
    exact absurd (List.append_eq_nil_iff.mp hnil).2 hne
  · rw [(hspec again h).version, hafter, List.length_append, hlen]
    show max base.version (loaded.version + new.length) = Option.getD _ _
    rw [hlast]
    omega
  · rw [(hspec again h).state, hafter, List.drop_append_of_le_length (by omega), List.map_append,
      List.foldl_append, ← hloaded, hmap]

theorem loadPages_suffix {x : Except CommandError (Loaded S)}
    (h : loadPages d codec streamUuid loaded ms = some (x, db, rest)) : rest <:+ ms := by
  induction ms generalizing loaded with
  | nil => cases h
  | cons m ms ih =>
    rw [loadPages] at h
    split at h
    · dsimp only at h
      split_ifs at h
      · cases h
        exact List.suffix_cons ..
      · exact (ih h).trans (List.suffix_cons ..)
    · split_ifs at h
      · cases h
        exact List.suffix_cons ..
      · cases h
        exact List.suffix_cons ..

theorem loadAggregate_suffix {x : Except CommandError (Loaded S)}
    (h : loadAggregate d codec streamUuid ms = some (x, db, rest)) : rest <:+ ms := by
  cases ms with
  | nil => cases h
  | cons m ms =>
    rw [loadAggregate] at h
    split at h
    · exact (loadPages_suffix h).trans (List.suffix_cons ..)
    · cases h
      exact List.suffix_cons ..

theorem attempt_suffix {x : Except CommandError (ExecutedCommand S V)}
    (h : attempt d codec streamUuid command o uuid ms = some (x, db, rest)) : rest <:+ ms := by
  unfold attempt at h
  split at h
  · cases h
  · rename_i hload
    cases h
    exact loadAggregate_suffix hload
  · rename_i hload
    have hsuffix := loadAggregate_suffix hload
    split at h
    · cases h
      exact hsuffix
    · cases h
      exact hsuffix
    · dsimp only at h
      split at h
      · cases h
      · rename_i m ms
        have hrest : ms <:+ m :: ms := List.suffix_cons m ms
        split at h
        · cases h
          exact hrest.trans hsuffix
        · cases h
          exact hrest.trans hsuffix

theorem Follow.suffix (hf : Follow streamUuid ms) (h : rest <:+ ms) : Follow streamUuid rest :=
  ⟨fun m hm => hf.reachable m (h.subset hm), hf.later.sublist h.sublist⟩

/-- **One attempt.** -/
theorem attempt_spec (hf : Follow streamUuid ms) (hexp : o.expectedVersion = none)
    (h : attempt d codec streamUuid command o uuid ms = some (.ok r, db, rest)) :
    ReloadsRead d codec streamUuid db r := by
  unfold attempt at h
  split at h
  · cases h
  · cases h
  · rename_i loaded db₀ left hload
    obtain ⟨pre, m₀, base, rfl, rfl, hbase, hat⟩ := loadAggregate_spec hf hload
    have hdb₀ := hf.reachable m₀ (List.mem_append_right _ List.mem_cons_self)
    split at h
    · cases h
    · cases h
      exact .noOp hdb₀ hbase hat
    · rename_i e es hexec
      dsimp only at h
      split at h
      · cases h
      · rename_i m after
        have hdb := hf.reachable m (List.mem_append_right _
          (List.mem_cons_of_mem _ List.mem_cons_self))
        have hlater : Later streamUuid m₀.db.store m.db.store := by
          have hpairs := hf.later.sublist (List.sublist_append_right pre _)
          exact (List.pairwise_cons.mp hpairs).1 m List.mem_cons_self
        have hargs : commandArgs codec streamUuid o loaded m.ids ((e :: es).map (o.fill uuid)) =
            appendArgs codec streamUuid loaded.version m.ids ((e :: es).map (o.fill uuid)) := by
          rw [commandArgs, hexp]
          rfl
        rw [hargs] at h
        split at h
        · rename_i rows db' happ
          cases h
          have happended := ReloadsRead.appended hdb hlater hbase hat (congrArg Prod.fst happ)
          rwa [happ] at happended
        · cases h

/-- The events of the command are those that `execute` returned. -/
theorem attempt_filled
    (h : attempt d codec streamUuid command o uuid ms = some (.ok r, db, rest)) :
    ∃ events, d.execute r.loaded.state command = .ok events ∧ r.filled = events.map (o.fill uuid) := by
  unfold attempt at h
  split at h
  · cases h
  · cases h
  · split at h
    · cases h
    · rename_i hexec
      cases h
      exact ⟨[], hexec, rfl⟩
    · rename_i hexec
      dsimp only at h
      split at h
      · cases h
      · split at h
        · cases h
          exact ⟨_, hexec, rfl⟩
        · cases h

theorem attempts_filled {left : ℕ}
    (h : attempts d codec streamUuid command o uuid left ms = some (.ok r, db, rest)) :
    ∃ events, d.execute r.loaded.state command = .ok events ∧ r.filled = events.map (o.fill uuid) := by
  induction left generalizing ms with
  | zero =>
    rw [attempts] at h
    split at h
    · split_ifs at h <;> cases h
    · exact attempt_filled h
  | succ left ih =>
    rw [attempts] at h
    split at h
    · split_ifs at h
      · exact ih h
      · cases h
    · exact attempt_filled h

theorem attempts_spec {left : ℕ} (hf : Follow streamUuid ms) (hexp : o.expectedVersion = none)
    (h : attempts d codec streamUuid command o uuid left ms = some (.ok r, db, rest)) :
    ReloadsRead d codec streamUuid db r := by
  induction left generalizing ms with
  | zero =>
    rw [attempts] at h
    split at h
    · split_ifs at h <;> cases h
    · exact attempt_spec hf hexp h
  | succ left ih =>
    rw [attempts] at h
    split at h
    · rename_i hattempt
      split_ifs at h
      · exact ih (hf.suffix (attempt_suffix hattempt)) h
      · cases h
    · exact attempt_spec hf hexp h

/-- An attempt that loads and appends. -/
theorem attempt_of_append {events : List (NewEvent V)} {db' : Db} {rows : List AppendedRow}
    (hload : loadAggregate d codec streamUuid ms = some (.ok loaded, db, m :: rest))
    (hexec : d.execute loaded.state command = .ok events) (hne : events ≠ [])
    (happ : m.db.append m.now (commandArgs codec streamUuid o loaded m.ids (events.map (o.fill uuid))) =
      (.ok rows, db')) :
    attempt d codec streamUuid command o uuid ms =
      some (.ok ⟨rows, loaded, events.map (o.fill uuid), false⟩, db', rest) := by
  obtain ⟨e, es, rfl⟩ := List.exists_cons_of_ne_nil hne
  simp only [attempt, hload, hexec, happ]

theorem runCommandAndApply_of_ok
    (h : executeCommand d codec streamUuid command o uuid ms = some (.ok r, db, rest)) :
    runCommandAndApply d codec streamUuid command o uuid ms = some (.ok (r.ran d), db, rest) := by
  rw [runCommandAndApply, h]
  rfl

theorem attempts_of_ok {left : ℕ}
    (h : attempt d codec streamUuid command o uuid ms = some (.ok r, db, rest)) :
    attempts d codec streamUuid command o uuid left ms = some (.ok r, db, rest) := by
  cases left <;> rw [attempts, h]

/-- When the events survive, the fold in memory is the fold of what is read back. -/
theorem ReloadsRead.reloads (h : ReloadsRead d codec streamUuid db r)
    (hsurvive : ∀ e ∈ r.filled, Survives codec e) : Reloads d codec streamUuid db (r.ran d) := by
  refine ⟨h.returns, fun loaded hl => ⟨?_, h.version loaded hl⟩⟩
  rw [h.read loaded hl, h.state, List.map_congr_left fun e he => survives_iff.mp (hsurvive e he)]

end Command

/-! ## Every definition -/

/-- The events can be appended, as the command packs them. -/
def Appendable (codec : Codec S V) (events : List (NewEvent V)) : Prop :=
  ∃ (db : Db) (now : Timestamp) (streamUuid : String) (version : ℕ) (ids : ℕ → String)
    (o : RunCommandOptions) (uuid : String) (rows : List AppendedRow), db.Reachable ∧
      (db.append now (appendArgs codec streamUuid version ids (events.map (o.fill uuid)))).1 = .ok rows

/-- The same storage of event payloads, with another type of states. -/
def Codec.withState {T : Type} (codec : Codec S V) (stateToJson : T → Json)
    (jsonToState : Json → T) : Codec T V :=
  ⟨codec.stringify, codec.parse, stateToJson, jsonToState⟩

/-- Every command that returns these events, of every definition, on every stream and with every
    snapshot, under the default expected version and whatever others append meanwhile: what
    `runCommandAndApply` returned is what `loadAggregate` returns. -/
def FoldsAsReloaded (codec : Codec Unit V) (events : List (NewEvent V)) : Prop :=
  ∀ (S C : Type) (stateToJson : S → Json) (jsonToState : Json → S) (d : AggregateDefinition S C V)
    (streamUuid : String) (command : C) (o : RunCommandOptions) (uuid : String) (ms : List Moment)
    (r : ExecutedCommand S V) (db : Db) (rest : List Moment),
    o.expectedVersion = none → Follow streamUuid ms →
    executeCommand d (codec.withState stateToJson jsonToState) streamUuid command o uuid ms =
      some (.ok r, db, rest) →
    r.filled = events.map (o.fill uuid) → ∀ ran,
    runCommandAndApply d (codec.withState stateToJson jsonToState) streamUuid command o uuid ms =
      some (.ok ran, db, rest) →
      Reloads d (codec.withState stateToJson jsonToState) streamUuid db ran

section Definitions

variable {codec : Codec Unit V} {events : List (NewEvent V)}

@[simp] theorem fill_toDomain (o : RunCommandOptions) (uuid : String) (e : NewEvent V) :
    (o.fill uuid e).toDomain = e.toDomain := rfl

theorem Survives.fill {e : NewEvent V} {T : Type} {f : T → Json} {g : Json → T}
    (h : Survives codec e) (o : RunCommandOptions) (uuid : String) :
    Survives (codec.withState f g) (o.fill uuid e) := ⟨h.data, h.metadata⟩

/-- The history as the state. -/
def historyOf (events : List (NewEvent V)) (version : Option String) :
    AggregateDefinition (List (DomainEvent V)) Unit V where
  type := "history"
  initialState := []
  execute _ _ := .ok events
  apply s e := s ++ [e]
  snapshotPolicy := none
  snapshotModuleVersion := version

theorem foldl_history (xs ys : List (DomainEvent V)) :
    ys.foldl (fun s e => s ++ [e]) xs = xs ++ ys := by
  induction ys generalizing xs with
  | nil => simp
  | cons y ys ih => simp [ih]

/-- A version tag that the snapshot does not carry. -/
def otherVersion (version : Option String) : Option String :=
  match version with
  | none => some ""
  | some _ => none

theorem ne_otherVersion (version : Option String) : version ≠ otherVersion version := by
  cases version with
  | none => simp [otherVersion]
  | some v => simp [otherVersion]

/-- A command that appends the events and keeps the history. -/
theorem exists_history (codec : Codec (List (DomainEvent V)) V) (happ : Appendable codec events)
    (hne : events ≠ []) :
    ∃ (d : AggregateDefinition (List (DomainEvent V)) Unit V) (streamUuid : String)
      (o : RunCommandOptions) (uuid : String) (ms : List Moment) (db : Db)
      (r : ExecutedCommand (List (DomainEvent V)) V),
      d.apply = (fun s e => s ++ [e]) ∧ o.expectedVersion = none ∧ Follow streamUuid ms ∧
      executeCommand d codec streamUuid () o uuid ms = some (.ok r, db, []) ∧
      r.filled = events.map (o.fill uuid) := by
  obtain ⟨db, now, streamUuid, version, ids, o, uuid, rows, hdb, hrows⟩ := happ
  let o' : RunCommandOptions := { o with expectedVersion := none }
  let d := historyOf events (otherVersion
    ((db.store.snapshots.find? streamUuid).bind fun snap => readVersion snap.metadata))
  let m : Moment := ⟨db, now, ids⟩
  obtain ⟨new, hcall⟩ : ∃ new, appendCall now
      (appendArgs codec streamUuid version ids (events.map (o.fill uuid))) db.store.log = .ok new := by
    rcases hdb.consistent.append_cases now _ with ⟨new, hcall, -, -⟩ | ⟨e, herr, -⟩
    · exact ⟨new, hcall⟩
    · rw [hrows] at herr
      cases herr
  have hu : streamUuid ≠ "$all" := by
    obtain ⟨q, -, hq, -⟩ := appendCall_ok hcall
    have hqu := (validateAppend_ok hq).1
    rw [show streamUuid = q.streamUuid from Option.some.inj hqu]
    exact q.not_all
  have hbase : baseline d codec streamUuid db.store = .ok ⟨[], 0, 0⟩ := by
    unfold baseline Instructed.readSnapshot
    dsimp only
    cases hfind : db.store.snapshots.find? streamUuid with
    | none => rfl
    | some snap =>
      refine if_neg ?_
      show readVersion snap.metadata ≠ otherVersion ((db.store.snapshots.find? streamUuid).bind _)
      rw [hfind]
      exact ne_otherVersion _
  have hempty : onStream streamUuid m.db.store.log = [] →
      (⟨[], 0, 0⟩ : Loaded (List (DomainEvent V))).version = 0 := fun _ => rfl
  obtain ⟨n, final, hfinal⟩ := loadPages_returns d codec (m := m) hdb hu hempty
  have hms : ∀ m' ∈ m :: (List.replicate n m ++ [m]), m'.db = db := by
    intro m' hm'
    have heq : m' = m := by
      rcases List.mem_cons.mp hm' with heq | hm'
      · exact heq
      · rcases List.mem_append.mp hm' with hm' | hm'
        · exact List.eq_of_mem_replicate hm'
        · exact List.mem_singleton.mp hm'
    rw [heq]
  have hload : loadAggregate d codec streamUuid (m :: (List.replicate n m ++ [m])) =
      some (.ok final, db, [m]) := by
    simp only [loadAggregate, m, hbase]
    exact hfinal [m]
  have hversion : final.version = version := by
    obtain ⟨_, _, base, -, hm, hb, hat⟩ := loadAggregate_spec (.const hdb hms) hload
    obtain rfl := Except.ok.inj (hbase.symm.trans hb)
    rw [hat.version, (append_filled codec hcall).1]
    exact Nat.zero_max _
  have happend : db.append now (commandArgs codec streamUuid o' final ids (events.map (o'.fill uuid))) =
      (.ok rows, (db.append now (appendArgs codec streamUuid version ids
        (events.map (o.fill uuid)))).2) := by
    rw [← hrows, ← hversion]
    rfl
  exact ⟨d, streamUuid, o', uuid, _, _, _, rfl, rfl, .const hdb hms,
    attempts_of_ok (attempt_of_append hload rfl hne happend), rfl⟩

/-- **When the state after a command is what a load returns**, for every definition: when every event
    carries its metadata, and storage gives its data and metadata back unchanged. -/
theorem foldsAsReloaded_iff (codec : Codec Unit V) (events : List (NewEvent V)) :
    FoldsAsReloaded codec events ↔ (Appendable codec events → ∀ e ∈ events, Survives codec e) := by
  constructor
  · intro h happ e he
    have hne : events ≠ [] := List.ne_nil_of_mem he
    let codec' : Codec (List (DomainEvent V)) V := codec.withState (fun _ => .null) (fun _ => [])
    obtain ⟨d, streamUuid, o, uuid, ms, db, r, happly, hexp, hf, hrun, hfilled⟩ :=
      exists_history codec' happ hne
    have hread : ReloadsRead d codec' streamUuid db r := attempts_spec hf hexp hrun
    have hsame := h _ _ _ _ d streamUuid () o uuid ms r db [] hexp hf hrun hfilled _
      (runCommandAndApply_of_ok hrun)
    obtain ⟨loaded, hloaded⟩ := hread.returns
    have heq := (hread.read loaded hloaded).symm.trans
      ((hsame.same loaded hloaded).1.trans hread.state)
    rw [happly, foldl_history, foldl_history] at heq
    have hmap := List.append_cancel_left heq
    rw [hfilled, List.map_map, List.map_map] at hmap
    exact survives_iff.mpr (List.map_inj_left.mp hmap e he)
  · intro h S C f g d streamUuid command o uuid ms r db rest hexp hf hrun hfilled ran hran
    have hread : ReloadsRead d (codec.withState f g) streamUuid db r := attempts_spec hf hexp hrun
    have hsome := hran.symm.trans (runCommandAndApply_of_ok hrun)
    obtain rfl : ran = r.ran d := Except.ok.inj (congrArg Prod.fst (Option.some.inj hsome))
    refine hread.reloads fun e he => ?_
    rw [hfilled] at he
    obtain ⟨e, hmem, rfl⟩ := List.mem_map.mp he
    have happ : Appendable codec events := by
      rcases hread.stored with hnil | ⟨m, version, rows, hdb, hrows⟩
      · rw [hfilled] at hnil
        rw [List.map_eq_nil_iff.mp hnil] at hmem
        cases hmem
      · rw [hfilled] at hrows
        exact ⟨m.db, m.now, streamUuid, version, m.ids, o, uuid, rows, hdb, hrows⟩
    exact (h happ e hmem).fill o uuid

/-- JSON payloads that storage leaves as they are. -/
def plainCodec : Codec Unit Json where
  stringify := id
  parse j := j.getD .null
  stateToJson _ := .null
  jsonToState _ := ()

/-- The state counts the events without metadata; the command opens the account, and leaves the
    metadata out. -/
def withoutMetadata : AggregateDefinition ℕ Unit Json where
  type := "account"
  initialState := 0
  execute _ _ :=
    .ok [⟨some "cccccccc-cccc-cccc-cccc-cccccccccccc", "opened", .null, none, none, none⟩]
  apply n e := if e.metadata.isNone then n + 1 else n
  snapshotPolicy := none
  snapshotModuleVersion := none

/-- On a fresh install the command returns the state 1 for the stream that loads as 0. -/
theorem foldsAsReloaded_fails : ∃ (codec : Codec ℕ Json) (events : List (NewEvent Json))
    (r : RanCommand ℕ) (db : Db),
    withoutMetadata.execute 0 () = .ok events ∧
    runCommandAndApply withoutMetadata codec "account-1" ()
      ⟨none, none, some "dddddddd-dddd-dddd-dddd-dddddddddddd", none, none⟩ ""
      (List.replicate 3 ⟨Db.install, 10, fun _ => ""⟩) = some (.ok r, db, []) ∧
    r.state = 1 ∧
    (∃ loaded, Loads withoutMetadata codec "account-1" db loaded) ∧
    (∀ loaded, Loads withoutMetadata codec "account-1" db loaded → loaded.state = 0) ∧
    ¬ FoldsAsReloaded plainCodec events := by
  let codec : Codec ℕ Json := plainCodec.withState (fun n => .int n) (fun _ => 0)
  let o : RunCommandOptions :=
    ⟨none, none, some "dddddddd-dddd-dddd-dddd-dddddddddddd", none, none⟩
  let ms : List Moment := List.replicate 3 ⟨Db.install, 10, fun _ => ""⟩
  have hrun : ((executeCommand withoutMetadata codec "account-1" () o "" ms).bind fun x =>
      x.1.toOption.map fun r => ((r.ran withoutMetadata).state, r.loaded.state, x.2.2.length)) =
        some (1, 0, 0) := by decide +kernel
  obtain ⟨⟨x, db, rest⟩, hx, heq⟩ := Option.bind_eq_some_iff.mp hrun
  obtain ⟨r, hr, heq⟩ := Option.map_eq_some_iff.mp heq
  obtain ⟨hstate, hloaded, hrest⟩ := by simpa only [Prod.mk.injEq] using heq
  obtain rfl := toOption_eq_some hr
  obtain rfl := List.eq_nil_of_length_eq_zero hrest
  have hf : Follow "account-1" ms := .const .install fun m hm => by rw [List.eq_of_mem_replicate hm]
  have hread : ReloadsRead withoutMetadata codec "account-1" db r := attempts_spec hf rfl hx
  have hzero : ∀ loaded, Loads withoutMetadata codec "account-1" db loaded → loaded.state = 0 := by
    intro loaded h
    rw [hread.read loaded h, hloaded, List.foldl_map]
    exact List.foldl_fixed' (fun e => rfl) _
  refine ⟨codec, _, r.ran _, db, rfl, runCommandAndApply_of_ok hx, hstate, hread.returns, hzero, fun h => ?_⟩
  obtain ⟨loaded, hl⟩ := hread.returns
  obtain ⟨events, hevents, hfilled⟩ := attempts_filled hx
  obtain rfl := Except.ok.inj hevents
  have hsame := (h ℕ Unit _ _ withoutMetadata "account-1" () o "" ms r db [] rfl hf hx hfilled _
    (runCommandAndApply_of_ok hx)).same loaded hl
  rw [hzero loaded hl, hstate] at hsame
  cases hsame.1

end Definitions

end Instructed.Aggregate
