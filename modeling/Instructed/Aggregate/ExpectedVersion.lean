import Instructed.Aggregate.Serializable

/-!
# `runCommandWithSnapshots` under an explicit `expectedVersion`

A caller may pass `expectedVersion` with a command (`RunCommandOptions`, run-command.ts). The append
is then made under that version and not under the loaded one, and a mismatch is not retried
(run-command.ts:331–356). The state that is snapshotted is still the loaded state with the command's
own events folded onto it, while its version is the one that the append returns.

* `Session`, `snapshotStep`: the clients of `RunCommand`, each with its own `expectedVersion`;
* `Fits`: the step does not snapshot a state that the stream has overtaken;
* `snapshotsSound_fails`: a snapshot under `any` that lacks an event of its stream;
* `snapshotsSound`: **in runs that fit, every snapshot is the fold of its events, and every load ends
  with the fold of the whole stream.**
-/

namespace Instructed.Aggregate

open Sql Relational Transition Numbering

/-- `ExpectedVersion` of the SDK (types/expected-version.ts). -/
inductive Expected where
  | any
  | noStream
  | streamExists
  | exact (version : ℤ)
  deriving DecidableEq, Repr

/-- The type that `expectedVersionParams` sends. -/
def Expected.type : Expected → String
  | .any => "any"
  | .noStream => "no_stream"
  | .streamExists => "stream_exists"
  | .exact _ => "exact"

/-- The version that `expectedVersionParams` sends. -/
def Expected.version? : Expected → Option ℤ
  | .exact version => some version
  | .any | .noStream | .streamExists => none

variable {ι δ S C V : Type}

/-- A command in progress with the `expectedVersion` it was given, and its next call. -/
structure Session (δ S C V : Type) where
  run : Run δ C
  explicitExpected : Option Expected
  pc : Pc S V

section Client

variable (D : Deployment δ S C V) (streamUuid : String)

/-- `explicitExpected ?? ev.exact(loaded.version)`. -/
def expectedOf (explicitExpected : Option Expected) (loaded : Loaded S) : Expected :=
  explicitExpected.getD (.exact loaded.version)

/-- `client.appendToStream(streamUuid, expectedVersion, filled)`. -/
def appendArgsAt (explicitExpected : Option Expected) (loaded : Loaded S) (ids : ℕ → String)
    (filled : List (NewEvent V)) : AppendArgs :=
  { appendArgs D.codec streamUuid loaded.version ids filled with
    expectedVersionType := some (expectedOf explicitExpected loaded).type
    expectedVersion := (expectedOf explicitExpected loaded).version? }

/-- The `catch` of `executeCommand` begins the next attempt only when no version was given; the
    snapshot read is the first call of an attempt. -/
def Next.rethrow (explicitExpected : Option Expected) : Next δ S C V → Next δ S C V
  | .call run .readSnapshot =>
    if explicitExpected.isSome then .finish run .threw else .call run .readSnapshot
  | next => next

end Client

/-- The database and the clients. -/
structure SnapshotWorld (ι δ S C V : Type) where
  db : Db
  session : ι → Option (Session δ S C V)
  started : ℕ

/-- What happens next. -/
inductive SnapshotOp (ι δ C : Type) where
  /-- A client calls `runCommandWithSnapshots`, or `runCommand`. -/
  | start (i : ι) (definition : δ) (command : C) (explicitExpected : Option Expected)
      (retryBudget : ℕ) (causationDefault : String) (correlationId : Option String)
      (withSnapshots : Bool)
  /-- A client's next call runs, at the given time; `ids` are fresh event ids. -/
  | call (i : ι) (now : Timestamp) (ids : ℕ → String)
  /-- A client's next call fails without having run. -/
  | fail (i : ι)
  /-- Another writer appends, to this stream or to another. -/
  | append (now : Timestamp) (a : AppendArgs)
  | deleteSnapshot (sourceUuid : String)
  /-- Another writer records a snapshot under another key. -/
  | recordSnapshot (now : Timestamp) (sourceUuid sourceType : String) (sourceVersion : ℤ)
      (data : Json) (metadata : Option Json)

section System

variable [DecidableEq ι] (D : Deployment δ S C V) (streamUuid : String)

def SnapshotWorld.install : SnapshotWorld ι δ S C V := ⟨Db.install, fun _ => none, 0⟩

variable (w : SnapshotWorld ι δ S C V)

/-- Client `i` goes on as its code decides. -/
def SnapshotWorld.next (i : ι) (explicitExpected : Option Expected) :
    Next δ S C V → SnapshotWorld ι δ S C V
  | .call run pc =>
    { w with session := Function.update w.session i (some ⟨run, explicitExpected, pc⟩) }
  | .finish _ _ => { w with session := Function.update w.session i none }

def SnapshotWorld.setStore (st : Store) : SnapshotWorld ι δ S C V :=
  { w with db := { w.db with store := st } }

/-- The pending call of client `i`. -/
def SnapshotWorld.call (i : ι) (now : Timestamp) (ids : ℕ → String) (s : Session δ S C V) :
    SnapshotWorld ι δ S C V :=
  match s.pc with
  | .readSnapshot =>
    w.next i s.explicitExpected (readSnapshotCall D streamUuid s.run w.db.store)
  | .readPage loaded =>
    w.next i s.explicitExpected
      ((readPageCall D streamUuid s.run loaded w.db.store).rethrow s.explicitExpected)
  | .append loaded filled =>
    let a := appendArgsAt D streamUuid s.explicitExpected loaded ids filled
    ({ w with db := (w.db.append now a).2 }).next i s.explicitExpected <|
      match (w.db.append now a).1 with
      | .ok rows => afterAppend D s.run loaded filled rows
      | .error e => (afterAppendError s.run e).rethrow s.explicitExpected
  | .recordSnapshot rows state version =>
    (w.setStore (recordSnapshotCall D streamUuid now s.run state version w.db.store)).next i
      s.explicitExpected (.finish s.run (.appended rows))

/-- One step. -/
def snapshotStep : SnapshotOp ι δ C → Option (SnapshotWorld ι δ S C V)
  | .start i definition command explicitExpected retryBudget causationDefault correlationId
      withSnapshots =>
    match w.session i with
    | none => some { w with
        session := Function.update w.session i (some ⟨⟨w.started, definition, command, retryBudget,
          causationDefault, correlationId, withSnapshots, 1⟩, explicitExpected, .readSnapshot⟩)
        started := w.started + 1 }
    | some _ => none
  | .call i now ids => (w.session i).map fun s => w.call D streamUuid i now ids s
  | .fail i =>
    match w.session i with
    | some _ => some { w with session := Function.update w.session i none }
    | none => none
  | .append now a => some { w with db := (w.db.append now a).2 }
  | .deleteSnapshot sourceUuid =>
    match Instructed.deleteSnapshot (some sourceUuid) w.db.store with
    | .ok st => some (w.setStore st)
    | .error _ => some w
  | .recordSnapshot now sourceUuid sourceType sourceVersion data metadata =>
    if sourceUuid = streamUuid then none
    else match Instructed.recordSnapshot now (some sourceUuid) (some sourceType)
      (some sourceVersion) (some data) metadata w.db.store with
    | .ok st => some (w.setStore st)
    | .error _ => some w

/-- Clients of the deployment `D` and the stream `streamUuid`, on a fresh install. -/
def snapshotSystem : System (SnapshotWorld ι δ S C V) (SnapshotOp ι δ C) where
  init w := w = SnapshotWorld.install
  step := snapshotStep D streamUuid

/-! ## Sound snapshots -/

/-- What `loadAggregate` returns when the page it now reads is the last one. -/
def lastPage (run : Run δ C) (loaded : Loaded S) (st : Store) : Option (Loaded S) :=
  match readStream (some streamUuid) (some (loaded.version + 1 : ℕ)) (some loadPageSize) st with
  | .ok page =>
    if page.length < loadPageSize then some (foldPage (run.def D) D.codec loaded page) else none
  | .error e => if e.sqlstate = .IS003 ∧ loaded.version = 0 then some loaded else none

/-- A stored snapshot of source version `v` is the fold of the stored events `1..v`, for every
    definition that would use it, and so is one that is about to be stored. Every load ends with the
    fold of all events of the stream, whichever snapshot it began with. -/
structure SnapshotsSound : Prop where
  stored : SnapshotOk D streamUuid w.db.store
  recorded : ∀ i s rows state version, w.session i = some s →
    s.pc = .recordSnapshot rows state version →
      StateAt D streamUuid (s.run.def D) w.db.store.log state version
  loaded : ∀ i s loaded final, w.session i = some s → s.pc = .readPage loaded →
    lastPage D streamUuid s.run loaded w.db.store = some final →
      final.version = (onStream streamUuid w.db.store.log).length ∧
        final.state = foldEvents D.codec (s.run.def D) (onStream streamUuid w.db.store.log)

/-- What a client does after an append under `explicitExpected` to a stream of that length. It asks for
    a snapshot only when the append was under the default version or `no_stream`, or else when the
    stream was still at the version that it had loaded. -/
def Next.Fits (explicitExpected : Option Expected) (length : ℕ) (loaded : Loaded S) :
    Next δ S C V → Prop
  | .call _ (.recordSnapshot ..) =>
    explicitExpected = none ∨ explicitExpected = some .noStream ∨ length = loaded.version
  | _ => True

/-- The call does not append after events that the client has not loaded, to snapshot a state without
    them. -/
def Pc.Fits (run : Run δ C) (explicitExpected : Option Expected) (db : Db) (now : Timestamp)
    (ids : ℕ → String) : Pc S V → Prop
  | .append loaded filled =>
    ∀ rows ∈ (db.append now
        (appendArgsAt D streamUuid explicitExpected loaded ids filled)).1.toOption,
      (afterAppend D run loaded filled rows).Fits explicitExpected
        (onStream streamUuid db.store.log).length loaded
  | _ => True

def Fits : SnapshotOp ι δ C → Prop
  | .call i now ids => ∀ s ∈ w.session i,
      s.pc.Fits D streamUuid s.run s.explicitExpected w.db now ids
  | _ => True

end System

/-! ## The invariant -/

section Invariant

variable (D : Deployment δ S C V) (streamUuid : String)

structure SnapshotWorld.Inv (w : SnapshotWorld ι δ S C V) : Prop where
  consistent : w.db.Consistent
  snapshot : SnapshotOk D streamUuid w.db.store
  session : ∀ i s, w.session i = some s → s.pc.Ok D streamUuid w.db.store.log s.run

/-- What a client decides between two calls. -/
def Next.Good (log : List RecordedEvent) : Next δ S C V → Prop
  | .call run pc => pc.Ok D streamUuid log run
  | .finish _ _ => True

end Invariant

variable {D : Deployment δ S C V} {streamUuid : String} {log : List RecordedEvent} {run : Run δ C}
  {loaded : Loaded S}

theorem Next.Ok.good {n : ℕ} {ws : List (Write δ S C)} {next : Next δ S C V}
    (h : next.Ok D streamUuid log n ws) : next.Good D streamUuid log := by
  cases next with
  | call run pc => exact h.2.1
  | finish run outcome => trivial

theorem Next.Good.rethrow {next : Next δ S C V} (h : next.Good D streamUuid log)
    (explicitExpected : Option Expected) : (next.rethrow explicitExpected).Good D streamUuid log := by
  unfold Next.rethrow
  split
  · split_ifs <;> trivial
  · exact h

/-- After an append the client asks for a snapshot or is done. -/
theorem afterAppend_cases (run : Run δ C) (loaded : Loaded S) (filled : List (NewEvent V))
    (rows : List AppendedRow) :
    (∃ state version, afterAppend D run loaded filled rows =
      .call run (.recordSnapshot rows state version)) ∨
    afterAppend D run loaded filled rows = .finish run (.appended rows) := by
  unfold afterAppend
  dsimp only
  split
  · split_ifs
    · exact Or.inl ⟨_, _, rfl⟩
    · exact Or.inr rfl
  · exact Or.inr rfl

/-- A `no_stream` append finds no stream. -/
theorem append_noStream {a : AppendArgs} {u : String} {now : Timestamp} {new : List RecordedEvent}
    (hu : a.streamUuid = some u)
    (hexp : expectedVersionOf a.expectedVersionType a.expectedVersion = .ok .noStream)
    (h : appendCall now a log = .ok new) : onStream u log = [] := by
  obtain ⟨r, es, hr, hcheck, -, -, -⟩ := appendCall_ok h
  obtain ⟨hru, hrexp, -⟩ := validateAppend_ok hr
  obtain rfl := Option.some.inj (hru.symm.trans hu)
  have hno := Except.ok.inj (hrexp.symm.trans hexp)
  rw [hno, checkExpected] at hcheck
  split_ifs at hcheck with hnil
  · exact hnil
  · cases hcheck

/-- An append that fits finds the stream at the loaded version, when it is followed by a snapshot. -/
theorem length_of_fits {explicitExpected : Option Expected} {filled : List (NewEvent V)}
    {now : Timestamp} {ids : ℕ → String} {new : List RecordedEvent}
    (hstate : StateAt D streamUuid (run.def D) log loaded.state loaded.version)
    (happend : appendCall now (appendArgsAt D streamUuid explicitExpected loaded ids filled) log =
      .ok new)
    (hfits : explicitExpected = none ∨ explicitExpected = some .noStream ∨
      (onStream streamUuid log).length = loaded.version) :
    (onStream streamUuid log).length = loaded.version := by
  rcases hfits with rfl | rfl | hlen
  · exact append_exact rfl
      (by simp [appendArgsAt, expectedOf, Expected.type, Expected.version?, expectedVersionOf]) happend
  · have hnil := append_noStream (u := streamUuid) rfl
      (by simp [appendArgsAt, expectedOf, Expected.type, expectedVersionOf]) happend
    have hle := hstate.version_le
    rw [hnil, List.length_nil] at hle ⊢
    omega
  · exact hlen

section Step

variable {w w' : SnapshotWorld ι δ S C V} {i : ι} {s : Session δ S C V}

theorem SnapshotWorld.Inv.setDb (h : w.Inv D streamUuid) {db : Db} (hc : db.Consistent)
    (hs : SnapshotOk D streamUuid db.store) (hlog : w.db.store.log <+: db.store.log) :
    ({ w with db := db } : SnapshotWorld ι δ S C V).Inv D streamUuid :=
  ⟨hc, hs, fun i s hi => (h.session i s hi).mono hlog⟩

theorem SnapshotWorld.Inv.setStore (h : w.Inv D streamUuid) {st : Store}
    (hsame : w.db.store.SameEvents st) (hs : SnapshotOk D streamUuid st) :
    (w.setStore st).Inv D streamUuid := by
  refine h.setDb ⟨hsame.consistent h.consistent.store, h.consistent.seq_pos, ?_⟩ hs ?_
  · intro r hr
    exact h.consistent.seq r (hsame.streams ▸ hr)
  · rw [hsame.log]

theorem SnapshotWorld.Inv.append (h : w.Inv D streamUuid) (now : Timestamp) (a : AppendArgs) :
    ({ w with db := (w.db.append now a).2 } : SnapshotWorld ι δ S C V).Inv D streamUuid := by
  have hlog : w.db.store.log <+: (w.db.append now a).2.store.log := by
    rcases h.consistent.append_cases now a with ⟨new, -, -, hlog⟩ | ⟨e, -, hlog⟩
    · exact hlog ▸ List.prefix_append ..
    · exact hlog ▸ List.prefix_rfl
  have hsnap : (w.db.append now a).2.store.snapshots = w.db.store.snapshots :=
    (h.consistent.append_refines (now, a)).2.2.1
  exact h.setDb (h.consistent.append now a) (h.snapshot.of_eq (by rw [hsnap]) hlog) hlog

variable [DecidableEq ι]

theorem SnapshotWorld.Inv.next (h : w.Inv D streamUuid) {next : Next δ S C V}
    (hn : next.Good D streamUuid w.db.store.log) (explicitExpected : Option Expected) :
    (w.next i explicitExpected next).Inv D streamUuid := by
  cases next with
  | call run pc =>
    refine ⟨h.consistent, h.snapshot, fun j s hj => ?_⟩
    by_cases hji : j = i
    · simp only [SnapshotWorld.next, hji, Function.update_self, Option.some.injEq] at hj
      subst hj
      exact hn
    · simp only [SnapshotWorld.next, Function.update_of_ne hji] at hj
      exact h.session j s hj
  | finish run outcome =>
    refine ⟨h.consistent, h.snapshot, fun j s hj => ?_⟩
    by_cases hji : j = i
    · simp [SnapshotWorld.next, hji] at hj
    · simp only [SnapshotWorld.next, Function.update_of_ne hji] at hj
      exact h.session j s hj

/-- The append of a command that fits. -/
theorem SnapshotWorld.Inv.callAppend (h : w.Inv D streamUuid) {filled : List (NewEvent V)}
    (hi : w.session i = some s) (hpc : s.pc = .append loaded filled) {now : Timestamp}
    {ids : ℕ → String}
    (hfits : s.pc.Fits D streamUuid s.run s.explicitExpected w.db now ids) :
    (w.call D streamUuid i now ids s).Inv D streamUuid := by
  have hok := h.session i s hi
  rw [hpc] at hok
  obtain ⟨hstate, -⟩ := hok
  simp only [SnapshotWorld.call, hpc]
  apply (h.append now _).next
  rw [hpc, Pc.Fits] at hfits
  rcases h.consistent.append_cases now (appendArgsAt D streamUuid s.explicitExpected loaded ids filled)
    with ⟨new, hnew, hok, hlog⟩ | ⟨e, herr, hlog⟩
  · have hfits := hfits (new.map RecordedEvent.toAppendedRow) (by rw [hok]; rfl)
    simp only [hok]
    rw [hlog]
    rcases afterAppend_cases (D := D) s.run loaded filled (new.map RecordedEvent.toAppendedRow) with
      ⟨state, version, hnext⟩ | hnext
    · rw [hnext] at hfits
      have hlen := length_of_fits hstate hnew hfits
      obtain ⟨hne, hstream, hver, hmap⟩ := append_packed D.codec rfl rfl hnew
      rw [hlen] at hver
      exact (afterAppend_ok (hstate.appended hlen hstream hmap) hne hver loaded.state).good
    · rw [hnext]
      trivial
  · simp only [herr]
    rw [hlog]
    exact (afterAppendError_ok s.run e).good.rethrow _

theorem SnapshotWorld.Inv.call (h : w.Inv D streamUuid) (hi : w.session i = some s)
    {now : Timestamp} {ids : ℕ → String}
    (hfits : s.pc.Fits D streamUuid s.run s.explicitExpected w.db now ids) :
    (w.call D streamUuid i now ids s).Inv D streamUuid := by
  have hok := h.session i s hi
  cases hpc : s.pc with
  | readSnapshot =>
    simp only [SnapshotWorld.call, hpc]
    exact h.next (readSnapshotCall_ok s.run h.snapshot).good _
  | readPage loaded =>
    simp only [SnapshotWorld.call, hpc]
    rw [hpc] at hok
    exact h.next ((readPageCall_ok h.consistent.store hok).good.rethrow _) _
  | append loaded filled => exact h.callAppend hi hpc hfits
  | recordSnapshot rows state version =>
    simp only [SnapshotWorld.call, hpc]
    rw [hpc] at hok
    have hsame : w.db.store.SameEvents (recordSnapshotCall D streamUuid now s.run state version
        w.db.store) := sameEvents_recordSnapshotCall ..
    have hstore := h.setStore hsame (recordSnapshotCall_ok h.snapshot hok)
    have hgood : ∀ log, (Next.finish s.run (.appended rows) : Next δ S C V).Good D streamUuid log :=
      fun _ => trivial
    exact hstore.next (hgood _) _

/-- **Every step that fits keeps the invariant.** -/
theorem SnapshotWorld.Inv.step (h : w.Inv D streamUuid) {op : SnapshotOp ι δ C}
    (hfits : Fits D streamUuid w op) (hstep : snapshotStep D streamUuid w op = some w') :
    w'.Inv D streamUuid := by
  cases op with
  | start i definition command explicitExpected retryBudget causationDefault correlationId
      withSnapshots =>
    simp only [snapshotStep] at hstep
    split at hstep
    · obtain rfl := Option.some.inj hstep
      have hgood : (Next.call ⟨w.started, definition, command, retryBudget, causationDefault,
          correlationId, withSnapshots, 1⟩ .readSnapshot : Next δ S C V).Good D streamUuid
            w.db.store.log := trivial
      have hnext := h.next (i := i) hgood explicitExpected
      exact ⟨hnext.consistent, hnext.snapshot, hnext.session⟩
    · cases hstep
  | call i now ids =>
    obtain ⟨s, hi, rfl⟩ := Option.map_eq_some_iff.mp hstep
    exact h.call hi (hfits s hi)
  | fail i =>
    simp only [snapshotStep] at hstep
    split at hstep
    · rename_i s hi
      obtain rfl := Option.some.inj hstep
      have hgood : (Next.finish s.run .threw : Next δ S C V).Good D streamUuid w.db.store.log := trivial
      exact h.next hgood s.explicitExpected
    · cases hstep
  | append now a =>
    obtain rfl := Option.some.inj hstep
    exact h.append now a
  | deleteSnapshot sourceUuid =>
    obtain rfl := Option.some.inj hstep
    refine h.setStore ⟨rfl, rfl, rfl⟩ fun row hrow => h.snapshot row ?_
    rw [Table.find?_deleteWhere, Option.filter_eq_some_iff] at hrow
    exact hrow.1
  | recordSnapshot now sourceUuid sourceType sourceVersion data metadata =>
    simp only [snapshotStep] at hstep
    split_ifs at hstep with hu
    split at hstep
    · rename_i st hst
      obtain rfl := Option.some.inj hstep
      obtain ⟨u, t, v, d, hu', -, -, -, -, rfl⟩ := recordSnapshot_ok hst
      cases hu'
      have hsame := sameEvents_upsertSnapshot now sourceUuid t v.toNat d metadata w.db.store
      refine h.setStore hsame (h.snapshot.of_eq ?_ (by rw [hsame.log]))
      rw [upsertSnapshot, Table.find?_put, if_neg hu]
    · obtain rfl := Option.some.inj hstep
      exact h

end Step

theorem SnapshotWorld.Inv.install :
    (SnapshotWorld.install : SnapshotWorld ι δ S C V).Inv D streamUuid where
  consistent := Db.install_consistent
  snapshot := fun _ hrow => nomatch hrow
  session := fun _ _ hi => nomatch hi

/-! ## The result -/

/-- The last page completes the fold of the stream. -/
theorem lastPage_eq {st : Store} {final : Loaded S} (hc : st.Consistent)
    (h : StateAt D streamUuid (run.def D) st.log loaded.state loaded.version)
    (hlast : lastPage D streamUuid run loaded st = some final) :
    final.version = (onStream streamUuid st.log).length ∧
      final.state = foldEvents D.codec (run.def D) (onStream streamUuid st.log) := by
  have hdone : StateAt D streamUuid (run.def D) st.log final.state final.version ∧
      (onStream streamUuid st.log).length = final.version := by
    unfold lastPage at hlast
    by_cases hu : streamUuid = "$all"
    · simp [readStream, hu, raise] at hlast
    rw [readStream_eq hc hu (show 0 < loadPageSize from Nat.succ_pos _)] at hlast
    split_ifs at hlast with hnil
    · simp only [raise] at hlast
      split_ifs at hlast with hzero
      obtain rfl := Option.some.inj hlast
      exact ⟨h, by rw [hnil, hzero.2, List.length_nil]⟩
    · dsimp only at hlast
      rw [Nat.add_sub_cancel] at hlast
      split_ifs at hlast with hshort
      obtain rfl := Option.some.inj hlast
      have hpage := h.foldPage hc.log_numbered loadPageSize
      refine ⟨hpage, ?_⟩
      have hnum := ((hc.log_numbered.streamVersion streamUuid).drop h.version_le).take loadPageSize
      rw [Nat.add_comm] at hnum
      rw [(foldPage_eq D.codec (run.def D) hnum).1]
      have hle := h.version_le
      rw [List.length_take, List.length_drop] at hshort ⊢
      omega
  exact ⟨hdone.2.symm, hdone.1.of_length hdone.2⟩

/-- A load that has read its last page goes on to `execute` with what `lastPage` returns. -/
theorem readPageCall_of_lastPage {st : Store} {final : Loaded S}
    (h : lastPage D streamUuid run loaded st = some final) :
    readPageCall D streamUuid run loaded st = afterLoad D run final := by
  unfold lastPage at h
  unfold readPageCall
  cases hread : readStream (some streamUuid) (some (loaded.version + 1 : ℕ)) (some loadPageSize) st with
  | ok page =>
    rw [hread] at h
    dsimp only at h ⊢
    split_ifs at h with hshort
    obtain rfl := Option.some.inj h
    exact if_pos hshort
  | error e =>
    rw [hread] at h
    dsimp only at h ⊢
    split_ifs at h with hzero
    obtain rfl := Option.some.inj h
    exact if_pos hzero

section Result

variable [DecidableEq ι]

/-- **Snapshots are sound under every `expectedVersion`, while no command snapshots a state that the
    stream has overtaken.** -/
theorem snapshotsSound {w : SnapshotWorld ι δ S C V}
    (hw : ReachableWhen (snapshotSystem D streamUuid) (Fits D streamUuid) w) :
    SnapshotsSound D streamUuid w := by
  have hinv : w.Inv D streamUuid := by
    refine hw.invariant ?_ fun _ _ _ h hC hs => h.step hC hs
    rintro _ rfl
    exact SnapshotWorld.Inv.install
  refine ⟨hinv.snapshot, ?_, ?_⟩
  · intro i s rows state version hi hpc
    have hok := hinv.session i s hi
    rw [hpc] at hok
    exact hok
  · intro i s loaded final hi hpc hlast
    have hok := hinv.session i s hi
    rw [hpc] at hok
    exact lastPage_eq hinv.consistent.store hok hlast

instance (explicitExpected : Option Expected) (length : ℕ) (loaded : Loaded S)
    (next : Next δ S C V) : Decidable (next.Fits explicitExpected length loaded) :=
  match next with
  | .call _ (.recordSnapshot ..) => inferInstanceAs (Decidable
      (explicitExpected = none ∨ explicitExpected = some .noStream ∨ length = loaded.version))
  | .call _ .readSnapshot | .call _ (.readPage _) | .call _ (.append ..) | .finish .. =>
    isTrue trivial

instance (run : Run δ C) (explicitExpected : Option Expected) (db : Db) (now : Timestamp)
    (ids : ℕ → String) (pc : Pc S V) :
    Decidable (pc.Fits D streamUuid run explicitExpected db now ids) :=
  match pc with
  | .append loaded filled => inferInstanceAs (Decidable (∀ rows ∈ (db.append now
        (appendArgsAt D streamUuid explicitExpected loaded ids filled)).1.toOption,
      (afterAppend D run loaded filled rows).Fits explicitExpected
        (onStream streamUuid db.store.log).length loaded))
  | .readSnapshot | .readPage _ | .recordSnapshot .. => isTrue trivial

instance (w : SnapshotWorld ι δ S C V) (op : SnapshotOp ι δ C) :
    Decidable (Fits D streamUuid w op) :=
  match op with
  | .call i now ids => inferInstanceAs (Decidable (∀ s ∈ w.session i,
      s.pc.Fits D streamUuid s.run s.explicitExpected w.db now ids))
  | .start .. | .fail _ | .append .. | .deleteSnapshot _ | .recordSnapshot .. => isTrue trivial

/-- Two commands, each under an explicit version that it has loaded. -/
def currentRun : List (SnapshotOp Bool Unit String) :=
  let call (i : Bool) : SnapshotOp Bool Unit String := .call i 10 fun _ => ""
  [.start true () "00000000-0000-0000-0000-000000000001" (some .any) 5 "" none true,
   call true, call true, call true, call true,
   .start false () "00000000-0000-0000-0000-000000000002" (some (.exact 1)) 5 "" none true,
   call false, call false, call false, call false]

theorem snapshotsSound_currentRun : ∃ w,
    (snapshotSystem counter "counter-1").runWhen (Fits counter "counter-1")
      SnapshotWorld.install currentRun = some w ∧
    (w.db.store.snapshots.find? "counter-1").map (·.sourceVersion) = some 2 ∧
    SnapshotsSound counter "counter-1" w := by
  have hrun : ((snapshotSystem counter "counter-1").runWhen (Fits counter "counter-1")
      SnapshotWorld.install currentRun).map (fun w =>
        (w.db.store.snapshots.find? "counter-1").map (·.sourceVersion)) = some (some 2) := by
    decide +kernel
  obtain ⟨w, hw, hversion⟩ := Option.map_eq_some_iff.mp hrun
  exact ⟨w, hw, hversion, snapshotsSound (.runWhen (.init rfl) hw)⟩

/-- A command under `any` appends behind an event that it has not loaded. -/
def overtakenRun : List (SnapshotOp Bool Unit String) :=
  let call (i : Bool) : SnapshotOp Bool Unit String := .call i 10 fun _ => ""
  [.start true () "00000000-0000-0000-0000-000000000001" (some .any) 5 "" none true,
   call true, call true,
   .start false () "00000000-0000-0000-0000-000000000002" none 5 "" none true,
   call false, call false, call false,
   call true, call true]

/-- The counter is at version 2, and its snapshot says 1. -/
theorem snapshotsSound_fails : ∃ w,
    (snapshotSystem counter "counter-1").run SnapshotWorld.install overtakenRun = some w ∧
    ¬ SnapshotsSound counter "counter-1" w := by
  have hrun : ((snapshotSystem counter "counter-1").run SnapshotWorld.install overtakenRun).map
      (fun w => ((w.db.store.snapshots.find? "counter-1").map fun row =>
        (readVersion row.metadata, row.sourceVersion, counter.codec.jsonToState row.data),
        foldEvents counter.codec (counter.definition ())
          ((onStream "counter-1" w.db.store.log).take 2))) = some (some (none, 2, 1), 2) := by
    decide +kernel
  obtain ⟨w, hw, heq⟩ := Option.map_eq_some_iff.mp hrun
  obtain ⟨hsnap, hfold⟩ := Prod.mk.inj heq
  obtain ⟨row, hrow, heq⟩ := Option.map_eq_some_iff.mp hsnap
  obtain ⟨htag, heq⟩ := Prod.mk.inj heq
  obtain ⟨hversion, hstate⟩ := Prod.mk.inj heq
  refine ⟨w, hw, fun h => ?_⟩
  have hsound := (h.stored row hrow () htag).state_eq
  rw [hstate, hversion, hfold] at hsound
  cases hsound

end Result

end Instructed.Aggregate
