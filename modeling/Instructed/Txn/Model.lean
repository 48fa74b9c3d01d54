import Instructed.Lib.System
import Instructed.Store.Refine
import Mathlib.Data.Fintype.Basic

/-!
# Concurrent transactions that append

`append_to_stream` at statement granularity, inside `READ COMMITTED` transactions of any number of
sessions. A statement sees the committed tables and its own transaction's writes; a row lock, and the
index entry of an inserted `stream_uuid`, is held until the transaction ends or rolls back to a
savepoint that precedes it; `nextval` is not rolled back.

* `Stage`: the statements of one call, cut where it can wait for a lock;
* `runStage`: one statement, through the definitions of `append_to_stream` itself;
* `World`, `step`: the sessions, their transactions and savepoints, and the committed tables.

`World.history` and `Frame.finished` are ghosts: they record the outcomes of the calls, and no
statement reads them.
-/

namespace Instructed.Txn

open Sql Relational Transition

/-! ## Locks and writes -/

/-- What a transaction holds against the others. -/
inductive Lock where
  /-- The row lock on a row of `streams`. -/
  | row (streamId : ℕ)
  /-- The uncommitted entry of `streams_stream_uuid_key`, for which an `insert` waits. -/
  | name (streamUuid : String)
  deriving DecidableEq

/-- What one statement writes. -/
inductive Write where
  | stream (r : StreamRow)
  | batch (es : List EventRow) (ls : List StreamEventRow)

def Write.apply (st : Store) : Write → Store
  | .stream r => st.putStream r
  | .batch es ls => st.addEvents es ls

/-- The tables with a list of writes on top. -/
def viewOf (st : Store) (ws : List Write) : Store := ws.foldl Write.apply st

@[simp] theorem viewOf_nil (st : Store) : viewOf st [] = st := rfl

theorem viewOf_append (st : Store) (ws ws' : List Write) :
    viewOf st (ws ++ ws') = viewOf (viewOf st ws) ws' :=
  List.foldl_append ..

/-- The write inserts a row that shares a unique key with the batch. -/
def Write.conflicts (b : EventBatch) : Write → Bool
  | .stream _ => false
  | .batch es ls => es.any (fun e => b.events.any fun x => x.eventId = e.eventId) ||
      ls.any fun l => b.links.any fun x => x.pkey = l.pkey ∨ x.versionKey = l.versionKey

/-! ## One call -/

/-- The next statement of a call in progress (instructed.sql:685–818). -/
inductive Stage where
  /-- `nextval`, for the identity column of an `insert into streams`. -/
  | draw
  /-- `insert into streams`, with the value drawn. -/
  | insert (id : ℕ)
  /-- `update` / `select for update`: the statement's snapshot looks for the row. -/
  | scan
  /-- The row was found. The statement waits for its lock and then reads its latest version. -/
  | lock (streamId : ℕ)
  /-- `'exact'`: the `update` after the version check of the locked row. -/
  | update (row : StreamRow)
  /-- Step (2), after step (1) wrote `row`. -/
  | bumpAll (row : StreamRow)
  /-- Steps (3) and (4). -/
  | inserts (row all : StreamRow)

/-- What a statement does: go on with more locks and writes, return the call's rows, or raise. -/
inductive Effect where
  | goto (stage : Stage) (locks : List Lock) (writes : List Write)
  | finish (rows : List AppendedRow) (b : EventBatch)
  | raise (e : SqlError)

/-- The first statement of step (1) (instructed.sql:685–725). -/
def firstStage (r : AppendRequest) : Stage :=
  match r.expected with
  | .any | .noStream => .draw
  | .streamExists | .exact _ => .scan

/-- The `insert` of step (1) (instructed.sql:691–695, 700–703, 737–740). -/
def insertInto (view : Store) (id : ℕ) (r : AppendRequest) : Except SqlError StreamRow :=
  match r.expected with
  | .any => upsertStream view id r.streamUuid r.n
  | .noStream => createStream view id r.streamUuid r.n
  | .streamExists | .exact _ => createStreamAtZero view id r.streamUuid r.n

/-- `if not found` after `update` / `select for update` (instructed.sql:715–718, 726–750). -/
def notFound (r : AppendRequest) : Effect :=
  match r.expected with
  | .exact v => if v = 0 then .goto .draw [] [] else .raise (streamMissingAt r.streamUuid v)
  | .any | .noStream | .streamExists => .raise (streamMissing r.streamUuid)

/-- The row that `'any'` would update (instructed.sql:693) is locked by another transaction. -/
def rowHeld (view : Store) (held : Lock → Bool) (r : AppendRequest) : Bool :=
  match r.expected, view.streamByUuid r.streamUuid with
  | .any, some row => held (.row row.streamId)
  | _, _ => false

/-- One statement (instructed.sql:685–835), or `none` while it waits. `view` is what the statement
    sees, `held` the locks of the other transactions, `busy` the batches that collide with their
    uncommitted rows, and `nextval` the next value of the sequence. -/
def runStage (view : Store) (held : Lock → Bool) (busy : EventBatch → Bool) (nextval : ℕ)
    (now : Timestamp) (r : AppendRequest) : Stage → Option Effect
  | .draw => some (.goto (.insert nextval) [.row nextval] [])
  | .insert id =>
    if held (.name r.streamUuid) || rowHeld view held r then none
    else match insertInto view id r with
      | .ok row =>
        some (.goto (.bumpAll row) [.row row.streamId, .name r.streamUuid] [.stream row])
      | .error e => some (.raise e)
  | .scan =>
    match view.streamByUuid r.streamUuid with
    | some row => some (.goto (.lock row.streamId) [] [])
    | none => some (notFound r)
  | .lock streamId =>
    if held (.row streamId) then none
    else match view.streams.find? streamId with
      | none => some (notFound r)
      | some row =>
        match r.expected with
        | .exact v =>
          match checkVersion row v with
          | .ok row => some (.goto (.update row) [.row streamId] [])
          | .error e => some (.raise e)
        | .any | .noStream | .streamExists =>
          some (.goto (.bumpAll (row.bump r.n)) [.row streamId] [.stream (row.bump r.n)])
  | .update row =>
    match view.streams.find? row.streamId with
    | some row => some (.goto (.bumpAll (row.bump r.n)) [] [.stream (row.bump r.n)])
    | none => some (notFound r)
  | .bumpAll row =>
    if held (.row 0) then none
    else match Instructed.bumpAll view r.n with
      | .ok all => some (.goto (.inserts row all) [.row 0] [.stream all])
      | .error e => some (.raise e)
  | .inserts row all =>
    match insertEvents view now r row all with
    | .ok b => if busy b then none else some (.finish b.rows b)
    | .error e => some (.raise e)

/-! ## Transactions -/

/-- A call, with the time at which its transaction started, and its outcome. -/
abbrev FinishedCall := (Timestamp × AppendArgs) × Except SqlError (List AppendedRow)

/-- What a transaction has done, and what a savepoint restores. `finished` are its successful
    calls. -/
structure Frame where
  writes : List Write
  locks : List Lock
  finished : List FinishedCall

/-- The progress of a session's statement. -/
inductive Pc where
  | idle
  | running (a : AppendArgs) (r : AppendRequest) (stage : Stage)
  /-- A statement failed. Only a rollback is left, to a savepoint or of the transaction. -/
  | failed

/-- An open transaction. `base` is the frame in which its last call started. -/
structure Tx where
  now : Timestamp
  own : Frame
  base : Frame
  saved : List Frame
  pc : Pc

/-- The committed tables, the sequence and the sessions. -/
structure World (ι : Type) where
  committed : Store
  streamIdSeq : ℕ
  tx : ι → Option Tx
  history : List FinishedCall

variable {ι : Type}

def World.install : World ι := ⟨Store.install, 1, fun _ => none, []⟩

/-- What one session does next. -/
inductive Op where
  | begin (now : Timestamp)
  | savepoint
  /-- Call `append_to_stream`. -/
  | call (a : AppendArgs)
  /-- Run the next statement of the call. -/
  | advance
  /-- The statement is cancelled, or chosen as a deadlock victim. -/
  | cancel
  | release
  | rollbackTo (n : ℕ)
  | rollback
  | commit

namespace World

variable [DecidableEq ι] (w : World ι)

def setTx (i : ι) (t : Option Tx) : World ι := { w with tx := Function.update w.tx i t }

/-- A call raised: record its outcome, unless it ran on top of uncommitted calls. -/
def raise (i : ι) (t : Tx) (a : AppendArgs) (e : SqlError) : World ι :=
  { w.setTx i (some { t with pc := .failed }) with
    history := if t.base.finished.isEmpty then w.history ++ [((t.now, a), .error e)] else w.history }

variable [Fintype ι]

/-- Another session's transaction holds the lock. -/
def held (i : ι) (l : Lock) : Bool :=
  decide (∃ j, j ≠ i ∧ l ∈ (w.tx j).elim [] (·.own.locks))

/-- Another session's transaction has inserted a row with a key of the batch. -/
def busy (i : ι) (b : EventBatch) : Bool :=
  decide (∃ j, j ≠ i ∧ ((w.tx j).elim [] (·.own.writes)).any (Write.conflicts b))

/-- The call of session `i` goes on by the effect of its statement. -/
def applyEffect (i : ι) (t : Tx) (a : AppendArgs) (r : AppendRequest) : Effect → World ι
  | .goto stage locks writes => w.setTx i (some { t with
      own := { t.own with writes := t.own.writes ++ writes, locks := locks ++ t.own.locks }
      pc := .running a r stage })
  | .finish rows b =>
    let own := { t.own with
      writes := t.own.writes ++ [.batch b.events b.links]
      finished := t.own.finished ++ [((t.now, a), .ok rows)] }
    w.setTx i (some { t with own, base := own, pc := .idle })
  | .raise e => w.raise i t a e

/-- The sequence after the statement. -/
def nextSeq : Stage → ℕ
  | .draw => w.streamIdSeq + 1
  | _ => w.streamIdSeq

/-- The next statement of session `i`. -/
def advance (i : ι) (t : Tx) (a : AppendArgs) (r : AppendRequest) (stage : Stage) :
    Option (World ι) :=
  (runStage (viewOf w.committed t.own.writes) (w.held i) (w.busy i) w.streamIdSeq t.now r stage).map
    fun eff => { w.applyEffect i t a r eff with streamIdSeq := w.nextSeq stage }

/-- Start a call: the input checks come first (instructed.sql:631–683). -/
def call (i : ι) (t : Tx) (a : AppendArgs) : World ι :=
  match validateAppend a with
  | .ok r => w.setTx i (some { t with base := t.own, pc := .running a r (firstStage r) })
  | .error e => w.raise i { t with base := t.own } a e

end World

variable [DecidableEq ι] [Fintype ι]

/-- One step of session `l.1`. -/
def step (w : World ι) (l : ι × Op) : Option (World ι) :=
  match w.tx l.1, l.2 with
  | none, .begin now => some (w.setTx l.1 (some ⟨now, ⟨[], [], []⟩, ⟨[], [], []⟩, [], .idle⟩))
  | none, _ => none
  | some t, .savepoint =>
    match t.pc with
    | .idle => some (w.setTx l.1 (some { t with saved := t.own :: t.saved }))
    | _ => none
  | some t, .call a =>
    match t.pc with
    | .idle => some (w.call l.1 t a)
    | _ => none
  | some t, .advance =>
    match t.pc with
    | .running a r stage => w.advance l.1 t a r stage
    | _ => none
  | some t, .cancel => some (w.setTx l.1 (some { t with pc := .failed }))
  | some t, .release =>
    match t.pc with
    | .idle => some (w.setTx l.1 (some { t with saved := t.saved.tail }))
    | _ => none
  | some t, .rollbackTo n =>
    match t.saved.drop n with
    | f :: saved =>
      some (w.setTx l.1 (some { t with own := f, base := f, saved := f :: saved, pc := .idle }))
    | [] => none
  | some _, .rollback => some (w.setTx l.1 none)
  | some t, .commit =>
    match t.pc with
    | .idle => some { w.setTx l.1 none with
        committed := viewOf w.committed t.own.writes
        history := w.history ++ t.own.finished }
    | _ => none
  | some _, .begin _ => none

/-- What a step of session `i` can be. -/
inductive StepBy (w : World ι) (i : ι) : World ι → Prop
  | begin {now : Timestamp} : w.tx i = none →
      StepBy w i (w.setTx i (some ⟨now, ⟨[], [], []⟩, ⟨[], [], []⟩, [], .idle⟩))
  | savepoint {t : Tx} : w.tx i = some t → t.pc = .idle →
      StepBy w i (w.setTx i (some { t with saved := t.own :: t.saved, pc := .idle }))
  | call {t : Tx} (a : AppendArgs) : w.tx i = some t → t.pc = .idle → StepBy w i (w.call i t a)
  | advance {t : Tx} {a : AppendArgs} {r : AppendRequest} {stage : Stage} {w' : World ι} :
      w.tx i = some t → t.pc = .running a r stage → w.advance i t a r stage = some w' →
      StepBy w i w'
  | cancel {t : Tx} : w.tx i = some t → StepBy w i (w.setTx i (some { t with pc := .failed }))
  | release {t : Tx} : w.tx i = some t → t.pc = .idle →
      StepBy w i (w.setTx i (some { t with saved := t.saved.tail, pc := .idle }))
  | rollbackTo {t : Tx} {n : ℕ} {f : Frame} {saved : List Frame} : w.tx i = some t →
      t.saved.drop n = f :: saved →
      StepBy w i (w.setTx i (some { t with own := f, base := f, saved := f :: saved, pc := .idle }))
  | rollback {t : Tx} : w.tx i = some t → StepBy w i (w.setTx i none)
  | commit {t : Tx} : w.tx i = some t → t.pc = .idle →
      StepBy w i { w.setTx i none with
        committed := viewOf w.committed t.own.writes
        history := w.history ++ t.own.finished }

theorem step_cases {w w' : World ι} {l : ι × Op} (h : step w l = some w') : StepBy w l.1 w' := by
  obtain ⟨i, op⟩ := l
  cases ht : w.tx i with
  | none =>
    cases op <;> simp only [step, ht, Option.some.injEq, reduceCtorEq] at h
    exact h ▸ .begin ht
  | some t =>
    cases op with
    | rollbackTo n =>
      cases hsaved : t.saved.drop n with
      | nil => simp [step, ht, hsaved] at h
      | cons f saved =>
        simp only [step, ht, hsaved, Option.some.injEq] at h
        exact h ▸ .rollbackTo ht hsaved
    | cancel =>
      simp only [step, ht, Option.some.injEq] at h
      exact h ▸ .cancel ht
    | rollback =>
      simp only [step, ht, Option.some.injEq] at h
      exact h ▸ .rollback ht
    | begin now => simp [step, ht] at h
    | advance =>
      cases hpc : t.pc <;> simp only [step, ht, hpc, reduceCtorEq] at h
      exact .advance ht hpc h
    | savepoint =>
      cases hpc : t.pc <;> simp only [step, ht, hpc, Option.some.injEq, reduceCtorEq] at h
      exact h ▸ .savepoint ht hpc
    | release =>
      cases hpc : t.pc <;> simp only [step, ht, hpc, Option.some.injEq, reduceCtorEq] at h
      exact h ▸ .release ht hpc
    | call a =>
      cases hpc : t.pc <;> simp only [step, ht, hpc, Option.some.injEq, reduceCtorEq] at h
      exact h ▸ .call a ht hpc
    | commit =>
      cases hpc : t.pc <;> simp only [step, ht, hpc, Option.some.injEq, reduceCtorEq] at h
      exact h ▸ .commit ht hpc

/-- The sessions over a freshly installed schema. -/
def system (ι : Type) [DecidableEq ι] [Fintype ι] : System (World ι) (ι × Op) where
  init w := w = World.install
  step := step

end Instructed.Txn
