import Instructed.Txn.Call

/-!
# The invariant of concurrent appends

A transaction that has finished a call holds the lock on the `$all` row. So at most one open
transaction has anything to commit, and what the others see is what is committed: their calls run as
if alone.

* `Frame.Complete`: the state of a transaction between two calls;
* `Tx.Inv`, `World.Inv`: the invariant of a transaction, and of the system;
* `World.Inv.step`: every step of every session keeps it.
-/

namespace Instructed.Txn

open Sql Relational Transition Sequential

/-! ## Outcomes -/

/-- The outcome of a call against the outcome of the same call alone: the same, except that an
    `'exact'` caller at version 0 who loses the race to create the stream is told so. -/
def SameOutcome (c : Timestamp × AppendArgs) :
    Except SqlError (List AppendedRow) → Except SqlError (List AppendedRow) → Prop
  | .ok rows, .ok rows' => rows = rows'
  | .error e, .error e' => e = e' ∨ (c.2.expectedVersionType = some "exact" ∧
      c.2.expectedVersion = some 0 ∧ e.sqlstate = .IS001 ∧ e'.sqlstate = .IS001)
  | _, _ => False

theorem expectedVersionOf_exact {type : Option String} {version : Option ℤ} {v : ℕ}
    (h : expectedVersionOf type version = .ok (.exact v)) :
    type = some "exact" ∧ version = some (v : ℤ) := by
  unfold expectedVersionOf at h
  split_ifs at h with h1 h2 h3 h4
  · cases h
  · cases h
  · cases h
  · cases version with
    | none => cases h
    | some n =>
      simp only at h
      split_ifs at h with hn
      · cases h
      · cases h
        exact ⟨h4, by rw [Int.toNat_of_nonneg (by omega)]⟩
  · cases h

section Answers

variable {a : AppendArgs} {r : AppendRequest} {now : Timestamp} {log : List RecordedEvent}

theorem appendCall_eq (h : validateAppend a = .ok r) : appendCall now a log = appendLog now r log := by
  rw [appendCall, h]
  rfl

theorem sameOutcome_error {e e' : SqlError} (hr : validateAppend a = .ok r)
    (happ : appendLog now r log = .error e') (hsame : SameError r e e') :
    SameOutcome (now, a) (.error e) (logObject.answer log (now, a)) := by
  have hans : logObject.answer log (now, a) = .error e' := by
    simp [logObject, appendCall_eq hr, happ, Except.map]
  rw [hans]
  rcases hsame with h | ⟨hexp, h⟩
  · exact Or.inl h
  · obtain ⟨htype, hver⟩ := expectedVersionOf_exact (hexp ▸ (validateAppend_ok hr).2.1)
    exact Or.inr ⟨htype, hver, h⟩

theorem sameOutcome_ok {new : List RecordedEvent} (hr : validateAppend a = .ok r)
    (happ : appendLog now r log = .ok new) :
    SameOutcome (now, a) (.ok (new.map RecordedEvent.toAppendedRow))
      (logObject.answer log (now, a)) := by
  have hans : logObject.answer log (now, a) = .ok (new.map RecordedEvent.toAppendedRow) := by
    simp [logObject, appendCall_eq hr, happ, Except.map]
  rw [hans]
  exact rfl

theorem logObject_next_ok {new : List RecordedEvent} (hr : validateAppend a = .ok r)
    (happ : appendLog now r log = .ok new) : logObject.next log (now, a) = log ++ new := by
  simp [logObject, appendCall_eq hr, happ, Except.toOption]

theorem logObject_next_error {e : SqlError} (h : appendCall now a log = .error e) :
    logObject.next log (now, a) = log := by
  simp [logObject, h, Except.toOption]

end Answers

/-! ## A transaction -/

/-- A frame between two calls, over the committed tables `C`: what it sees is consistent, it has
    locked what it changed, and its calls had the outcomes they have alone. -/
structure Frame.Complete (C : Store) (f : Frame) : Prop where
  consistent : (viewOf C f.writes).Consistent
  frame : Over C (viewOf C f.writes) f.locks
  all : f.writes ≠ [] → .row 0 ∈ f.locks
  finished : f.finished = [] ↔ f.writes = []
  legal : Legal logObject SameOutcome C.log f.finished (viewOf C f.writes).log

/-- What holds of a session's progress. -/
def Pc.Inv (C : Store) (base own : Frame) : Pc → Prop
  | .idle => own = base
  | .running a r stage => validateAppend a = .ok r ∧ own.writes = base.writes ++ stage.writes ∧
      own.finished = base.finished ∧ stage.Ok (viewOf C base.writes) own.locks r
  | .failed => True

/-- The invariant of an open transaction. -/
structure Tx.Inv (C : Store) (t : Tx) : Prop where
  base : t.base.Complete C
  locks : t.base.locks ⊆ t.own.locks
  saved : ∀ f ∈ t.saved, f.Complete C ∧ f.locks ⊆ t.own.locks
  nested : t.saved.Pairwise fun f g => g.locks ⊆ f.locks
  pc : t.pc.Inv C t.base t.own

theorem Frame.Complete.empty {C : Store} (hC : C.Consistent) : Frame.Complete C ⟨[], [], []⟩ :=
  ⟨hC, .refl C [], fun h => absurd rfl h, ⟨fun _ => rfl, fun _ => rfl⟩, .nil⟩

/-- A frame without the `$all` lock has changed nothing, so the commit of another transaction moves
    it to the new tables. -/
theorem Frame.Complete.commit {C V : Store} {f : Frame} (hf : f.Complete C) (hV : V.Consistent)
    (h0 : .row 0 ∉ f.locks) : f.Complete V := by
  have hw : f.writes = [] := by
    by_contra hne
    exact h0 (hf.all hne)
  have hfin := hf.finished.mpr hw
  refine ⟨?_, ?_, fun h => absurd hw h, hf.finished, ?_⟩
  · rw [hw]
    exact hV
  · rw [hw]
    exact .refl V _
  · rw [hw, hfin]
    exact .nil

/-- A frame without finished calls sees the committed tables. -/
theorem Frame.Complete.view_eq {C : Store} {f : Frame} (hf : f.Complete C)
    (h : f.finished = []) : viewOf C f.writes = C := by
  rw [hf.finished.mp h]
  rfl

/-- A finished call extends the frame. -/
theorem Frame.Complete.finish {C : Store} {base own : Frame} (hbase : base.Complete C)
    {now : Timestamp} {a : AppendArgs} {r : AppendRequest} {id : ℕ} {row all : StreamRow}
    {es : List EventRow} {new : List RecordedEvent} (hlocks : base.locks ⊆ own.locks)
    (hr : validateAppend a = .ok r) (hres : Resolved (viewOf C base.writes) own.locks r row)
    (h0 : .row 0 ∈ own.locks)
    (hb : (viewOf C base.writes).BatchOk id r.streamUuid row all es)
    (happ : appendLog now r (viewOf C base.writes).log = .ok new)
    (hlog : ((viewOf C base.writes).appendBatch row all es).log = (viewOf C base.writes).log ++ new)
    (hview : viewOf C own.writes = (viewOf C base.writes).appendBatch row all es)
    (hne : own.writes ≠ [])
    (hfin : own.finished =
      base.finished ++ [((now, a), .ok (new.map RecordedEvent.toAppendedRow))]) :
    own.Complete C := by
  refine ⟨?_, ?_, fun _ => h0, ?_, ?_⟩
  · rw [hview]
    exact hbase.consistent.addBatch hb
  · rw [hview]
    exact (hbase.frame.mono hlocks).appendBatch hbase.consistent hb hres h0
  · simp [hfin, hne]
  · rw [hview, hlog, hfin, ← logObject_next_ok hr happ]
    exact hbase.legal.snoc (sameOutcome_ok hr happ)

/-- The commit of another transaction keeps the invariant. -/
theorem Tx.Inv.commit {C V : Store} {L : List Lock} {t : Tx} (ht : t.Inv C) (hC : C.Consistent)
    (hV : V.Consistent) (ho : Over C V L) (hdis : ∀ l ∈ t.own.locks, l ∉ L) (h0 : .row 0 ∈ L) :
    t.Inv V := by
  have hfree : .row 0 ∉ t.own.locks := fun h => hdis _ h h0
  refine ⟨ht.base.commit hV fun h => hfree (ht.locks h), ht.locks, fun f hf => ?_, ht.nested, ?_⟩
  · obtain ⟨hcomplete, hsub⟩ := ht.saved f hf
    exact ⟨hcomplete.commit hV fun h => hfree (hsub h), hsub⟩
  · have hw : t.base.writes = [] := by
      by_contra hne
      exact hfree (ht.locks (ht.base.all hne))
    have hpc := ht.pc
    cases hstage : t.pc with
    | idle => rw [hstage] at hpc; exact hpc
    | failed => trivial
    | running a r stage =>
      rw [hstage] at hpc
      obtain ⟨hr, hwrites, hfin, hok⟩ := hpc
      rw [hw] at hok
      refine ⟨hr, hwrites, hfin, ?_⟩
      rw [hw]
      exact hok.commit hC hV ho hdis h0

/-! ## The system -/

section World

variable {ι : Type}

/-- The invariant of the system. -/
structure World.Inv (w : World ι) : Prop where
  committed : w.committed.Consistent
  seq_pos : 0 < w.streamIdSeq
  seq : ∀ r ∈ w.committed.streams.rows, r.streamId < w.streamIdSeq
  seqLocks : ∀ i t, w.tx i = some t → ∀ id, .row id ∈ t.own.locks → id < w.streamIdSeq
  tx : ∀ i t, w.tx i = some t → t.Inv w.committed
  exclusive : ∀ i j t u, i ≠ j → w.tx i = some t → w.tx j = some u →
    ∀ l ∈ t.own.locks, l ∉ u.own.locks
  history : Legal logObject SameOutcome [] w.history w.committed.log

theorem World.Inv.install : (World.install : World ι).Inv where
  committed := Db.install_consistent.store
  seq_pos := Nat.one_pos
  seq := Db.install_consistent.seq
  seqLocks := fun _ _ h => nomatch h
  tx := fun _ _ h => nomatch h
  exclusive := fun _ _ _ _ _ h => nomatch h
  history := .nil

variable {w : World ι} {i : ι}

/-- Every row that a transaction sees has an id from the sequence. -/
theorem World.Inv.view_seq (hinv : w.Inv) {t : Tx} (ht : w.tx i = some t) {id : ℕ} {row : StreamRow}
    (hrow : (viewOf w.committed t.base.writes).streams.find? id = some row) :
    id < w.streamIdSeq := by
  have htinv := hinv.tx i t ht
  by_cases hl : .row id ∈ t.base.locks
  · exact hinv.seqLocks i t ht id (htinv.locks hl)
  · rw [htinv.base.frame.row id hl] at hrow
    have hm := Table.find?_eq_some_iff.mp hrow
    exact hm.2 ▸ hinv.seq row hm.1

/-- The next value of the sequence is unused in every view. -/
theorem World.Inv.view_fresh (hinv : w.Inv) {t : Tx} (ht : w.tx i = some t) :
    (viewOf w.committed t.base.writes).streams.find? w.streamIdSeq = none := by
  cases h : (viewOf w.committed t.base.writes).streams.find? w.streamIdSeq with
  | none => rfl
  | some row => exact absurd (hinv.view_seq ht h) (Nat.lt_irrefl _)

theorem World.nextSeq_ge (w : World ι) (stage : Stage) : w.streamIdSeq ≤ w.nextSeq stage := by
  unfold World.nextSeq
  split <;> omega

variable [DecidableEq ι] [Fintype ι]

theorem World.held_eq_false_iff {l : Lock} :
    w.held i l = false ↔ ∀ j t, j ≠ i → w.tx j = some t → l ∉ t.own.locks := by
  simp only [World.held, decide_eq_false_iff_not, not_exists, not_and]
  constructor
  · intro h j t hji ht
    simpa [ht] using h j hji
  · intro h j hji
    cases ht : w.tx j with
    | none => simp
    | some t => simpa using h j t hji ht

theorem World.Inv.not_held (hinv : w.Inv) {t : Tx} (ht : w.tx i = some t) {l : Lock}
    (hl : l ∈ t.own.locks) : w.held i l = false :=
  World.held_eq_false_iff.mpr fun j u hji hu => hinv.exclusive i j t u hji.symm ht hu l hl

/-- A session that keeps the committed tables keeps the invariant when its own transaction does and
    takes only free locks. -/
theorem World.Inv.setTx (hinv : w.Inv) (t : Option Tx) (seq : ℕ) (hseq : w.streamIdSeq ≤ seq)
    (ht : ∀ t', t = some t' → t'.Inv w.committed ∧ ∀ l ∈ t'.own.locks,
      w.held i l = false ∧ ∀ id, l = .row id → id < seq) :
    ({ w.setTx i t with streamIdSeq := seq } : World ι).Inv where
  committed := hinv.committed
  seq_pos := Nat.lt_of_lt_of_le hinv.seq_pos hseq
  seq := fun r hr => Nat.lt_of_lt_of_le (hinv.seq r hr) hseq
  seqLocks := by
    intro j t' hj id hid
    by_cases hji : j = i
    · subst hji
      simp only [World.setTx, Function.update_self] at hj
      exact ((ht t' hj).2 _ hid).2 id rfl
    · simp only [World.setTx, Function.update_of_ne hji] at hj
      exact Nat.lt_of_lt_of_le (hinv.seqLocks j t' hj id hid) hseq
  tx := by
    intro j t' hj
    by_cases hji : j = i
    · subst hji
      simp only [World.setTx, Function.update_self] at hj
      exact (ht t' hj).1
    · simp only [World.setTx, Function.update_of_ne hji] at hj
      exact hinv.tx j t' hj
  exclusive := by
    intro j k t' u hjk hj hk l hl hl'
    simp only [World.setTx] at hj hk
    by_cases hji : j = i
    · subst hji
      rw [Function.update_self] at hj
      rw [Function.update_of_ne hjk.symm] at hk
      exact World.held_eq_false_iff.mp ((ht t' hj).2 l hl).1 k u hjk.symm hk hl'
    · rw [Function.update_of_ne hji] at hj
      by_cases hki : k = i
      · subst hki
        rw [Function.update_self] at hk
        exact World.held_eq_false_iff.mp ((ht u hk).2 l hl').1 j t' hji hj hl
      · rw [Function.update_of_ne hki] at hk
        exact hinv.exclusive j k t' u hjk hj hk l hl hl'
  history := hinv.history

/-- As `setTx`, for a transaction that takes no new locks. -/
theorem World.Inv.setTx_sub (hinv : w.Inv) {t : Tx} (ht : w.tx i = some t) (t' : Tx)
    (hsub : t'.own.locks ⊆ t.own.locks) (hinv' : t'.Inv w.committed) (seq : ℕ)
    (hseq : w.streamIdSeq ≤ seq) :
    ({ w.setTx i (some t') with streamIdSeq := seq } : World ι).Inv := by
  refine hinv.setTx (some t') seq hseq fun x hx => ?_
  obtain rfl := Option.some.inj hx
  refine ⟨hinv', fun l hl => ⟨hinv.not_held ht (hsub hl), ?_⟩⟩
  rintro id rfl
  exact Nat.lt_of_lt_of_le (hinv.seqLocks i t ht id (hsub hl)) hseq

/-- A call that raises keeps the invariant: its outcome is that of the call alone. -/
theorem World.Inv.raise (hinv : w.Inv) {t : Tx} (ht : w.tx i = some t) (t' : Tx)
    (hsub : t'.own.locks ⊆ t.own.locks) (hinv' : t'.Inv w.committed) {a : AppendArgs} {e e' : SqlError}
    (hcall : appendCall t'.now a (viewOf w.committed t'.base.writes).log = .error e')
    (hsame : SameOutcome (t'.now, a) (.error e)
      (logObject.answer (viewOf w.committed t'.base.writes).log (t'.now, a)))
    (seq : ℕ) (hseq : w.streamIdSeq ≤ seq) :
    ({ w.raise i t' a e with streamIdSeq := seq } : World ι).Inv := by
  have hfailed : Tx.Inv w.committed { t' with pc := .failed } :=
    ⟨hinv'.base, hinv'.locks, hinv'.saved, hinv'.nested, trivial⟩
  have hset := hinv.setTx_sub ht { t' with pc := .failed } hsub hfailed seq hseq
  unfold World.raise
  split_ifs with hfin
  · refine ⟨hset.committed, hset.seq_pos, hset.seq, hset.seqLocks, hset.tx, hset.exclusive, ?_⟩
    rw [hinv'.base.view_eq (List.isEmpty_iff.mp hfin)] at hcall hsame
    have hsnoc := hinv.history.snoc hsame
    rwa [logObject_next_error hcall] at hsnoc
  · exact hset

/-! ## The steps -/

theorem World.Inv.advance (hinv : w.Inv) {t : Tx} {a : AppendArgs} {r : AppendRequest}
    {stage : Stage} (ht : w.tx i = some t) (hpc : t.pc = .running a r stage) {w' : World ι}
    (h : w.advance i t a r stage = some w') : w'.Inv := by
  obtain ⟨eff, heff, rfl⟩ := Option.map_eq_some_iff.mp h
  have htinv := hinv.tx i t ht
  have hseq := w.nextSeq_ge stage
  have hrun := htinv.pc
  rw [hpc] at hrun
  obtain ⟨hr, hwrites, hfin, hok⟩ := hrun
  rw [hwrites, viewOf_append] at heff
  have hspec := runStage_ok htinv.base.consistent hok (Nat.pos_iff_ne_zero.mp hinv.seq_pos)
    (hinv.view_fresh ht) heff
  cases eff with
  | goto stage' newLocks newWrites =>
    obtain ⟨hok', hwrites', hacq⟩ := hspec
    refine hinv.setTx (some _) (w.nextSeq stage) hseq fun t' ht' => ?_
    obtain rfl := Option.some.inj ht'
    refine ⟨⟨htinv.base, ?_, ?_, htinv.nested, hr, ?_, hfin, hok'⟩, fun l hl => ?_⟩
    · exact fun l hl => List.mem_append_right _ (htinv.locks hl)
    · intro f hf
      obtain ⟨hcomplete, hsub⟩ := htinv.saved f hf
      exact ⟨hcomplete, fun l hl => List.mem_append_right _ (hsub hl)⟩
    · rw [hwrites', hwrites, List.append_assoc]
    · have hown : ∀ l ∈ t.own.locks, w.held i l = false ∧ ∀ id, l = .row id → id < w.nextSeq stage := by
        refine fun l hl => ⟨hinv.not_held ht hl, ?_⟩
        rintro id rfl
        exact Nat.lt_of_lt_of_le (hinv.seqLocks i t ht id hl) hseq
      rcases List.mem_append.mp hl with hl | hl
      · rcases hacq l hl with hl | ⟨rfl, rfl⟩ | ⟨hfree, hrow⟩
        · exact hown l hl
        · -- the drawn id is above every id in use
          refine ⟨World.held_eq_false_iff.mpr fun j u _ hu hl => ?_, fun id hid => ?_⟩
          · exact Nat.lt_irrefl _ (hinv.seqLocks j u hu _ hl)
          · exact Lock.row.inj hid ▸ Nat.lt_succ_self _
        · refine ⟨hfree, fun id hid => ?_⟩
          obtain ⟨row, hrow⟩ := hrow id hid
          exact Nat.lt_of_lt_of_le (hinv.view_seq ht hrow) hseq
      · exact hown l hl
  | finish rows b =>
    obtain ⟨id, row, all, es, new, hres, h0, hb, happ, rfl, hview, hlog⟩ := hspec
    refine hinv.setTx_sub ht _ ?_ ?_ _ hseq
    · exact fun _ h => h
    refine ⟨?_, fun _ h => h, htinv.saved, htinv.nested, rfl⟩
    refine htinv.base.finish htinv.locks hr hres h0 hb happ hlog ?_ ?_ ?_
    · rw [← hview, ← viewOf_append, ← List.append_assoc, ← hwrites]
    · simp
    · rw [hfin]
  | raise e =>
    obtain ⟨e', happ, hsame⟩ := hspec
    have hcall : appendCall t.now a (viewOf w.committed t.base.writes).log = .error e' := by
      rw [appendCall_eq hr, happ]
    exact hinv.raise ht t (fun _ h => h) htinv hcall (sameOutcome_error hr happ hsame) _ hseq

theorem World.Inv.call (hinv : w.Inv) {t : Tx} (ht : w.tx i = some t) (hpc : t.pc = .idle)
    (a : AppendArgs) : (w.call i t a).Inv := by
  have htinv := hinv.tx i t ht
  have hidle := htinv.pc
  rw [hpc] at hidle
  have hown : t.own.Complete w.committed := hidle ▸ htinv.base
  have hbase : Tx.Inv w.committed { t with base := t.own } := by
    refine ⟨hown, fun _ h => h, htinv.saved, htinv.nested, ?_⟩
    rw [hpc]
    exact rfl
  unfold World.call
  cases hr : validateAppend a with
  | ok r =>
    obtain ⟨hok, hwrites⟩ := firstStage_ok (viewOf w.committed t.own.writes) t.own.locks r
    refine hinv.setTx_sub ht _ ?_ ?_ _ (Nat.le_refl _)
    · exact fun _ h => h
    refine ⟨hown, fun _ h => h, htinv.saved, htinv.nested, hr, ?_, rfl, hok⟩
    simp [hwrites]
  | error e =>
    have hcall : ∀ log, appendCall t.now a log = .error e := fun log => by
      rw [appendCall, hr]
      rfl
    refine hinv.raise ht { t with base := t.own } (fun _ h => h) hbase (hcall _) ?_ _ (Nat.le_refl _)
    simp [SameOutcome, logObject, hcall, Except.map]

theorem World.Inv.commit (hinv : w.Inv) {t : Tx} (ht : w.tx i = some t) (hpc : t.pc = .idle) :
    ({ w.setTx i none with
      committed := viewOf w.committed t.own.writes
      history := w.history ++ t.own.finished } : World ι).Inv := by
  have htinv := hinv.tx i t ht
  have hidle := htinv.pc
  rw [hpc] at hidle
  have hown : t.own.Complete w.committed := hidle ▸ htinv.base
  have hset := hinv.setTx (i := i) none w.streamIdSeq (Nat.le_refl _) fun _ h => nomatch h
  refine ⟨hown.consistent, hinv.seq_pos, ?_, hset.seqLocks, ?_, hset.exclusive,
    hinv.history.append hown.legal⟩
  · intro r hr
    have hfind := Table.find?_key hr
    rw [hidle] at hfind
    exact hinv.view_seq ht hfind
  · intro j u hj
    by_cases hji : j = i
    · subst hji
      simp [World.setTx] at hj
    · simp only [World.setTx, Function.update_of_ne hji] at hj
      have hu := hinv.tx j u hj
      by_cases hw : t.own.writes = []
      · rw [hw]
        exact hu
      · exact hu.commit hinv.committed hown.consistent hown.frame
          (fun l hl hl' => hinv.exclusive i j t u (Ne.symm hji) ht hj l hl' hl) (hown.all hw)

/-- **Every step of every session keeps the invariant.** -/
theorem World.Inv.step (hinv : w.Inv) {l : ι × Op} {w' : World ι} (h : step w l = some w') :
    w'.Inv := by
  have hidle : ∀ {t : Tx}, w.tx l.1 = some t → t.pc = .idle → t.own = t.base := by
    intro t ht hpc
    have h := (hinv.tx _ t ht).pc
    rwa [hpc] at h
  cases step_cases h with
  | begin hnone =>
    have hempty := Frame.Complete.empty hinv.committed
    refine hinv.setTx _ w.streamIdSeq (Nat.le_refl _) fun t' ht' => ?_
    obtain rfl := Option.some.inj ht'
    exact ⟨⟨hempty, fun _ h => h, fun _ h => (nomatch h), .nil, rfl⟩, fun _ h => (nomatch h)⟩
  | call a ht hpc => exact hinv.call ht hpc a
  | advance ht hpc h => exact hinv.advance ht hpc h
  | commit ht hpc => exact hinv.commit ht hpc
  | savepoint ht hpc =>
    have htinv := hinv.tx _ _ ht
    have hown := hidle ht hpc
    refine hinv.setTx_sub ht _ ?_ ?_ _ (Nat.le_refl _)
    · exact fun _ h => h
    refine ⟨htinv.base, htinv.locks, ?_, ?_, hown⟩
    · intro f hf
      rcases List.mem_cons.mp hf with rfl | hf
      · exact ⟨hown ▸ htinv.base, fun _ h => h⟩
      · exact htinv.saved f hf
    · exact List.pairwise_cons.mpr ⟨fun f hf => (htinv.saved f hf).2, htinv.nested⟩
  | release ht hpc =>
    have htinv := hinv.tx _ _ ht
    have hown := hidle ht hpc
    refine hinv.setTx_sub ht _ ?_ ?_ _ (Nat.le_refl _)
    · exact fun _ h => h
    exact ⟨htinv.base, htinv.locks, fun f hf => htinv.saved f (List.mem_of_mem_tail hf),
      htinv.nested.tail, hown⟩
  | cancel ht =>
    have htinv := hinv.tx _ _ ht
    refine hinv.setTx_sub ht _ ?_ ?_ _ (Nat.le_refl _)
    · exact fun _ h => h
    exact ⟨htinv.base, htinv.locks, htinv.saved, htinv.nested, trivial⟩
  | rollback ht => exact hinv.setTx none w.streamIdSeq (Nat.le_refl _) fun _ h => nomatch h
  | @rollbackTo t n f saved ht hsaved =>
    have htinv := hinv.tx _ _ ht
    have hmem : ∀ g ∈ f :: saved, g ∈ t.saved := fun g hg => List.mem_of_mem_drop (hsaved ▸ hg)
    obtain ⟨hf, hfsub⟩ := htinv.saved f (hmem f List.mem_cons_self)
    have hnested : (f :: saved).Pairwise fun f g => g.locks ⊆ f.locks := hsaved ▸ htinv.nested.drop
    refine hinv.setTx_sub ht _ hfsub ?_ _ (Nat.le_refl _)
    refine ⟨hf, fun _ h => h, fun g hg => ⟨(htinv.saved g (hmem g hg)).1, ?_⟩, hnested, rfl⟩
    rcases List.mem_cons.mp hg with rfl | hg
    · exact fun _ h => h
    · exact (List.pairwise_cons.mp hnested).1 g hg

/-- Every reachable state satisfies the invariant. -/
theorem World.Inv.of_reachable (h : Reachable (system ι) w) : w.Inv :=
  h.invariant (fun w (hw : w = World.install) => hw ▸ World.Inv.install)
    fun _ _ _ hinv _ hstep => hinv.step hstep

end World

end Instructed.Txn
