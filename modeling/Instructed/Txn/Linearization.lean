import Instructed.Txn.Visibility

/-!
# `append_to_stream` linearizes

The history of the calls that have finished, in the order in which they committed or raised, is the
history of the same calls made one at a time.

* `appendCall_sqlstate`: what a call alone can raise;
* `checkExpected_exact`, `length_lt_of_exact`: an `'exact'` append moves the version past its own
  expectation;
* `append_linearizes`: every reachable state is `Linearized`.
-/

namespace Instructed.Txn

open Sql Relational Transition Sequential

/-! ## The errors of a call alone -/

/-- A call alone never raises a raw unique violation. -/
theorem appendCall_sqlstate {now : Timestamp} {a : AppendArgs} {log : List RecordedEvent}
    {e : SqlError} (h : appendCall now a log = .error e) : e.sqlstate ≠ .uniqueViolation := by
  rcases appendCall_error h with hr | ⟨r, -, hcheck | hes | rfl⟩
  · rcases validateAppend_sqlstate hr with h | h <;> simp [h]
  · unfold checkExpected at hcheck
    split at hcheck <;> (try split_ifs at hcheck) <;> cases hcheck <;> simp [streamMissing, streamMissingAt]
  · rcases newEvents_sqlstate hes with h | h <;> simp [h]
  · simp [EventsConstraint.toError]

/-! ## Appends that expect an exact version -/

/-- The call expects stream `u` at version `v`. -/
def ExactAt (u : String) (v : ℕ) (a : AppendArgs) : Prop :=
  a.streamUuid = some u ∧ a.expectedVersionType = some "exact" ∧ a.expectedVersion = some (v : ℤ)

/-- The call's events are well formed and carry ids that the log does not hold. -/
def FreshCall (log : List RecordedEvent) (c : Timestamp × AppendArgs) : Prop :=
  ∃ r es, validateAppend c.2 = .ok r ∧ newEvents c.1 r.events = .ok es ∧ FreshIds log es

theorem ExactAt.request {u : String} {v : ℕ} {a : AppendArgs} {r : AppendRequest}
    (ha : ExactAt u v a) (hr : validateAppend a = .ok r) :
    r.streamUuid = u ∧ r.expected = .exact v := by
  obtain ⟨hu, hexp, -⟩ := validateAppend_ok hr
  obtain ⟨hau, htype, hver⟩ := ha
  rw [htype, hver] at hexp
  have hneg : ¬ (v : ℤ) < 0 := by omega
  simp [expectedVersionOf, hneg] at hexp
  rw [hau] at hu
  exact ⟨(Option.some.inj hu).symm, hexp.symm⟩

theorem FreshCall.mono {log log' : List RecordedEvent} {c : Timestamp × AppendArgs}
    (h : FreshCall log' c) (hpre : log <+: log') : FreshCall log c := by
  obtain ⟨r, es, hr, hes, hnd, hfresh⟩ := h
  refine ⟨r, es, hr, hes, hnd, fun e he hm => hfresh e he ?_⟩
  exact (hpre.sublist.map _).subset hm

section Exact

variable {u : String} {v : ℕ} {c : Timestamp × AppendArgs} {log new : List RecordedEvent}

/-- A successful `'exact'` append found its version, and moved the stream past it. -/
theorem length_lt_of_exact (ha : ExactAt u v c.2) (h : appendCall c.1 c.2 log = .ok new) :
    (onStream u log).length = v ∧ v < (onStream u (log ++ new)).length := by
  obtain ⟨r, es, hr, hcheck, hes, -, rfl⟩ := appendCall_ok h
  obtain ⟨rfl, hexp⟩ := ha.request hr
  rw [hexp] at hcheck
  rcases checkExpected_exact_iff log r.streamUuid v with
    ⟨-, hlen⟩ | ⟨e, he, -, -⟩
  · refine ⟨hlen, ?_⟩
    have hn : es.length = r.n := newEvents_length hes
    have hpos := r.n_pos
    rw [onStream_append, onStream_recordBatch, List.length_append, recordBatch_length]
    omega
  · rw [he] at hcheck
    cases hcheck

/-- An `'exact'` append at another version fails. -/
theorem appendCall_error_of_length (ha : ExactAt u v c.2) (hlen : (onStream u log).length ≠ v) :
    ∃ e, appendCall c.1 c.2 log = .error e ∧ (FreshCall log c → e.sqlstate = .IS001) := by
  unfold appendCall
  cases hr : validateAppend c.2 with
  | error e =>
    refine ⟨e, rfl, ?_⟩
    rintro ⟨r, es, hr', -⟩
    rw [hr'] at hr
    cases hr
  | ok r =>
    obtain ⟨rfl, hexp⟩ := ha.request hr
    rcases checkExpected_exact_iff log r.streamUuid v with
      ⟨-, h⟩ | ⟨e, he, hstate, -⟩
    · exact absurd h hlen
    · refine ⟨e, ?_, fun _ => hstate⟩
      simp [bind, Except.bind, appendLog, hexp, he]

/-- An `'exact'` append with well-formed fresh events that fails, fails on its version. -/
theorem length_ne_of_error (ha : ExactAt u v c.2) (hfresh : FreshCall log c) {e : SqlError}
    (h : appendCall c.1 c.2 log = .error e) : (onStream u log).length ≠ v := by
  obtain ⟨r, es, hr, hes, hids⟩ := hfresh
  obtain ⟨rfl, hexp⟩ := ha.request hr
  intro hlen
  rcases checkExpected_exact_iff log r.streamUuid v with
    ⟨hok, -⟩ | ⟨e', -, -, hne⟩
  · simp [appendCall, hr, appendLog, hexp, hok, hes, hids, bind, Except.bind, pure,
      Except.pure] at h
  · exact hne hlen

end Exact

/-! ## Histories -/

theorem sameOutcome_ok_iff {c : Timestamp × AppendArgs} {rows : List AppendedRow}
    {log : List RecordedEvent} (h : SameOutcome c (.ok rows) (logObject.answer log c)) :
    ∃ new, appendCall c.1 c.2 log = .ok new ∧ logObject.next log c = log ++ new := by
  cases happ : appendCall c.1 c.2 log with
  | ok new => exact ⟨new, rfl, by simp [logObject, happ, Except.toOption]⟩
  | error e =>
    simp [logObject, happ, Except.map, SameOutcome] at h

theorem sameOutcome_error_iff {c : Timestamp × AppendArgs} {e : SqlError}
    {log : List RecordedEvent} (h : SameOutcome c (.error e) (logObject.answer log c)) :
    ∃ e', appendCall c.1 c.2 log = .error e' ∧ e.sqlstate = e'.sqlstate := by
  cases happ : appendCall c.1 c.2 log with
  | ok new => simp [logObject, happ, Except.map, SameOutcome] at h
  | error e' =>
    simp only [logObject, happ, Except.map, SameOutcome] at h
    rcases h with rfl | ⟨-, -, h, h'⟩
    · exact ⟨e, rfl, rfl⟩
    · exact ⟨e', rfl, h.trans h'.symm⟩

section History

variable {u : String} {v i j : ℕ} {c c' : Timestamp × AppendArgs} {log : List RecordedEvent}
variable {h : List FinishedCall}

/-- Of two appends that expect one version of one stream, the later one does not succeed if the
    earlier one did. -/
theorem not_both_ok (hl : Legal logObject SameOutcome [] h log) (hij : i < j)
    {rows rows' : List AppendedRow} (hi : h[i]? = some (c, .ok rows))
    (hj : h[j]? = some (c', .ok rows')) (hc : ExactAt u v c.2) (hc' : ExactAt u v c'.2) : False := by
  obtain ⟨t, -, hans, hrest⟩ := hl.getElem? hi
  have hj' : (h.drop (i + 1))[j - (i + 1)]? = some (c', .ok rows') := by
    rw [List.getElem?_drop, show i + 1 + (j - (i + 1)) = j by omega, hj]
  obtain ⟨t', hmid, hans', -⟩ := hrest.getElem? hj'
  obtain ⟨new, happ, hnext⟩ := sameOutcome_ok_iff hans
  obtain ⟨new', happ', -⟩ := sameOutcome_ok_iff hans'
  have hlt := (length_lt_of_exact hc happ).2
  have hlen := (length_lt_of_exact hc' happ').1
  rw [hnext] at hmid
  have hle := ((prefix_of_legal hmid).sublist.filter fun e => decide (e.streamUuid = u)).length_le
  unfold onStream at hlt hlen
  omega

/-- An append that expects an exact version and fails with well-formed fresh events, fails with
    `IS001`. -/
theorem exact_error (hl : Legal logObject SameOutcome [] h log) {e : SqlError}
    (hj : h[j]? = some (c', .error e)) (hc' : ExactAt u v c'.2) (hfresh : FreshCall log c') :
    e.sqlstate = .IS001 := by
  obtain ⟨t, hbefore, hans, hafter⟩ := hl.getElem? hj
  obtain ⟨e', happ, hstate⟩ := sameOutcome_error_iff hans
  have hpre : t <+: log := (List.prefix_append t _).trans (prefix_of_legal hafter)
  have hfresh' := hfresh.mono hpre
  obtain ⟨e'', he'', hIS⟩ :=
    appendCall_error_of_length hc' (length_ne_of_error hc' hfresh' happ)
  rw [happ] at he''
  cases he''
  exact hstate.trans (hIS hfresh')

end History

/-! ## The result -/

section Linearize

variable {ι : Type} [DecidableEq ι] [Fintype ι] {w : World ι}

/-- The calls of a state linearize, in the order in which they committed or raised. -/
structure Linearized (w : World ι) : Prop where
  /-- Outcomes and tables are those of running the calls one at a time on a fresh install. -/
  serial : ∃ db, Legal dbObject SameOutcome Db.install w.history db ∧
    db.store.SameTables w.committed
  /-- Once an append that expects version `v` of `u` has succeeded, every other such append has
      failed, with `IS001` if its events are well formed and fresh. -/
  exact : ∀ (u : String) (v i j : ℕ) (c c' : Timestamp × AppendArgs) (rows : List AppendedRow)
    (o : Except SqlError (List AppendedRow)), i ≠ j → w.history[i]? = some (c, .ok rows) →
    w.history[j]? = some (c', o) → ExactAt u v c.2 → ExactAt u v c'.2 →
    ∃ e, o = .error e ∧ (FreshCall w.committed.log c' → e.sqlstate = .IS001)
  /-- No call raises a raw unique violation. -/
  noUniqueViolation : ∀ (c : Timestamp × AppendArgs) (e : SqlError),
    (c, Except.error e) ∈ w.history → e.sqlstate ≠ .uniqueViolation

/-- **`append_to_stream` linearizes**, in every reachable state of any number of sessions. -/
theorem append_linearizes (hw : Reachable (system ι) w) : Linearized w := by
  have hinv := World.Inv.of_reachable hw
  have hl := hinv.history
  refine ⟨?serial, ?exact, ?noUniqueViolation⟩
  case serial =>
    obtain ⟨db, hdb, hcons, hlog⟩ := legal_dbObject hl Db.install_consistent
    exact ⟨db, hdb, hcons.store.sameTables hinv.committed hlog⟩
  case exact =>
    intro u v i j c c' rows o hij hi hj hc hc'
    cases o with
    | error e => exact ⟨e, rfl, exact_error hl hj hc'⟩
    | ok rows' =>
      rcases Nat.lt_or_gt_of_ne hij with hlt | hlt
      · exact (not_both_ok hl hlt hi hj hc hc').elim
      · exact (not_both_ok hl hlt hj hi hc' hc).elim
  case noUniqueViolation =>
    intro c e hmem
    obtain ⟨j, hj⟩ := List.mem_iff_getElem?.mp hmem
    obtain ⟨t, -, hans, -⟩ := hl.getElem? hj
    obtain ⟨e', happ, hstate⟩ := sameOutcome_error_iff hans
    rw [hstate]
    exact appendCall_sqlstate happ

theorem append_linearizes_sampleRun : ∃ w, (system Bool).run World.install sampleRun = some w ∧
    Linearized w := by
  obtain ⟨w, hw⟩ := Option.isSome_iff_exists.mp
    (show ((system Bool).run World.install sampleRun).isSome = true by decide +kernel)
  exact ⟨w, hw, append_linearizes (Reachable.run (.init rfl) hw)⟩

end Linearize

end Instructed.Txn
