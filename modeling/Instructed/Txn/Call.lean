import Instructed.Txn.Model

/-!
# One call, statement by statement

What the statements of a running call establish, relative to the view `V` in which the call started.

* `Stage.Ok`: what holds before each statement;
* `runStage_goto`, `runStage_raise`, `runStage_finish`: one spec lemma for each effect of a statement;
* `Over`: how a transaction's view lies over the committed tables;
* `Stage.Ok.commit`: what a statement relies on survives the commit of another transaction.
-/

namespace Instructed.Txn

open Sql Relational

/-! ## Before each statement -/

/-- The request goes through `insert into streams`. -/
def Inserts (r : AppendRequest) : Prop :=
  r.expected = .any ∨ r.expected = .noStream ∨ r.expected = .exact 0

/-- The request looks for the row first. -/
def Updates (r : AppendRequest) : Prop :=
  r.expected = .streamExists ∨ ∃ v, r.expected = .exact v

/-- Step (1) is done: `row` is the target's row, the transaction holds it, and the expected version
    was met. -/
structure Resolved (V : Store) (locks : List Lock) (r : AppendRequest) (row : StreamRow) : Prop where
  target : ∃ id, V.Target id r.streamUuid r.n row
  rowLock : .row row.streamId ∈ locks
  nameLock : V.streamByUuid r.streamUuid = none → .name r.streamUuid ∈ locks
  expected : checkExpected V.log r.streamUuid r.expected = .ok ()

/-- What the call has written before a statement. -/
def Stage.writes : Stage → List Write
  | .bumpAll row => [.stream row]
  | .inserts row all => [.stream row, .stream all]
  | _ => []

/-- What holds before a statement of the call that started in the view `V`. -/
def Stage.Ok (V : Store) (locks : List Lock) (r : AppendRequest) : Stage → Prop
  | .draw => Inserts r
  | .insert id => Inserts r ∧ .row id ∈ locks ∧ id ≠ 0 ∧ V.streams.find? id = none
  | .scan => Updates r
  | .lock streamId => Updates r ∧
      ∃ row, V.streams.find? streamId = some row ∧ row.streamUuid = r.streamUuid
  | .update row => .row row.streamId ∈ locks ∧ V.streams.find? row.streamId = some row ∧
      row.streamUuid = r.streamUuid ∧ r.expected = .exact row.streamVersion
  | .bumpAll row => Resolved V locks r row
  | .inserts row all => Resolved V locks r row ∧ .row 0 ∈ locks ∧
      all = ⟨0, "$all", V.log.length + r.n⟩

/-- The error of a call against the error of the abstract append: the same, except that a caller who
    loses the race to create the stream is told so. -/
def SameError (r : AppendRequest) (e e' : SqlError) : Prop :=
  e = e' ∨ (r.expected = .exact 0 ∧ e.sqlstate = .IS001 ∧ e'.sqlstate = .IS001)

theorem firstStage_ok (V : Store) (locks : List Lock) (r : AppendRequest) :
    (firstStage r).Ok V locks r ∧ (firstStage r).writes = [] := by
  unfold firstStage
  cases h : r.expected with
  | any => exact ⟨Or.inl h, rfl⟩
  | noStream => exact ⟨Or.inr (Or.inl h), rfl⟩
  | streamExists => exact ⟨Or.inl h, rfl⟩
  | exact v => exact ⟨Or.inr ⟨v, h⟩, rfl⟩

section Statement

variable {V : Store} {locks : List Lock} {held : Lock → Bool} {busy : EventBatch → Bool}
variable {nextval : ℕ} {now : Timestamp} {r : AppendRequest} {stage stage' : Stage}
variable {newLocks : List Lock} {newWrites : List Write}

/-! ## The `insert` of step (1) -/

/-- The insert does what step (1) does in one piece, except that `'exact'` with version 0 can lose
    the race to create the stream. -/
theorem insertInto_eq (hc : V.Consistent) {id : ℕ} (hid : V.streams.find? id = none)
    (hins : Inserts r) :
    insertInto V id r = resolveStream V id r ∨
      ∃ e e', insertInto V id r = .error e ∧ resolveStream V id r = .error e' ∧ SameError r e e' := by
  unfold insertInto resolveStream
  rcases hins with h | h | h
  · simp [h]
  · simp [h]
  · simp only [h]
    cases hrow : V.streamByUuid r.streamUuid with
    | none => simp
    | some row =>
      right
      obtain ⟨hm, h0, -, -⟩ := hc.of_streamByUuid r.not_all hrow
      have hpos := hc.nonempty row hm h0
      have hne : row.streamVersion ≠ 0 := by omega
      simp only [createStreamAtZero, insertStream_eq hid, hrow, checkVersion, if_pos hne, raise,
        Option.isSome_some, if_true]
      exact ⟨_, _, rfl, rfl, Or.inr ⟨h, rfl, rfl⟩⟩

/-- Step (1) in one piece, on success. -/
theorem resolveStream_resolved (hc : V.Consistent) {id : ℕ} {row : StreamRow} (h0 : id ≠ 0)
    (hid : V.streams.find? id = none) (h : resolveStream V id r = .ok row) :
    V.Target id r.streamUuid r.n row ∧ checkExpected V.log r.streamUuid r.expected = .ok () := by
  refine ⟨resolveStream_ok h0 h, ?_⟩
  rw [resolveStream_eq hc hid] at h
  cases hcheck : checkExpected V.log r.streamUuid r.expected with
  | ok _ => rfl
  | error e => rw [hcheck] at h; cases h

/-- Step (1) in one piece, on failure. -/
theorem resolveStream_error (hc : V.Consistent) {id : ℕ} {e : SqlError}
    (hid : V.streams.find? id = none) (h : resolveStream V id r = .error e) :
    appendLog now r V.log = .error e := by
  rw [resolveStream_eq hc hid] at h
  unfold appendLog
  cases hcheck : checkExpected V.log r.streamUuid r.expected with
  | ok _ => rw [hcheck] at h; cases h
  | error e' => rw [hcheck] at h; cases h; rfl

/-! ## The row found by name -/

/-- The row of a locked stream is the target's row. -/
theorem resolved_existing (hc : V.Consistent) {row : StreamRow}
    (hrow : V.streams.find? row.streamId = some row) (hu : row.streamUuid = r.streamUuid)
    (hl : .row row.streamId ∈ locks)
    (hexp : checkExpected V.log r.streamUuid r.expected = .ok ()) :
    Resolved V locks r (row.bump r.n) := by
  have hname : V.streamByUuid r.streamUuid = some row :=
    hu ▸ hc.streamByUuid_of_mem (Table.mem_of_find? hrow)
  exact ⟨⟨0, .existing hname⟩, hl, fun h => absurd (hname ▸ h) (by simp), hexp⟩

/-- A stream with a row has an event, and its version is the number of its events. -/
theorem onStream_of_row (hc : V.Consistent) {id : ℕ} {row : StreamRow}
    (hrow : V.streams.find? id = some row) (hu : row.streamUuid = r.streamUuid) :
    onStream r.streamUuid V.log ≠ [] ∧
      row.streamVersion = (onStream r.streamUuid V.log).length := by
  have hname : V.streamByUuid r.streamUuid = some row :=
    hu ▸ hc.streamByUuid_of_mem (Table.mem_of_find? hrow)
  obtain ⟨-, -, -, hver⟩ := hc.of_streamByUuid r.not_all hname
  refine ⟨fun hnil => ?_, hver⟩
  rw [(hc.streamByUuid_eq_none_iff r.not_all).mpr hnil] at hname
  cases hname

/-- `'exact'`, compared under the lock. -/
theorem checkExpected_exact (hc : V.Consistent) {id v : ℕ} {row : StreamRow}
    (hrow : V.streams.find? id = some row) (hu : row.streamUuid = r.streamUuid) :
    checkExpected V.log r.streamUuid (.exact v) = (checkVersion row v).map fun _ => () := by
  obtain ⟨hne, hver⟩ := onStream_of_row hc hrow hu
  by_cases hv : row.streamVersion = v
  · simp [checkExpected, checkVersion, hne, ← hver, hv, Except.map]
  · simp [checkExpected, checkVersion, hne, ← hver, hv, raise, Except.map]

/-- `if not found`: either the call goes on to create the stream, or it raises what the abstract
    append raises. -/
theorem notFound_cases (now : Timestamp) (hc : V.Consistent) (hup : Updates r)
    (hnone : V.streamByUuid r.streamUuid = none) :
    (notFound r = .goto .draw [] [] ∧ Inserts r) ∨
      ∃ e, notFound r = .raise e ∧ appendLog now r V.log = .error e := by
  have hnil := (hc.streamByUuid_eq_none_iff r.not_all).mp hnone
  unfold notFound appendLog
  rcases hup with h | ⟨v, h⟩
  · right
    simp [h, checkExpected, hnil, bind, Except.bind]
  · by_cases hv : v = 0
    · left
      simp [h, hv, Inserts]
    · right
      simp [h, hv, checkExpected, hnil, bind, Except.bind]

/-! ## One spec lemma for each statement -/

/-- A lock that a statement takes: its own already, the id it has just drawn, or free, and if it is a
    row lock then on a row that is there. -/
def Acquired (V : Store) (locks : List Lock) (held : Lock → Bool) (nextval : ℕ) (stage : Stage)
    (l : Lock) : Prop :=
  l ∈ locks ∨ (stage = .draw ∧ l = .row nextval) ∨
    (held l = false ∧ ∀ id, l = .row id → ∃ row, V.streams.find? id = some row)

/-- What an effect of a statement means for the call. A statement that goes on establishes what the
    next one relies on, and takes no lock that another transaction holds; one that raises agrees with
    the abstract append; the last one inserts one batch. -/
def Effect.Ok (V : Store) (locks : List Lock) (held : Lock → Bool) (nextval : ℕ) (now : Timestamp)
    (r : AppendRequest) (stage : Stage) : Effect → Prop
  | .goto stage' newLocks newWrites => stage'.Ok V (newLocks ++ locks) r ∧
      stage'.writes = stage.writes ++ newWrites ∧
      ∀ l ∈ newLocks, Acquired V locks held nextval stage l
  | .finish rows b => ∃ id row all es new, Resolved V locks r row ∧ .row 0 ∈ locks ∧
      V.BatchOk id r.streamUuid row all es ∧ appendLog now r V.log = .ok new ∧
      rows = new.map RecordedEvent.toAppendedRow ∧
      viewOf V (stage.writes ++ [.batch b.events b.links]) = V.appendBatch row all es ∧
      (V.appendBatch row all es).log = V.log ++ new
  | .raise e => ∃ e', appendLog now r V.log = .error e' ∧ SameError r e e'

variable {eff : Effect}

theorem runStage_draw (hins : Inserts r) (hseq : nextval ≠ 0)
    (hnext : V.streams.find? nextval = none)
    (h : runStage V held busy nextval now r .draw = some eff) :
    eff.Ok V locks held nextval now r .draw := by
  obtain rfl := Option.some.inj h
  refine ⟨⟨hins, by simp, hseq, hnext⟩, rfl, fun l hl => Or.inr (Or.inl ⟨rfl, ?_⟩)⟩
  exact List.mem_singleton.mp hl

/-- The row of a successful `insert` is new, or it is the free row that `'any'` updates. -/
theorem insert_rowLock (hc : V.Consistent) {id : ℕ} {row : StreamRow} (hins : Inserts r)
    (hl : .row id ∈ locks) (ht : V.Target id r.streamUuid r.n row)
    (hexp : checkExpected V.log r.streamUuid r.expected = .ok ()) (hfree : rowHeld V held r = false) :
    Acquired V locks held nextval (.insert id) (.row row.streamId) := by
  cases ht with
  | fresh _ _ _ => exact Or.inl hl
  | existing hold =>
    have hrow := Table.find?_key (Store.mem_of_streamByUuid hold)
    obtain ⟨hne, -⟩ := onStream_of_row hc hrow (Store.uuid_of_streamByUuid hold)
    rcases hins with h | h | h
    · simp only [rowHeld, h, hold] at hfree
      exact Or.inr (Or.inr ⟨hfree, fun _ hid => ⟨_, Lock.row.inj hid ▸ hrow⟩⟩)
    · simp [h, checkExpected, hne, raise] at hexp
    · simp [h, checkExpected, hne, raise] at hexp

theorem runStage_insert (hc : V.Consistent) {id : ℕ} (hok : (Stage.insert id).Ok V locks r)
    (h : runStage V held busy nextval now r (.insert id) = some eff) :
    eff.Ok V locks held nextval now r (.insert id) := by
  obtain ⟨hins, hl, h0, hid⟩ := hok
  rw [runStage] at h
  by_cases hwait : (held (.name r.streamUuid) || rowHeld V held r) = true
  · rw [if_pos hwait] at h
    cases h
  rw [if_neg hwait] at h
  rw [Bool.or_eq_true, not_or] at hwait
  rcases insertInto_eq hc hid hins with heq | ⟨e, e', he, he', hsame⟩
  · rw [heq] at h
    cases hrow : resolveStream V id r with
    | error e =>
      rw [hrow] at h
      obtain rfl := Option.some.inj h
      exact ⟨e, resolveStream_error hc hid hrow, Or.inl rfl⟩
    | ok row =>
      rw [hrow] at h
      obtain rfl := Option.some.inj h
      obtain ⟨ht, hexp⟩ := resolveStream_resolved hc h0 hid hrow
      refine ⟨⟨⟨id, ht⟩, by simp, fun _ => by simp, hexp⟩, rfl, ?_⟩
      intro l hl'
      rcases List.mem_cons.mp hl' with rfl | hl'
      · exact insert_rowLock hc hins hl ht hexp (by simpa using hwait.2)
      · rw [List.mem_singleton.mp hl']
        exact Or.inr (Or.inr ⟨by simpa using hwait.1, fun _ hid => nomatch hid⟩)
  · rw [he] at h
    obtain rfl := Option.some.inj h
    exact ⟨e', resolveStream_error hc hid he', hsame⟩

theorem runStage_scan (hc : V.Consistent) (hup : Updates r)
    (h : runStage V held busy nextval now r .scan = some eff) :
    eff.Ok V locks held nextval now r .scan := by
  rw [runStage] at h
  cases hrow : V.streamByUuid r.streamUuid with
  | some row =>
    rw [hrow] at h
    obtain rfl := Option.some.inj h
    have hm := Store.mem_of_streamByUuid hrow
    exact ⟨⟨hup, row, Table.find?_key hm, Store.uuid_of_streamByUuid hrow⟩, rfl, by simp⟩
  | none =>
    rw [hrow] at h
    obtain rfl := Option.some.inj h
    rcases notFound_cases now hc hup hrow with ⟨hgo, hins⟩ | ⟨e, hraise, he⟩
    · rw [hgo]
      exact ⟨hins, rfl, by simp⟩
    · rw [hraise]
      exact ⟨e, he, Or.inl rfl⟩

theorem runStage_lock (hc : V.Consistent) {streamId : ℕ} (hok : (Stage.lock streamId).Ok V locks r)
    (h : runStage V held busy nextval now r (.lock streamId) = some eff) :
    eff.Ok V locks held nextval now r (.lock streamId) := by
  obtain ⟨hup, row, hrow, hu⟩ := hok
  obtain rfl := Table.key_of_find? hrow
  rw [runStage] at h
  by_cases hwait : held (.row row.streamId) = true
  · rw [if_pos hwait] at h
    cases h
  rw [if_neg hwait, hrow] at h
  have hfree : held (.row row.streamId) = false := by simpa using hwait
  have hlock : .row row.streamId ∈ [Lock.row row.streamId] ++ locks := by simp
  have hacq : ∀ l ∈ [Lock.row row.streamId],
      Acquired V locks held nextval (.lock row.streamId) l := fun l hl =>
    Or.inr (Or.inr (List.mem_singleton.mp hl ▸ ⟨hfree, fun _ hid => ⟨row, Lock.row.inj hid ▸ hrow⟩⟩))
  rcases hup with hexp | ⟨v, hexp⟩
  · simp only [hexp] at h
    obtain rfl := Option.some.inj h
    have hne := (onStream_of_row hc hrow hu).1
    refine ⟨resolved_existing hc hrow hu hlock ?_, rfl, hacq⟩
    simp [hexp, checkExpected, hne]
  · simp only [hexp] at h
    have hcheck := checkExpected_exact (v := v) hc hrow hu
    cases hv : checkVersion row v with
    | error e =>
      rw [hv] at h hcheck
      obtain rfl := Option.some.inj h
      refine ⟨e, ?_, Or.inl rfl⟩
      simp [appendLog, hexp, hcheck, Except.map, bind, Except.bind]
    | ok row' =>
      rw [hv] at h
      obtain rfl := Option.some.inj h
      obtain ⟨rfl, hver⟩ := checkVersion_ok hv
      exact ⟨⟨hlock, hrow, hu, by rw [hexp, hver]⟩, rfl, hacq⟩

theorem runStage_update (hc : V.Consistent) {row : StreamRow} (hok : (Stage.update row).Ok V locks r)
    (h : runStage V held busy nextval now r (.update row) = some eff) :
    eff.Ok V locks held nextval now r (.update row) := by
  obtain ⟨hlock, hrow, hu, hexp⟩ := hok
  rw [runStage, hrow] at h
  obtain rfl := Option.some.inj h
  refine ⟨resolved_existing hc hrow hu hlock ?_, rfl, by simp⟩
  rw [hexp, checkExpected_exact hc hrow hu]
  simp [checkVersion, Except.map]

theorem runStage_bumpAll (hc : V.Consistent) {row : StreamRow}
    (hok : (Stage.bumpAll row).Ok V locks r)
    (h : runStage (V.putStream row) held busy nextval now r (.bumpAll row) = some eff) :
    eff.Ok V locks held nextval now r (.bumpAll row) := by
  obtain ⟨id, ht⟩ := hok.target
  rw [runStage, bumpAll_eq hc (hc.target_ne_zero r.not_all ht)] at h
  by_cases hwait : held (.row 0) = true
  · rw [if_pos hwait] at h
    cases h
  rw [if_neg hwait] at h
  obtain rfl := Option.some.inj h
  have hfree : held (.row 0) = false := by simpa using hwait
  refine ⟨⟨⟨hok.target, ?_, ?_, hok.expected⟩, by simp, rfl⟩, rfl, fun l hl => ?_⟩
  · exact List.mem_cons_of_mem _ hok.rowLock
  · exact fun hnone => List.mem_cons_of_mem _ (hok.nameLock hnone)
  · obtain ⟨_, hall⟩ := hc.allRow
    obtain rfl := List.mem_singleton.mp hl
    exact Or.inr (Or.inr ⟨hfree, fun _ hid => ⟨_, Lock.row.inj hid ▸ hall⟩⟩)

theorem runStage_inserts (hc : V.Consistent) {row all : StreamRow}
    (hok : (Stage.inserts row all).Ok V locks r)
    (h : runStage ((V.putStream row).putStream all) held busy nextval now r (.inserts row all) =
      some eff) :
    eff.Ok V locks held nextval now r (.inserts row all) := by
  obtain ⟨hres, h0, rfl⟩ := hok
  obtain ⟨id, ht⟩ := hres.target
  have hne := hc.target_ne_zero r.not_all ht
  rw [runStage, insertEvents_eq hc ht hne rfl] at h
  cases hes : newEvents now r.events with
  | error e =>
    rw [hes] at h
    obtain rfl := Option.some.inj h
    exact ⟨e, by simp [appendLog, hres.expected, hes, bind, Except.bind], Or.inl rfl⟩
  | ok es =>
    have hlen : es.length = r.n := newEvents_length hes
    simp only [hes, Except.bind] at h
    by_cases hfresh : FreshIds V.log es
    · rw [← hlen] at ht
      have hb := batchOk_of_fresh hc r.not_all ht
        (List.ne_nil_of_length_pos (hlen ▸ r.n_pos)) hfresh
      obtain ⟨hsv, -⟩ := batch_bases hc hb
      simp only [if_pos hfresh] at h
      split_ifs at h
      obtain rfl := Option.some.inj h
      refine ⟨id, row, _, es, _, hres, h0, hb, ?_, ?_, ?_, log_appendBatch hc hb⟩
      · simp [appendLog, hres.expected, hes, hfresh, bind, Except.bind, pure, Except.pure]
      · rw [hsv, map_recordBatch]
      · simp [Stage.writes, viewOf, Write.apply, Store.appendBatch, hlen]
    · simp only [if_neg hfresh] at h
      obtain rfl := Option.some.inj h
      refine ⟨_, ?_, Or.inl rfl⟩
      simp [appendLog, hres.expected, hes, hfresh, bind, Except.bind]
      rfl

/-- **Every statement does what the abstract append allows.** -/
theorem runStage_ok (hc : V.Consistent) (hok : stage.Ok V locks r) (hseq : nextval ≠ 0)
    (hnext : V.streams.find? nextval = none)
    (h : runStage (viewOf V stage.writes) held busy nextval now r stage = some eff) :
    eff.Ok V locks held nextval now r stage := by
  cases stage with
  | draw => exact runStage_draw hok hseq hnext h
  | insert id => exact runStage_insert hc hok h
  | scan => exact runStage_scan hc hok h
  | lock streamId => exact runStage_lock hc hok h
  | update row => exact runStage_update hc hok h
  | bumpAll row => exact runStage_bumpAll hc hok h
  | inserts row all => exact runStage_inserts hc hok h

end Statement

/-! ## The commit of another transaction -/

/-- How a view lies over the committed tables `C`: it differs in rows that the transaction has locked
    and in names that it holds, and no row loses its name. -/
structure Over (C V : Store) (locks : List Lock) : Prop where
  row : ∀ id, .row id ∉ locks → V.streams.find? id = C.streams.find? id
  name : ∀ u, C.streamByUuid u = none → .name u ∉ locks → V.streamByUuid u = none
  keep : ∀ id row, C.streams.find? id = some row →
    ∃ row', V.streams.find? id = some row' ∧ row'.streamUuid = row.streamUuid

theorem Over.refl (C : Store) (locks : List Lock) : Over C C locks :=
  ⟨fun _ _ => rfl, fun _ h _ => h, fun _ row h => ⟨row, h, rfl⟩⟩

theorem Over.mono {C V : Store} {locks locks' : List Lock} (h : Over C V locks)
    (hsub : locks ⊆ locks') : Over C V locks' :=
  ⟨fun id hid => h.row id fun hm => hid (hsub hm),
    fun u hu hn => h.name u hu fun hm => hn (hsub hm), h.keep⟩

/-- A batch changes the rows it locked. -/
theorem Over.appendBatch {C V : Store} {locks : List Lock} {r : AppendRequest} {id : ℕ}
    {row all : StreamRow} {es : List EventRow} (h : Over C V locks) (hV : V.Consistent)
    (hb : V.BatchOk id r.streamUuid row all es) (hres : Resolved V locks r row)
    (h0 : .row 0 ∈ locks) : Over C (V.appendBatch row all es) locks := by
  have hall := all_streamId hV hb
  have huuid := hb.target.uuid
  refine ⟨fun i hi => ?_, fun u hu hn => ?_, fun i x hx => ?_⟩
  · have hi0 : i ≠ 0 := fun h' => hi (h' ▸ h0)
    have hirow : i ≠ row.streamId := fun h' => hi (h' ▸ hres.rowLock)
    rw [appendBatch_find hV hb, if_neg hi0, if_neg hirow, h.row i hi]
  · have hVu := h.name u hu hn
    rw [Store.streamByUuid_eq_none_iff]
    intro x hx
    rcases (mem_appendBatch hV hb).mp hx with rfl | rfl | ⟨hx, -, -⟩
    · rintro rfl
      obtain ⟨k, hk⟩ := hV.streamByUuid_all
      rw [hall.2, hk] at hVu
      cases hVu
    · rintro rfl
      rw [huuid] at hVu hn
      exact hn (hres.nameLock hVu)
    · exact Store.streamByUuid_eq_none_iff.mp hVu x hx
  · obtain ⟨x', hx', hxu⟩ := h.keep i x hx
    have hm := Table.find?_eq_some_iff.mp hx'
    rw [appendBatch_find hV hb]
    split_ifs with hi0 hirow
    · refine ⟨all, rfl, ?_⟩
      rw [hall.2, ← hxu, (hV.streamId_eq_zero_iff hm.1).mp (hm.2.trans hi0)]
    · refine ⟨row, rfl, ?_⟩
      rw [huuid, ← hxu, hb.target.uuid_of_mem hm.1 (hm.2.trans hirow)]
    · exact ⟨x', hx', hxu⟩

/-- The expected version depends on the number of the stream's events. -/
theorem checkExpected_of_length {log log' : List RecordedEvent} {u : String}
    (h : (onStream u log).length = (onStream u log').length) (e : ExpectedVersion) :
    checkExpected log u e = checkExpected log' u e := by
  have hnil : onStream u log = [] ↔ onStream u log' = [] := by
    rw [← List.length_eq_zero_iff, ← List.length_eq_zero_iff, h]
  unfold checkExpected
  cases e <;> simp only [hnil, h]

section Commit

variable {C V : Store} {locks L : List Lock} {r : AppendRequest}
variable (hC : C.Consistent) (hV : V.Consistent) (ho : Over C V L)
include hC hV

theorem checkExpected_of_name (hname : V.streamByUuid r.streamUuid = C.streamByUuid r.streamUuid) :
    checkExpected V.log r.streamUuid r.expected = checkExpected C.log r.streamUuid r.expected := by
  refine checkExpected_of_length ?_ _
  cases h : C.streamByUuid r.streamUuid with
  | none =>
    rw [(hC.streamByUuid_eq_none_iff r.not_all).mp h,
      (hV.streamByUuid_eq_none_iff r.not_all).mp (hname.trans h)]
  | some row =>
    obtain ⟨-, -, -, hCv⟩ := hC.of_streamByUuid r.not_all h
    obtain ⟨-, -, -, hVv⟩ := hV.of_streamByUuid r.not_all (hname.trans h)
    rw [← hCv, ← hVv]

include ho

theorem Resolved.commit {row : StreamRow} (hdis : ∀ l ∈ locks, l ∉ L)
    (h : Resolved C locks r row) : Resolved V locks r row := by
  obtain ⟨id, ht⟩ := h.target
  have hrow := ho.row row.streamId (hdis _ h.rowLock)
  cases ht with
  | existing hold =>
    have hfind := Table.find?_key (Store.mem_of_streamByUuid hold)
    have hVfind := Table.mem_of_find? (hrow.trans hfind)
    have hname := hV.streamByUuid_of_mem hVfind
    rw [Store.uuid_of_streamByUuid hold] at hname
    refine ⟨⟨id, .existing hname⟩, h.rowLock, fun hn => absurd (hname ▸ hn) (by simp), ?_⟩
    rw [checkExpected_of_name hC hV (hname.trans hold.symm)]
    exact h.expected
  | fresh h0 hid hu =>
    have hname := ho.name _ hu (hdis _ (h.nameLock hu))
    refine ⟨⟨id, .fresh h0 (hrow.trans hid) hname⟩, h.rowLock, fun _ => h.nameLock hu, ?_⟩
    rw [checkExpected_of_name hC hV (hname.trans hu.symm)]
    exact h.expected

/-- **What a statement relies on survives the commit of another transaction.** -/
theorem Stage.Ok.commit {stage : Stage} (hdis : ∀ l ∈ locks, l ∉ L) (h0 : .row 0 ∈ L)
    (hok : stage.Ok C locks r) : stage.Ok V locks r := by
  cases stage with
  | draw => exact hok
  | insert id =>
    obtain ⟨hins, hl, hid0, hid⟩ := hok
    exact ⟨hins, hl, hid0, (ho.row id (hdis _ hl)).trans hid⟩
  | scan => exact hok
  | lock streamId =>
    obtain ⟨hup, row, hrow, hu⟩ := hok
    obtain ⟨row', hrow', hu'⟩ := ho.keep _ _ hrow
    exact ⟨hup, row', hrow', hu'.trans hu⟩
  | update row =>
    obtain ⟨hl, hrow, hrest⟩ := hok
    exact ⟨hl, (ho.row _ (hdis _ hl)).trans hrow, hrest⟩
  | bumpAll row => exact Resolved.commit hC hV ho hdis hok
  | inserts row all => exact absurd h0 (hdis _ hok.2.1)

end Commit

end Instructed.Txn
