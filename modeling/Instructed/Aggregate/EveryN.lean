import Instructed.Aggregate.Paging
import Mathlib

/-!
# `everyN` bounds replay

`runCommandWithSnapshots` (snapshots.ts:87–132) under the policy `everyN` (snapshot-policy.ts:30–37): one
call after the other, with definitions of any module version. A snapshot write may fail.

* `everyN`, `runCommandWithSnapshots`: the policy and the function;
* `usableVersion`: the version of the snapshot that a module version can use;
* `Alone`, `runCommandAndApply_alone`: a command while nobody else is at work, and the number of events
  that it counts since the snapshot;
* `Session`, `step`: the calls, one after the other;
* `replay_bounded`: **the count is exact, fewer than `n` events lie behind a snapshot, and a write that
  failed is attempted again.**
-/

namespace Instructed.Aggregate

open Sql Relational Numbering Transition

variable {S C V : Type}

/-! ## The functions -/

/-- A `RangeError`: its message up to the number, and the number. -/
structure RangeError where
  message : String
  got : ℚ
  deriving DecidableEq

/-- `everyN` of a finite number. -/
def everyN (n : ℚ) : Except RangeError (S → ℕ → ℕ → Bool) :=
  if n ≤ 0 then .error ⟨"everyN: n must be a positive integer, got ", n⟩
  else .ok fun _ _ eventsSinceLast => decide (n ≤ eventsSinceLast)

/-- A call that returned: the module version, the result of `runCommandAndApply`, whether a snapshot
    write was attempted, and whether it was stored. -/
structure Call (S : Type) where
  version : Option String
  ran : RanCommand S
  attempted : Bool
  stored : Bool

/-- A call of `runCommandWithSnapshots`. Its reads and its append find `moments`; the snapshot write is
    at `now`, if it is delivered. -/
structure Request (S C V : Type) where
  definition : AggregateDefinition S C V
  codec : Codec S V
  command : C
  opts : RunCommandOptions
  uuid : String
  moments : List Moment
  now : Timestamp
  delivered : Bool

section Functions

variable (streamUuid : String)

/-- The policy is asked when events were appended. -/
def RanCommand.asksFor (d : AggregateDefinition S C V) (r : RanCommand S) : Bool :=
  match r.appended, d.snapshotPolicy with
  | _ :: _, some shouldSnapshot => shouldSnapshot r.state r.version r.eventsSinceSnapshot
  | _, _ => false

/-- The write of `client.recordSnapshot`. -/
def Request.write (q : Request S C V) (r : RanCommand S) (st : Store) : Option Store :=
  if q.delivered then (Instructed.recordSnapshot q.now (some streamUuid) (some q.definition.type)
    (some r.version) (some (q.codec.stateToJson r.state))
    (stampVersion q.definition.snapshotModuleVersion) st).toOption
  else none

/-- `runCommandWithSnapshots`. Nobody else is at work, so the write finds the database that the command
    left. It is `none` when the call has not returned. -/
def runCommandWithSnapshots (q : Request S C V) : Option (Except CommandError (Call S) × Db) :=
  match runCommandAndApply q.definition q.codec streamUuid q.command q.opts q.uuid q.moments with
  | none => none
  | some (.error e, db, _) => some (.error e, db)
  | some (.ok r, db, _) =>
    let version := q.definition.snapshotModuleVersion
    if r.asksFor q.definition then
      match q.write streamUuid r db.store with
      | some st => some (.ok ⟨version, r, true, true⟩, { db with store := st })
      | none => some (.ok ⟨version, r, true, false⟩, db)
    else some (.ok ⟨version, r, false, false⟩, db)

/-- The number of events of the stream. -/
def Store.head (st : Store) : ℕ := (onStream streamUuid st.log).length

/-- The version of the snapshot that a definition of this module version can use; 0 if there is none. -/
def usableVersion (version : Option String) (st : Store) : ℕ :=
  match st.snapshots.find? streamUuid with
  | some snap => if readVersion snap.metadata = version then snap.sourceVersion else 0
  | none => 0

/-- The snapshot of the stream is not ahead of it. -/
def SnapshotBehind (st : Store) : Prop :=
  ∀ snap, st.snapshots.find? streamUuid = some snap → snap.sourceVersion ≤ Store.head streamUuid st

end Functions

/-! ## A command while nobody else is at work -/

/-- The calls find the store `st`. -/
def Alone (st : Store) (ms : List Moment) : Prop := ∀ m ∈ ms, m.db.Reachable ∧ m.db.store = st

/-- What `runCommandAndApply` returned, from the store `st` and with the database `db` after it. -/
structure RanAlone (streamUuid : String) (moduleVersion : Option String) (st : Store) (db : Db)
    (r : RanCommand S) : Prop where
  reachable : db.Reachable
  snapshots : db.store.snapshots = st.snapshots
  head_le : Store.head streamUuid st ≤ Store.head streamUuid db.store
  version : r.version = Store.head streamUuid db.store
  count : r.eventsSinceSnapshot + usableVersion streamUuid moduleVersion st = r.version

section Alone

variable {d : AggregateDefinition S C V} {codec : Codec S V} {streamUuid : String} {command : C}
  {o : RunCommandOptions} {uuid : String} {st : Store} {base loaded final : Loaded S} {db : Db}
  {ms rest : List Moment} {m : Moment} {version : Option String}

theorem usableVersion_le (h : SnapshotBehind streamUuid st) :
    usableVersion streamUuid version st ≤ Store.head streamUuid st := by
  unfold usableVersion
  split
  · rename_i snap hsnap
    split_ifs
    · exact h snap hsnap
    · exact Nat.zero_le _
  · exact Nat.zero_le _

theorem baseline_version (h : baseline d codec streamUuid st = .ok base) :
    base.version = usableVersion streamUuid d.snapshotModuleVersion st ∧
      base.eventsSinceSnapshot = 0 := by
  unfold baseline Instructed.readSnapshot at h
  dsimp only at h
  unfold usableVersion
  cases hfind : st.snapshots.find? streamUuid with
  | none =>
    rw [hfind] at h
    cases h
    exact ⟨rfl, rfl⟩
  | some snap =>
    rw [hfind] at h
    dsimp only at h ⊢
    split_ifs at h with hversion
    · cases h
      exact ⟨(if_pos hversion).symm, rfl⟩
    · cases h
      exact ⟨(if_neg hversion).symm, rfl⟩

theorem foldPage_count (page : List RecordedEvent) :
    (foldPage d codec loaded page).eventsSinceSnapshot = loaded.eventsSinceSnapshot + page.length := by
  induction page generalizing loaded with
  | nil => rfl
  | cons row page ih =>
    show (foldPage d codec _ page).eventsSinceSnapshot = _
    rw [ih, List.length_cons]
    show loaded.eventsSinceSnapshot + 1 + page.length = _
    omega

/-- The loop counts the events that it folds, on every page. -/
theorem loadPages_count (ha : Alone st ms) (hle : loaded.version ≤ Store.head streamUuid st)
    (h : loadPages d codec streamUuid loaded ms = some (.ok final, db, rest)) :
    final.eventsSinceSnapshot + loaded.version = loaded.eventsSinceSnapshot + final.version := by
  induction ms generalizing loaded with
  | nil => cases h
  | cons m ms ih =>
    obtain ⟨hm, rfl⟩ := ha m List.mem_cons_self
    have hc := hm.consistent.store
    rw [loadPages] at h
    by_cases hu : streamUuid = "$all"
    · rw [hu] at h
      cases h
    rw [readPage_eq hc hu loaded] at h
    split_ifs at h with hnil
    · simp only [raise] at h
      split_ifs at h
      · cases h
        rfl
      · cases h
    · dsimp only at h
      have hversion := (foldPage_drop d codec hc hle loadPageSize).1
      have hcount : (foldPage d codec loaded (((onStream streamUuid m.db.store.log).drop
          loaded.version).take loadPageSize)).eventsSinceSnapshot = _ := foldPage_count _
      split_ifs at h
      · cases h
        rw [hversion, hcount]
        omega
      · have hlen : (((onStream streamUuid m.db.store.log).drop loaded.version).take
            loadPageSize).length ≤ Store.head streamUuid m.db.store - loaded.version := by
          rw [List.length_take, List.length_drop]
          exact Nat.min_le_right ..
        have hrest := ih (fun m' hm' => ha m' (List.mem_cons_of_mem _ hm')) (by rw [hversion]; omega) h
        rw [hversion, hcount] at hrest
        omega

theorem Alone.suffix (ha : Alone st ms) (h : rest <:+ ms) : Alone st rest :=
  fun m hm => ha m (h.subset hm)

theorem Alone.follow (ha : Alone st ms) : Follow streamUuid ms := by
  refine ⟨fun m hm => (ha m hm).1, ?_⟩
  rw [List.pairwise_iff_forall_sublist]
  intro m m' hsub
  rw [(ha m (hsub.subset (by simp))).2, (ha m' (hsub.subset (by simp))).2]
  exact ⟨List.prefix_refl _, rfl⟩

/-- **A load.** It counts the events behind the snapshot. -/
theorem loadAggregate_alone (ha : Alone st ms) (hbehind : SnapshotBehind streamUuid st)
    (h : loadAggregate d codec streamUuid ms = some (.ok loaded, db, rest)) :
    RanAlone streamUuid d.snapshotModuleVersion st db
      ⟨[], loaded.state, loaded.version, loaded.eventsSinceSnapshot⟩ := by
  obtain ⟨pre, m, base, hms, rfl, hbase, hat⟩ := loadAggregate_spec ha.follow h
  obtain ⟨hreach, hst⟩ := ha m (hms ▸ List.mem_append_right _ List.mem_cons_self)
  obtain ⟨hversion, hzero⟩ := baseline_version hbase
  rw [hst] at hbase hat hversion
  have hle : base.version ≤ Store.head streamUuid st := hversion ▸ usableVersion_le hbehind
  have hhead : loaded.version = Store.head streamUuid st := by
    rw [hat.version]
    exact Nat.max_eq_right hle
  refine ⟨hreach, by rw [hst], by rw [hst], by rw [hst]; exact hhead, ?_⟩
  cases ms with
  | nil => cases h
  | cons first ms =>
    have hfirst := (ha first List.mem_cons_self).2
    simp only [loadAggregate, hfirst, hbase] at h
    have hcount := loadPages_count (fun m' hm' => ha m' (List.mem_cons_of_mem _ hm')) hle h
    rw [hzero] at hcount
    show loaded.eventsSinceSnapshot + _ = loaded.version
    omega

theorem loadPages_db {x : Except CommandError (Loaded S)}
    (h : loadPages d codec streamUuid loaded ms = some (x, db, rest)) : ∃ m ∈ ms, m.db = db := by
  induction ms generalizing loaded with
  | nil => cases h
  | cons m ms ih =>
    have hhere : ∃ m' ∈ m :: ms, m'.db = m.db := ⟨m, List.mem_cons_self, rfl⟩
    rw [loadPages] at h
    split at h
    · dsimp only at h
      split_ifs at h
      · cases h
        exact hhere
      · obtain ⟨m', hm', hdb⟩ := ih h
        exact ⟨m', List.mem_cons_of_mem _ hm', hdb⟩
    · split_ifs at h <;> cases h <;> exact hhere

/-- A load leaves the database as it is. -/
theorem loadAggregate_db {x : Except CommandError (Loaded S)} (ha : Alone st ms)
    (h : loadAggregate d codec streamUuid ms = some (x, db, rest)) : db.Reachable ∧ db.store = st := by
  obtain ⟨m, hm, rfl⟩ : ∃ m ∈ ms, m.db = db := by
    cases ms with
    | nil => cases h
    | cons m ms =>
      rw [loadAggregate] at h
      split at h
      · obtain ⟨m', hm', hdb⟩ := loadPages_db h
        exact ⟨m', List.mem_cons_of_mem _ hm', hdb⟩
      · cases h
        exact ⟨m, List.mem_cons_self, rfl⟩
  exact ha m hm

/-- The append of a command, whatever the expected version. -/
theorem appended_alone (hdb : m.db.Reachable) {filled : List (NewEvent V)} {rows : List AppendedRow}
    (h : m.db.append m.now (commandArgs codec streamUuid o loaded m.ids filled) = (.ok rows, db)) :
    db.Reachable ∧ db.store.snapshots = m.db.store.snapshots ∧
      Store.head streamUuid db.store = Store.head streamUuid m.db.store + rows.length ∧
      (rows.getLast?.map (·.streamVersion)).getD loaded.version = Store.head streamUuid db.store := by
  have hc := hdb.consistent
  let a : AppendArgs := commandArgs codec streamUuid o loaded m.ids filled
  have hdb' : db = (m.db.append m.now a).2 := (congrArg Prod.snd h).symm
  have hrows : (m.db.append m.now a).1 = .ok rows := congrArg Prod.fst h
  obtain ⟨new, hcall, hok, hlog⟩ : ∃ new, appendCall m.now a m.db.store.log = .ok new ∧
      (m.db.append m.now a).1 = .ok (new.map RecordedEvent.toAppendedRow) ∧
        (m.db.append m.now a).2.store.log = m.db.store.log ++ new := by
    rcases hc.append_cases m.now a with hcase | ⟨e, herr, -⟩
    · exact hcase
    · rw [hrows] at herr
      cases herr
  obtain ⟨hne, hstream, hnum, -⟩ := append_packed codec rfl rfl hcall
  have hnew : rows = new.map RecordedEvent.toAppendedRow := Except.ok.inj (hrows.symm.trans hok)
  have hself : onStream streamUuid new = new :=
    List.filter_eq_self.mpr fun e he => by simpa using hstream e he
  have hhead : Store.head streamUuid db.store = Store.head streamUuid m.db.store + rows.length := by
    rw [Store.head, hdb', hlog, onStream_append, hself, List.length_append, hnew, List.length_map]
    rfl
  refine ⟨hdb' ▸ .append _ _ hdb, ?_, hhead, ?_⟩
  · rw [hdb']
    exact (hc.append_refines (m.now, a)).2.2.1
  · rw [hhead, hnew, List.getLast?_map, Option.map_map, List.length_map]
    show (new.getLast?.map (·.streamVersion)).getD _ = _
    rw [hnum.getLast?_pos hne, Option.getD_some]
    rfl

/-- It holds of the result, or the command failed and left the store as it is. -/
def OrFailed {α : Type} (st : Store) (db : Db) (P : α → Prop) : Except CommandError α → Prop
  | .ok r => P r
  | .error _ => db.Reachable ∧ db.store = st

/-- **One attempt.** -/
theorem attempt_alone {x : Except CommandError (ExecutedCommand S V)} (ha : Alone st ms)
    (hbehind : SnapshotBehind streamUuid st)
    (h : attempt d codec streamUuid command o uuid ms = some (x, db, rest)) :
    OrFailed st db (fun r => RanAlone streamUuid d.snapshotModuleVersion st db (r.ran d)) x := by
  unfold attempt at h
  split at h
  · cases h
  · rename_i hload
    cases h
    exact loadAggregate_db ha hload
  · rename_i loaded db₀ left hload
    have hsame := loadAggregate_db ha hload
    obtain ⟨hreach, hsnap, hle, hversion, hcount⟩ := loadAggregate_alone ha hbehind hload
    split at h
    · cases h
      exact hsame
    · cases h
      exact ⟨hreach, hsnap, hle, hversion, hcount⟩
    · rename_i e es hexec
      dsimp only at h
      split at h
      · cases h
      · rename_i m after
        obtain ⟨hm, hst⟩ := ha.suffix (loadAggregate_suffix hload) m List.mem_cons_self
        split at h
        · rename_i rows db' happ
          cases h
          obtain ⟨hreach', hsnap', hhead, hlast⟩ := appended_alone hm happ
          rw [hst] at hsnap' hhead
          rw [hsame.2] at hversion
          refine ⟨hreach', hsnap', by omega, hlast, ?_⟩
          show loaded.eventsSinceSnapshot + rows.length + _ = Option.getD _ _
          rw [hlast, hhead]
          change loaded.eventsSinceSnapshot + _ = loaded.version at hcount
          change loaded.version = _ at hversion
          omega
        · rename_i happ
          cases h
          have hdb : (m.db.append m.now _).2 = db := congrArg Prod.snd happ
          refine ⟨hdb ▸ .append _ _ hm, ?_⟩
          rw [← hst, ← Db.append_error (congrArg Prod.fst happ)]
          exact congrArg Db.store hdb.symm

/-- **A command while nobody else is at work.** -/
theorem runCommandAndApply_alone {x : Except CommandError (RanCommand S)} (ha : Alone st ms)
    (hbehind : SnapshotBehind streamUuid st)
    (h : runCommandAndApply d codec streamUuid command o uuid ms = some (x, db, rest)) :
    OrFailed st db (RanAlone streamUuid d.snapshotModuleVersion st db) x := by
  obtain ⟨⟨x, db, rest⟩, hx, heq⟩ := Option.map_eq_some_iff.mp h
  cases heq
  have hattempts : ∀ left ms, Alone st ms →
      attempts d codec streamUuid command o uuid left ms = some (x, db, rest) →
        OrFailed st db (fun r => RanAlone streamUuid d.snapshotModuleVersion st db (r.ran d)) x := by
    intro left
    induction left with
    | zero =>
      intro ms ha hx
      rw [attempts] at hx
      split at hx
      · rename_i hattempt
        have hfailed := attempt_alone ha hbehind hattempt
        split_ifs at hx <;> cases hx <;> exact hfailed
      · exact attempt_alone ha hbehind hx
    | succ left ih =>
      intro ms ha hx
      rw [attempts] at hx
      split at hx
      · rename_i hattempt
        split_ifs at hx
        · exact ih _ (ha.suffix (attempt_suffix hattempt)) hx
        · have hfailed := attempt_alone ha hbehind hattempt
          cases hx
          exact hfailed
      · exact attempt_alone ha hbehind hx
  have hspec := hattempts _ ms ha hx
  cases x with
  | ok r => exact hspec
  | error e => exact hspec

end Alone

/-! ## One call after the other -/

/-- The database, and the calls that returned. `usable` is, for each of them, the version of the snapshot
    that its definition could use when it began; this is a ghost. -/
structure Series (S : Type) where
  db : Db
  calls : List (Call S × ℕ)

section Series

variable (streamUuid : String)

/-- A call runs from its first read to its return. -/
def Series.step (s : Series S) (q : Request S C V) : Option (Series S) :=
  match runCommandWithSnapshots streamUuid q with
  | none => none
  | some (.error _, db) => some { s with db := db }
  | some (.ok c, db) =>
    some ⟨db, s.calls ++ [(c, usableVersion streamUuid q.definition.snapshotModuleVersion s.db.store)]⟩

/-- Calls of one aggregate, one after the other, on a stream whose snapshot is not ahead of it. -/
def series : System (Series S) (Request S C V) where
  init s := s.db.Reachable ∧ SnapshotBehind streamUuid s.db.store ∧ s.calls = []
  step := Series.step streamUuid

/-- The definition has the policy, and the call finds what the calls before it left. -/
def Sequential (policy : S → ℕ → ℕ → Bool) (s : Series S) (q : Request S C V) : Prop :=
  q.definition.snapshotPolicy = some policy ∧ Alone s.db.store q.moments

/-- No snapshot of this version was stored since a write of this version failed. -/
def Owed (version : Option String) (done : List (Call S × ℕ)) : Prop :=
  ∃ pre c mid, done = pre ++ c :: mid ∧ c.1.version = version ∧ c.1.attempted = true ∧
    c.1.stored = false ∧ ∀ x ∈ mid, x.1.version = version → x.1.stored = false

/-- What the calls of a series are like. -/
structure Bounded (n : ℚ) (s : Series S) : Prop where
  /-- The policy is told the number of events behind the snapshot that the load could use. -/
  count : ∀ c ∈ s.calls, c.1.ran.eventsSinceSnapshot + c.2 = c.1.ran.version
  /-- After a call that appended events, and whose write was stored if it was attempted. -/
  bound : ∀ c, s.calls.getLast? = some c → c.1.ran.appended ≠ [] →
    (c.1.attempted = true → c.1.stored = true) →
      c.1.ran.version = Store.head streamUuid s.db.store ∧
      usableVersion streamUuid c.1.version s.db.store ≤ c.1.ran.version ∧
      ((c.1.ran.version - usableVersion streamUuid c.1.version s.db.store : ℕ) : ℚ) < n
  /-- A write that failed is attempted again. -/
  again : ∀ pre c post, s.calls = pre ++ c :: post → Owed c.1.version pre → c.1.ran.appended ≠ [] →
    c.1.attempted = true

/-- The invariant of a series. -/
structure Series.Inv (n : ℚ) (s : Series S) : Prop where
  reachable : s.db.Reachable
  behind : SnapshotBehind streamUuid s.db.store
  bounded : Bounded streamUuid n s
  /-- A write of the version is due. -/
  owed : ∀ version, Owed version s.calls →
    n ≤ (Store.head streamUuid s.db.store - usableVersion streamUuid version s.db.store : ℕ)

end Series

section Step

variable {streamUuid : String} {n : ℚ} {policy : S → ℕ → ℕ → Bool} {s s' : Series S}
  {q : Request S C V} {c : Call S} {db : Db} {version : Option String}

theorem owed_snoc {done : List (Call S × ℕ)} {x : Call S × ℕ} (h : Owed version (done ++ [x])) :
    Owed version done ∧ (x.1.version = version → x.1.stored = false) ∨
      x.1.version = version ∧ x.1.attempted = true ∧ x.1.stored = false := by
  obtain ⟨pre, c, mid, heq, hversion, hattempted, hstored, hmid⟩ := h
  rcases List.eq_nil_or_concat mid with rfl | ⟨mid, y, rfl⟩
  · obtain ⟨-, hx⟩ := List.append_inj' heq rfl
    obtain rfl := List.singleton_inj.mp hx
    exact Or.inr ⟨hversion, hattempted, hstored⟩
  · rw [List.concat_eq_append, ← List.cons_append, ← List.append_assoc] at heq
    obtain ⟨rfl, hx⟩ := List.append_inj' heq rfl
    obtain rfl := List.singleton_inj.mp hx
    refine Or.inl ⟨⟨pre, c, mid, rfl, hversion, hattempted, hstored, fun z hz => hmid z ?_⟩,
      hmid x ?_⟩
    · rw [List.concat_eq_append]
      exact List.mem_append_left _ hz
    · simp

theorem usableVersion_eq {st st' : Store} (h : st'.snapshots = st.snapshots) :
    usableVersion streamUuid version st' = usableVersion streamUuid version st := by
  rw [usableVersion, usableVersion, h]

/-- What a call did that returned. -/
structure Returned (streamUuid : String) (q : Request S C V) (st : Store) (c : Call S) (db : Db) :
    Prop where
  version : c.version = q.definition.snapshotModuleVersion
  reachable : db.Reachable
  head_le : Store.head streamUuid st ≤ Store.head streamUuid db.store
  head : c.ran.version = Store.head streamUuid db.store
  count : c.ran.eventsSinceSnapshot + usableVersion streamUuid c.version st = c.ran.version
  attempted : c.attempted = c.ran.asksFor q.definition
  behind : SnapshotBehind streamUuid db.store
  usable : ∀ version, usableVersion streamUuid version db.store =
    if c.stored then if c.version = version then c.ran.version else 0
    else usableVersion streamUuid version st

theorem returned_of_ok (hbehind : SnapshotBehind streamUuid s.db.store)
    (ha : Alone s.db.store q.moments) (h : runCommandWithSnapshots streamUuid q = some (.ok c, db)) :
    Returned streamUuid q s.db.store c db := by
  unfold runCommandWithSnapshots at h
  split at h
  · cases h
  · cases h
  · rename_i r db₀ rest hrun
    obtain ⟨hreach₀, hsnap, hle, hversion, hcount⟩ := runCommandAndApply_alone ha hbehind hrun
    have hkept : SnapshotBehind streamUuid db₀.store := fun snap hfind =>
      (hbehind snap (hsnap ▸ hfind)).trans hle
    dsimp only at h
    split_ifs at h with hasks
    · split at h
      · rename_i st hwrite
        cases h
        unfold Request.write at hwrite
        split_ifs at hwrite
        obtain ⟨u, t, v, data, hu, -, hv, -, -, rfl⟩ := recordSnapshot_ok (toOption_eq_some hwrite)
        cases hu
        cases hv
        have hsame := sameEvents_upsertSnapshot q.now streamUuid t r.version data
          (stampVersion q.definition.snapshotModuleVersion) db₀.store
        have hhead : Store.head streamUuid (upsertSnapshot q.now streamUuid t (r.version : ℤ).toNat data
            (stampVersion q.definition.snapshotModuleVersion) db₀.store) =
              Store.head streamUuid db₀.store := congrArg (fun log => (onStream streamUuid log).length)
                hsame.log
        refine ⟨rfl, .other hreach₀ hsame, by rw [hhead]; exact hle, by rw [hhead]; exact hversion,
          hcount, hasks.symm, fun snap hfind => ?_, fun version => ?_⟩
        · simp only [upsertSnapshot, Table.find?_put, if_true, Option.some.injEq] at hfind
          subst hfind
          rw [hhead, ← hversion]
          exact (Int.toNat_natCast _).le
        · simp only [usableVersion, upsertSnapshot, Table.find?_put, if_true, readVersion_stampVersion,
            Int.toNat_natCast]
      · cases h
        exact ⟨rfl, hreach₀, hle, hversion, hcount, hasks.symm, hkept,
          fun version => usableVersion_eq hsnap⟩
    · cases h
      exact ⟨rfl, hreach₀, hle, hversion, hcount, by simpa using hasks, hkept,
        fun version => usableVersion_eq hsnap⟩

theorem asksFor_everyN {d : AggregateDefinition S C V} (hpolicy : everyN n = .ok policy)
    (hd : d.snapshotPolicy = some policy) (r : RanCommand S) :
    0 < n ∧ (r.asksFor d = true ↔ r.appended ≠ [] ∧ n ≤ r.eventsSinceSnapshot) := by
  unfold everyN at hpolicy
  split_ifs at hpolicy with hn
  cases hpolicy
  refine ⟨not_le.mp hn, ?_⟩
  unfold RanCommand.asksFor
  cases r.appended <;> simp [hd]

/-- **A call that returned keeps the invariant.** -/
theorem Series.Inv.returned (hpolicy : everyN n = .ok policy) (hs : s.Inv streamUuid n)
    (hd : q.definition.snapshotPolicy = some policy) (h : Returned streamUuid q s.db.store c db) :
    Series.Inv streamUuid n
      ⟨db, s.calls ++ [(c, usableVersion streamUuid q.definition.snapshotModuleVersion s.db.store)]⟩ := by
  have hcount := h.count
  have hhead := h.head
  have hgrown := h.head_le
  have hle : usableVersion streamUuid c.version s.db.store ≤ Store.head streamUuid s.db.store :=
    usableVersion_le hs.behind
  obtain ⟨hpos, hasks⟩ := asksFor_everyN hpolicy hd c.ran
  rw [← h.attempted] at hasks
  refine ⟨h.reachable, h.behind, ⟨fun x hx => ?_, fun x hx hne hstored => ?_,
    fun pre x post heq howed hne => ?_⟩, fun version howed => ?_⟩
  · rcases List.mem_append.mp hx with hx | hx
    · exact hs.bounded.count x hx
    · obtain rfl := List.mem_singleton.mp hx
      rw [← h.version]
      exact hcount
  · obtain rfl : _ = x := by simpa using hx
    refine ⟨hhead, hhead ▸ usableVersion_le h.behind, ?_⟩
    have husable := h.usable c.version
    dsimp only at hne hstored ⊢
    cases hst : c.stored with
    | true =>
      rw [hst, if_pos rfl, if_pos rfl] at husable
      rw [husable, Nat.sub_self]
      exact_mod_cast hpos
    | false =>
      rw [hst] at husable
      have hnot : ¬ n ≤ c.ran.eventsSinceSnapshot := fun hn => by
        have habsurd := hstored (hasks.mpr ⟨hne, hn⟩)
        rw [hst] at habsurd
        cases habsurd
      have heq : c.ran.version - usableVersion streamUuid c.version db.store =
          c.ran.eventsSinceSnapshot := by
        rw [husable]
        show c.ran.version - usableVersion streamUuid c.version s.db.store = _
        omega
      rw [heq]
      exact not_le.mp hnot
  · rcases List.eq_nil_or_concat post with rfl | ⟨post, y, rfl⟩
    · obtain ⟨rfl, hx⟩ := List.append_inj' heq rfl
      obtain rfl := List.singleton_inj.mp hx
      have hdue := hs.owed c.version howed
      have hmore : Store.head streamUuid s.db.store - usableVersion streamUuid c.version s.db.store ≤
          c.ran.eventsSinceSnapshot := by omega
      exact hasks.mpr ⟨hne, hdue.trans (by exact_mod_cast hmore)⟩
    · rw [List.concat_eq_append, ← List.cons_append, ← List.append_assoc] at heq
      obtain ⟨hpre, -⟩ := List.append_inj' heq rfl
      exact hs.bounded.again pre x post hpre howed hne
  · have husable := h.usable version
    dsimp only
    rcases owed_snoc howed with ⟨howed, hstored⟩ | ⟨rfl, hattempted, hstored⟩
    · have hdue := hs.owed version howed
      have hsame : usableVersion streamUuid version db.store ≤
          usableVersion streamUuid version s.db.store := by
        rw [husable]
        split_ifs with hst hversion
        · rw [hstored hversion] at hst
          cases hst
        · exact Nat.zero_le _
        · exact le_rfl
      exact hdue.trans (by exact_mod_cast (show _ ≤ _ by omega))
    · rw [hstored] at husable
      have hmore : c.ran.eventsSinceSnapshot ≤
          Store.head streamUuid db.store - usableVersion streamUuid c.version db.store := by
        rw [husable]
        show _ ≤ _ - usableVersion streamUuid c.version s.db.store
        omega
      exact (hasks.mp hattempted).2.trans (by exact_mod_cast hmore)

/-- A command that failed leaves the store as it is. -/
theorem failed_of_error {e : CommandError} (hbehind : SnapshotBehind streamUuid s.db.store)
    (ha : Alone s.db.store q.moments) (h : runCommandWithSnapshots streamUuid q = some (.error e, db)) :
    db.Reachable ∧ db.store = s.db.store := by
  unfold runCommandWithSnapshots at h
  split at h
  · cases h
  · rename_i hrun
    cases h
    exact runCommandAndApply_alone ha hbehind hrun
  · dsimp only at h
    split_ifs at h
    · split at h <;> cases h
    · cases h

theorem Series.Inv.step (hpolicy : everyN n = .ok policy) (hs : s.Inv streamUuid n)
    (hq : Sequential policy s q) (h : s.step streamUuid q = some s') : s'.Inv streamUuid n := by
  obtain ⟨hd, ha⟩ := hq
  unfold Series.step at h
  split at h
  · cases h
  · rename_i hrun
    cases h
    obtain ⟨hreach, hst⟩ := failed_of_error hs.behind ha hrun
    refine ⟨hreach, ?_, ⟨hs.bounded.count, ?_, hs.bounded.again⟩, ?_⟩
    · rw [hst]
      exact hs.behind
    · rw [hst]
      exact hs.bounded.bound
    · rw [hst]
      exact hs.owed
  · rename_i c db hrun
    cases h
    exact hs.returned hpolicy hd (returned_of_ok hs.behind ha hrun)

theorem Series.Inv.of_reachable (hpolicy : everyN n = .ok policy)
    (hs : ReachableWhen (series streamUuid) (Sequential (C := C) (V := V) policy) s) :
    s.Inv streamUuid n := by
  refine hs.invariant (fun s hs => ?_) fun _ _ _ hs hq hstep => hs.step hpolicy hq hstep
  obtain ⟨hreach, hbehind, hnil⟩ := hs
  refine ⟨hreach, hbehind, ⟨?_, ?_, ?_⟩, ?_⟩ <;> rw [hnil]
  · exact fun c hc => by cases hc
  · exact fun c hc => by cases hc
  · exact fun pre c post heq => by simp at heq
  · rintro version ⟨pre, c, mid, heq, -⟩
    simp at heq

/-- **`everyN` bounds replay**, whatever the module versions of the calls and whichever writes fail. -/
theorem replay_bounded (hpolicy : everyN n = .ok policy)
    (hs : ReachableWhen (series streamUuid) (Sequential (C := C) (V := V) policy) s) :
    Bounded streamUuid n s :=
  (Series.Inv.of_reachable hpolicy hs).bounded

end Step

/-! ## A failed write -/

/-- Every command appends one event. -/
def openings : AggregateDefinition ℕ Unit Json where
  type := "account"
  initialState := 0
  execute _ _ := .ok [⟨none, "opened", .null, none, none, none⟩]
  apply n _ := n + 1
  snapshotPolicy := some fun _ _ eventsSinceLast => decide ((1 : ℚ) ≤ eventsSinceLast)
  snapshotModuleVersion := some "v1"

def openingRequest (db : Db) (id : String) (delivered : Bool) : Request ℕ Unit Json where
  definition := openings
  codec := eventCodec
  command := ()
  opts := ⟨none, none, some "dddddddd-dddd-dddd-dddd-dddddddddddd", none, none⟩
  uuid := ""
  moments := List.replicate 3 ⟨db, 10, fun _ => id⟩
  now := 20
  delivered := delivered

/-- The first write is lost, and the next command writes. -/
def openingRun : Option (Series ℕ) :=
  (Series.step "account-1" ⟨Db.install, []⟩
      (openingRequest Db.install "cccccccc-cccc-cccc-cccc-cccccccccccc" false)).bind fun s =>
    s.step "account-1" (openingRequest s.db "eeeeeeee-eeee-eeee-eeee-eeeeeeeeeeee" true)

theorem replay_bounded_openingRun : ∃ s, openingRun = some s ∧
    s.calls.map (fun c => (c.1.attempted, c.1.stored, c.2)) = [(true, false, 0), (true, true, 0)] ∧
    Bounded "account-1" 1 s := by
  have hpolicy : everyN (S := ℕ) 1 = .ok fun _ _ eventsSinceLast => decide ((1 : ℚ) ≤ eventsSinceLast) :=
    if_neg (by norm_num)
  have hrun : openingRun.map (fun s => s.calls.map fun c => (c.1.attempted, c.1.stored, c.2)) =
      some [(true, false, 0), (true, true, 0)] := by decide +kernel
  obtain ⟨s, hs, hcalls⟩ := Option.map_eq_some_iff.mp hrun
  obtain ⟨s₁, hs₁, hs₂⟩ := Option.bind_eq_some_iff.mp hs
  have hsequential : ∀ (s : Series ℕ) (id : String) (delivered : Bool), s.db.Reachable →
      Sequential (fun _ _ eventsSinceLast => decide ((1 : ℚ) ≤ eventsSinceLast)) s
        (openingRequest s.db id delivered) := fun s id delivered hreach =>
    ⟨rfl, fun m hm => by rw [List.eq_of_mem_replicate hm]; exact ⟨hreach, rfl⟩⟩
  have hr₀ : ReachableWhen (series "account-1") (Sequential (C := Unit) (V := Json)
      fun _ _ eventsSinceLast => decide ((1 : ℚ) ≤ eventsSinceLast)) (⟨Db.install, []⟩ : Series ℕ) :=
    .init ⟨.install, fun snap h => (by cases h), rfl⟩
  have hr₁ := hr₀.step (hsequential _ "cccccccc-cccc-cccc-cccc-cccccccccccc" false .install) hs₁
  have hreach := (Series.Inv.of_reachable hpolicy hr₁).reachable
  exact ⟨s, hs, hcalls, replay_bounded hpolicy
    (hr₁.step (hsequential _ "eeeeeeee-eeee-eeee-eeee-eeeeeeeeeeee" true hreach) hs₂)⟩

end Instructed.Aggregate
