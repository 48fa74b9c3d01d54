import Instructed.Aggregate.Reload

/-!
# A load while others append

`loadAggregate` (run-command.ts:459–519) reads the snapshot and then page after page, and others append
to the stream between the reads. The loop stops at a page that is not full, at an empty one, or when
there is no stream.

* `SnapshotFolds`: a snapshot that the definition can use is the fold up to its version;
* `LoadedHead`: the state and the version are those of a database;
* `loadPages_ends`: the loop ends while the stream stays bounded;
* `loadAggregate_head`: **a load returns the fold of the events up to the head that its last read found.**
-/

namespace Instructed.Aggregate

open Sql Relational Numbering

variable {S C V : Type}

section Define

variable (d : AggregateDefinition S C V) (codec : Codec S V) (streamUuid : String) (st : Store)

/-- The events of the stream, as `apply` sees them. -/
def Store.domainEvents : List (DomainEvent V) :=
  (onStream streamUuid st.log).map (recordedToDomain codec)

/-- If the definition can use the snapshot of the stream, it is the fold of the events up to its
    version. -/
def SnapshotFolds : Prop :=
  ∀ snap, st.snapshots.find? streamUuid = some snap → readVersion snap.metadata = d.snapshotModuleVersion →
    snap.sourceVersion ≤ (onStream streamUuid st.log).length ∧
      codec.jsonToState snap.data =
        ((Store.domainEvents codec streamUuid st).take snap.sourceVersion).foldl d.apply d.initialState

/-- The fold of all events of the stream, with the version of the last one. -/
structure LoadedHead (loaded : Loaded S) : Prop where
  version : loaded.version = (onStream streamUuid st.log).length
  /-- The events are numbered from one on. -/
  numbered : Consecutive (·.streamVersion) 1 (onStream streamUuid st.log)
  state : loaded.state = (Store.domainEvents codec streamUuid st).foldl d.apply d.initialState

/-- What the baseline of a load must be. -/
structure BaseOk (base : Loaded S) : Prop where
  version_le : base.version ≤ (onStream streamUuid st.log).length
  state : base.state =
    ((Store.domainEvents codec streamUuid st).take base.version).foldl d.apply d.initialState

end Define

section Load

variable {d : AggregateDefinition S C V} {codec : Codec S V} {streamUuid : String} {st : Store}
  {base loaded final : Loaded S} {db : Db} {m : Moment} {ms rest : List Moment}

/-- The snapshot, or the initial state when there is none that can be used. -/
theorem baseOk_of_snapshot (h : SnapshotFolds d codec streamUuid st)
    (hbase : baseline d codec streamUuid st = .ok base) : BaseOk d codec streamUuid st base := by
  have hinitial : BaseOk d codec streamUuid st ⟨d.initialState, 0, 0⟩ := ⟨Nat.zero_le _, by simp⟩
  unfold baseline Instructed.readSnapshot at hbase
  dsimp only at hbase
  cases hfind : st.snapshots.find? streamUuid with
  | none =>
    rw [hfind] at hbase
    cases hbase
    exact hinitial
  | some snap =>
    rw [hfind] at hbase
    dsimp only at hbase
    split_ifs at hbase with hversion
    · cases hbase
      obtain ⟨hle, hstate⟩ := h snap hfind hversion
      exact ⟨hle, hstate⟩
    · cases hbase
      exact hinitial

/-- A baseline, and the events of a stream that has grown. -/
theorem LoadedAt.head {st' : Store} (hc : st'.Consistent) (hbase : BaseOk d codec streamUuid st base)
    (hpre : onStream streamUuid st.log <+: onStream streamUuid st'.log)
    (h : LoadedAt d codec streamUuid st' base final) : LoadedHead d codec streamUuid st' final := by
  have hle := hbase.version_le
  have hlonger := hpre.length_le
  refine ⟨?_, hc.log_numbered.streamVersion streamUuid, ?_⟩
  · rw [h.version]
    omega
  · obtain ⟨more, hmore⟩ := hpre
    have htake : (Store.domainEvents codec streamUuid st).take base.version =
        (Store.domainEvents codec streamUuid st').take base.version := by
      rw [Store.domainEvents, Store.domainEvents, ← hmore, List.map_append,
        List.take_append_of_le_length (by rw [List.length_map]; exact hle)]
    have hdrop : ((onStream streamUuid st'.log).drop base.version).map (recordedToDomain codec) =
        (Store.domainEvents codec streamUuid st').drop base.version := by
      rw [Store.domainEvents, List.map_drop]
    rw [h.state, hbase.state, htake, hdrop, ← List.foldl_append, List.take_append_drop]

variable (d codec) in
/-- The loop returns a state, unless the stream has grown by a page for each of its reads. -/
theorem loadPages_cases (hu : streamUuid ≠ "$all") (hg : Grow ms)
    (hzero : loaded.version = 0 ∨ ∀ m ∈ ms, onStream streamUuid m.db.store.log ≠ []) :
    (∃ final db rest, loadPages d codec streamUuid loaded ms = some (.ok final, db, rest)) ∨
      loadPages d codec streamUuid loaded ms = none ∧
        ∀ bound, (∀ m ∈ ms, (onStream streamUuid m.db.store.log).length ≤ bound) →
          ms.length * loadPageSize ≤ bound - loaded.version := by
  induction ms generalizing loaded with
  | nil => exact Or.inr ⟨rfl, fun bound _ => by simp⟩
  | cons m ms ih =>
    obtain ⟨hm, hlater, hg⟩ := Grow.cons_iff.mp hg
    have hc := hm.consistent.store
    rw [loadPages, readPage_eq hc hu loaded]
    by_cases hnil : onStream streamUuid m.db.store.log = []
    · have hversion := hzero.resolve_right fun h => h m List.mem_cons_self hnil
      rw [if_pos hnil]
      exact Or.inl ⟨loaded, m.db, ms, if_pos ⟨rfl, hversion⟩⟩
    · rw [if_neg hnil]
      dsimp only
      split_ifs with hlast
      · exact Or.inl ⟨_, _, _, rfl⟩
      · have hlen := hlast
        rw [List.length_take, List.length_drop] at hlen
        have hpos : 0 < loadPageSize := by decide
        have hversion := (foldPage_drop d codec hc
          (show loaded.version ≤ (onStream streamUuid m.db.store.log).length by omega) loadPageSize).1
        rw [List.length_take, List.length_drop] at hversion
        have hlater' : ∀ m' ∈ ms, onStream streamUuid m'.db.store.log ≠ [] := by
          intro m' hm' hnil'
          have hpre := (hlater m' hm').filter fun e => decide (e.streamUuid = streamUuid)
          have hle := hpre.length_le
          change (onStream streamUuid m.db.store.log).length ≤
            (onStream streamUuid m'.db.store.log).length at hle
          rw [hnil', List.length_nil] at hle
          omega
        rcases ih hg (Or.inr hlater') with hok | ⟨hnone, hgrown⟩
        · exact Or.inl hok
        · refine Or.inr ⟨hnone, fun bound hbound => ?_⟩
          have hle := hgrown bound fun m' hm' => hbound m' (List.mem_cons_of_mem _ hm')
          have hhead := hbound m List.mem_cons_self
          rw [hversion] at hle
          rw [List.length_cons, Nat.succ_mul]
          omega

theorem BaseOk.zero (h : BaseOk d codec streamUuid st base) (hpre : ∀ m ∈ ms, st.log <+: m.db.store.log) :
    base.version = 0 ∨ ∀ m ∈ ms, onStream streamUuid m.db.store.log ≠ [] := by
  rcases Nat.eq_zero_or_pos base.version with hzero | hpos
  · exact Or.inl hzero
  · refine Or.inr fun m hm hnil => ?_
    have hle := ((hpre m hm).filter fun e => decide (e.streamUuid = streamUuid)).length_le
    change (onStream streamUuid st.log).length ≤ (onStream streamUuid m.db.store.log).length at hle
    rw [hnil, List.length_nil] at hle
    have hbase := h.version_le
    omega

/-- **A load while others append.** It returns the fold of the events up to the head that its last read
    found. When the appends pause, it returns. -/
theorem loadAggregate_head (hu : streamUuid ≠ "$all") (hsnap : SnapshotFolds d codec streamUuid m.db.store) :
    (∀ ms reply db rest, Grow (m :: ms) →
      loadAggregate d codec streamUuid (m :: ms) = some (reply, db, rest) →
        ∃ pre last loaded, ms = pre ++ last :: rest ∧ db = last.db ∧ reply = .ok loaded ∧
          LoadedHead d codec streamUuid last.db.store loaded) ∧
    ∀ later : ℕ → Moment, (∀ n, Grow (m :: (List.range n).map later)) →
      (∃ n, ∀ k, n ≤ k → onStream streamUuid (later k).db.store.log =
        onStream streamUuid (later n).db.store.log) →
      ∃ n reply, loadAggregate d codec streamUuid (m :: (List.range n).map later) = some reply := by
  obtain ⟨base, hbase⟩ := exists_baseline d codec streamUuid m.db.store
  have hbaseOk := baseOk_of_snapshot hsnap hbase
  have hload : ∀ ms, loadAggregate d codec streamUuid (m :: ms) =
      loadPages d codec streamUuid base ms := fun ms => by rw [loadAggregate, hbase]
  constructor
  · intro ms reply db rest hg h
    obtain ⟨-, hlater, hg⟩ := Grow.cons_iff.mp hg
    rw [hload] at h
    obtain ⟨final, db', rest', hok⟩ | ⟨hnone, -⟩ :=
      loadPages_cases d codec hu hg (hbaseOk.zero hlater)
    · obtain ⟨rfl, rfl, rfl⟩ : reply = .ok final ∧ db = db' ∧ rest = rest' := by
        simpa using h.symm.trans hok
      obtain ⟨pre, last, rfl, rfl, hat⟩ := loadPages_spec hg hok
      have hmem : last ∈ pre ++ last :: rest := List.mem_append_right _ List.mem_cons_self
      refine ⟨pre, last, final, rfl, rfl, rfl, ?_⟩
      exact hat.head (hg.reachable last hmem).consistent.store hbaseOk ((hlater last hmem).filter _)
    · rw [hnone] at h
      cases h
  · rintro later hg ⟨N, hpause⟩
    let bound := (onStream streamUuid (later N).db.store.log).length
    -- Neither before nor after the pause is the stream longer.
    have hbound : ∀ k, (onStream streamUuid (later k).db.store.log).length ≤ bound := by
      intro k
      rcases Nat.lt_or_ge k N with hlt | hge
      · have hpairs := (Grow.cons_iff.mp (hg (N + 1))).2.2.log
        rw [List.pairwise_map] at hpairs
        have hpre := List.pairwise_iff_getElem.mp hpairs k N (by simp; omega) (by simp) hlt
        simp only [List.getElem_range] at hpre
        exact (hpre.filter _).length_le
      · exact (congrArg List.length (hpause k hge)).le
    refine ⟨bound + 1, ?_⟩
    obtain ⟨-, hlater, hgrow⟩ := Grow.cons_iff.mp (hg (bound + 1))
    rw [hload]
    obtain ⟨final, db, rest, hok⟩ | ⟨-, hfull⟩ :=
      loadPages_cases d codec hu hgrow (hbaseOk.zero hlater)
    · exact ⟨_, hok⟩
    · exfalso
      have hle := hfull bound fun m' hm' => by
        obtain ⟨k, -, rfl⟩ := List.mem_map.mp hm'
        exact hbound k
      rw [List.length_map, List.length_range] at hle
      simp only [loadPageSize] at hle
      omega

/-- The state counts the events. -/
def eventCounter : AggregateDefinition ℕ Unit Json where
  type := "account"
  initialState := 0
  execute _ _ := .ok []
  apply n _ := n + 1
  snapshotPolicy := none
  snapshotModuleVersion := none

def eventCodec : Codec ℕ Json := plainCodec.withState (fun n => .int n) (fun _ => 0)

/-- Another client opens the account. -/
def sampleOpening : Db :=
  (Db.install.append 10 (appendArgs eventCodec "account-1" 0 (fun _ => "")
    [⟨some "cccccccc-cccc-cccc-cccc-cccccccccccc", "opened", .null, none, none, none⟩])).2

/-- The account is opened between the snapshot read and the first page. -/
theorem loadAggregate_head_sampleOpening : ∃ loaded, loadAggregate eventCounter eventCodec "account-1"
      [⟨Db.install, 10, fun _ => ""⟩, ⟨sampleOpening, 20, fun _ => ""⟩] =
        some (.ok loaded, sampleOpening, []) ∧
    loaded.version = 1 ∧ LoadedHead eventCounter eventCodec "account-1" sampleOpening.store loaded := by
  have hrun : ((loadAggregate eventCounter eventCodec "account-1"
      [⟨Db.install, 10, fun _ => ""⟩, ⟨sampleOpening, 20, fun _ => ""⟩]).bind fun x =>
        x.1.toOption.map fun l => (l.version, x.2.2.length)) = some (1, 0) := by decide +kernel
  obtain ⟨⟨x, db, rest⟩, hx, heq⟩ := Option.bind_eq_some_iff.mp hrun
  obtain ⟨loaded, hl, heq⟩ := Option.map_eq_some_iff.mp heq
  obtain ⟨hversion, hrest⟩ := by simpa only [Prod.mk.injEq] using heq
  obtain rfl := toOption_eq_some hl
  obtain rfl := List.eq_nil_of_length_eq_zero hrest
  have hg : Grow [⟨Db.install, 10, fun _ => ""⟩, ⟨sampleOpening, 20, fun _ => ""⟩] := by
    refine Grow.cons_iff.mpr ⟨.install, fun m hm => ?_, Grow.cons_iff.mpr ⟨.append _ _ .install, ?_⟩⟩
    · show ([] : List RecordedEvent) <+: m.db.store.log
      exact List.nil_prefix
    · exact ⟨by simp, by simp, .nil⟩
  obtain ⟨hsafe, -⟩ := @loadAggregate_head _ _ _ eventCounter eventCodec "account-1"
    ⟨Db.install, 10, fun _ => ""⟩ (by decide) fun snap hsnap => by cases hsnap
  obtain ⟨pre, last, loaded', hms, rfl, heq, hhead⟩ := hsafe _ _ _ _ hg hx
  obtain rfl := Except.ok.inj heq
  obtain rfl : last = ⟨sampleOpening, 20, fun _ => ""⟩ := by
    have hlast := congrArg List.getLast? hms
    rw [List.getLast?_append] at hlast
    exact (Option.some.inj hlast).symm
  exact ⟨loaded, hx, hversion, hhead⟩

end Load

end Instructed.Aggregate
