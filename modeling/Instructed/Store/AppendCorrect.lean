import Instructed.Store.Invariant
import Mathlib.Algebra.GroupWithZero.Nat
import Mathlib.Algebra.Order.BigOperators.Group.Finset

/-!
# `append_to_stream` keeps the event store consistent

The spec lemmas of the statements of `append_to_stream`, composed to one for the call, and what
follows from it for any sequence of calls.

Results:

* `resolveStream_ok`, `bumpAll_ok`, `insertEvents_ok`: what each step leaves behind on success;
* `appendRequest_ok`: a successful request is one `Store.appendBatch`;
* `Db.Consistent.append`: a call keeps `Db.Consistent`, whether it succeeds or fails;
* `appends_storeInvariant`: every database reached from the empty install by appends satisfies the
  six facts of `StoreInvariant`.
-/

namespace Instructed

open Sql Relational

/-! ## One call -/

/-- What a successful `mapM` says about each element, as an equation of lists. -/
theorem map_of_mapM_ok {α β γ ε : Type} {f : α → Except ε β} {g : β → γ} {h : α → γ} :
    ∀ {xs : List α} {ys : List β}, (∀ x ∈ xs, ∀ y, f x = .ok y → g y = h x) →
      xs.mapM f = .ok ys → ys.map g = xs.map h := by
  intro xs
  induction xs with
  | nil =>
    intro ys _ hxs
    cases hxs
    rfl
  | cons x xs ih =>
    intro ys hgh hxs
    rw [List.mapM_cons] at hxs
    cases hx : f x with
    | error e => rw [hx] at hxs; cases hxs
    | ok y =>
      cases htail : xs.mapM f with
      | error e => rw [hx, htail] at hxs; cases hxs
      | ok zs =>
        rw [hx, htail] at hxs
        cases hxs
        rw [List.map_cons, List.map_cons, hgh x List.mem_cons_self y hx,
          ih (fun z hz => hgh z (List.mem_cons_of_mem _ hz)) htail]

/-- Every result of a successful `mapM` comes from an element. -/
theorem mem_of_mapM_ok {α β ε : Type} {f : α → Except ε β} {xs : List α} {ys : List β} {y : β}
    (h : xs.mapM f = .ok ys) (hy : y ∈ ys) : ∃ x ∈ xs, f x = .ok y := by
  have hmap := map_of_mapM_ok (g := Except.ok) (h := f) (fun _ _ _ h => h.symm) h
  have hm : Except.ok y ∈ xs.map f := hmap ▸ List.mem_map_of_mem hy
  exact List.mem_map.mp hm

/-- A successful `mapM` keeps the length. -/
theorem length_of_mapM_ok {α β ε : Type} {f : α → Except ε β} {xs : List α} {ys : List β}
    (h : xs.mapM f = .ok ys) : ys.length = xs.length := by
  have hlen := congrArg List.length
    (map_of_mapM_ok (g := fun _ => ()) (h := fun _ => ()) (fun _ _ _ _ => rfl) h)
  rwa [List.length_map, List.length_map] at hlen

theorem newEvents_length {now : Timestamp} {events : List Json} {es : List EventRow}
    (h : newEvents now events = .ok es) : es.length = events.length := by
  unfold newEvents at h
  cases hrows : events.mapM newEventRow with
  | error e => rw [hrows] at h; cases h
  | ok rows =>
    rw [hrows] at h
    rw [length_of_mapM_ok h, length_of_mapM_ok hrows]

/-- A checked batch is the array that was sent. -/
theorem eventsOf_ok {events : Option Json} {es : { es : List Json // es ≠ [] }}
    (h : eventsOf events = .ok es) : events = some (.arr es.val) := by
  unfold eventsOf at h
  split at h
  · split_ifs at h
    · cases h
    · cases h
    · cases h
    · cases h
      rfl
  · cases h

/-- The columns of the inserted rows that hold the caller's data. -/
theorem newEvents_columns {now : Timestamp} {events : List Json} {es : List EventRow}
    (h : newEvents now events = .ok es) :
    es.map (fun e => (some e.eventType, e.data, e.metadata)) =
      events.map fun evt => (evt.getText? "event_type", (evt.get? "data").getD .null,
        evt.get? "metadata") := by
  unfold newEvents at h
  cases hrows : events.mapM newEventRow with
  | error e => rw [hrows] at h; cases h
  | ok rows =>
    rw [hrows] at h
    have hes : es.map (fun e => (some e.eventType, e.data, e.metadata)) =
        rows.map fun r => (r.eventType, r.data, r.metadata) := by
      refine map_of_mapM_ok (fun r _ e he => ?_) h
      unfold NewEventRow.toEventRow at he
      split at he
      · cases he
        simp [*]
      · cases he
    rw [hes]
    refine map_of_mapM_ok (fun evt _ r hr => ?_) hrows
    unfold newEventRow at hr
    simp only [bind, Except.bind] at hr
    split at hr
    · cases hr
    · split at hr
      · cases hr
      · split at hr
        · cases hr
        · cases hr
          rfl

section Resolve

variable {st : Store} {id n : ℕ} {u : String} {row : StreamRow}

theorem insertStream_ok (h0 : id ≠ 0) (h : insertStream st id u n = .ok row) :
    st.Target id u n row := by
  unfold insertStream at h
  split_ifs at h with hid hu
  cases h
  exact .fresh h0 (by simpa using hid) (by simpa using hu)

theorem upsertStream_ok (h0 : id ≠ 0) (h : upsertStream st id u n = .ok row) :
    st.Target id u n row := by
  unfold upsertStream at h
  cases hold : st.streamByUuid u with
  | some old =>
    rw [hold] at h
    cases h
    exact .existing hold
  | none =>
    rw [hold] at h
    cases hins : insertStream st id u n with
    | ok x =>
      rw [hins] at h
      cases h
      exact insertStream_ok h0 hins
    | error c => rw [hins] at h; cases h

theorem createStream_ok (h0 : id ≠ 0) (h : createStream st id u n = .ok row) :
    st.Target id u n row := by
  unfold createStream at h
  cases hins : insertStream st id u n with
  | ok x =>
    rw [hins] at h
    cases h
    exact insertStream_ok h0 hins
  | error c => rw [hins] at h; cases h

theorem createStreamAtZero_ok (h0 : id ≠ 0) (h : createStreamAtZero st id u n = .ok row) :
    st.Target id u n row := by
  unfold createStreamAtZero at h
  cases hins : insertStream st id u n with
  | ok x =>
    rw [hins] at h
    cases h
    exact insertStream_ok h0 hins
  | error c => rw [hins] at h; cases h

theorem checkVersion_ok {old : StreamRow} {v : ℕ} (h : checkVersion old v = .ok row) :
    row = old ∧ old.streamVersion = v := by
  unfold checkVersion at h
  split_ifs at h with hv
  · cases h
  · cases h
    exact ⟨rfl, by simpa using hv⟩

/-- What step (1) leaves behind, whichever branch it took. -/
theorem resolveStream_ok {r : AppendRequest} (h0 : id ≠ 0)
    (h : resolveStream st id r = .ok row) : st.Target id r.streamUuid r.n row := by
  unfold resolveStream at h
  cases hexp : r.expected with
  | any =>
    rw [hexp] at h
    exact upsertStream_ok h0 h
  | noStream =>
    rw [hexp] at h
    exact createStream_ok h0 h
  | streamExists =>
    simp only [hexp] at h
    cases hold : st.streamByUuid r.streamUuid with
    | none => rw [hold] at h; cases h
    | some old =>
      rw [hold] at h
      cases h
      exact .existing hold
  | exact v =>
    simp only [hexp] at h
    cases hold : st.streamByUuid r.streamUuid with
    | none =>
      simp only [hold] at h
      split_ifs at h
      exact createStreamAtZero_ok h0 h
    | some old =>
      simp only [hold] at h
      cases hcheck : checkVersion old v with
      | error e => rw [hcheck] at h; cases h
      | ok x =>
        rw [hcheck] at h
        cases h
        rw [(checkVersion_ok hcheck).1]
        exact .existing hold

end Resolve

theorem bumpAll_ok {st : Store} {n : ℕ} {all : StreamRow} (h : bumpAll st n = .ok all) :
    ∃ old, st.streams.find? 0 = some old ∧ all = old.bump n := by
  unfold bumpAll at h
  cases hf : st.streams.find? 0 with
  | none => rw [hf] at h; cases h
  | some old =>
    rw [hf] at h
    cases h
    exact ⟨old, rfl, rfl⟩

theorem insertEvents_ok {st : Store} {now : Timestamp} {r : AppendRequest} {row all : StreamRow}
    {batch : EventBatch} (h : insertEvents st now r row all = .ok batch) :
    newEvents now r.events = .ok batch.events ∧
    batch.links = newLinks row.streamId (row.streamVersion - r.n) (all.streamVersion - r.n)
      batch.events ∧
    batch.rows = appendedRows (row.streamVersion - r.n) (all.streamVersion - r.n) batch.events ∧
    eventsViolation st batch.events batch.links = none := by
  unfold insertEvents at h
  cases hes : newEvents now r.events with
  | error e => rw [hes] at h; cases h
  | ok es =>
    simp only [hes, bind, Except.bind] at h
    cases hv : eventsViolation st es
        (newLinks row.streamId (row.streamVersion - r.n) (all.streamVersion - r.n) es) with
    | some c => rw [hv] at h; cases h
    | none =>
      rw [hv] at h
      cases h
      exact ⟨rfl, rfl, rfl, hv⟩

/-- A successful request inserts one batch, and the store after it is the batch's. -/
theorem appendRequest_ok {st st' : Store} {id : ℕ} {now : Timestamp} {r : AppendRequest}
    {rows : List AppendedRow} (hc : st.Consistent) (h0 : id ≠ 0)
    (h : appendRequest id now r st = .ok (rows, st')) :
    ∃ row all es, resolveStream st id r = .ok row ∧ newEvents now r.events = .ok es ∧
      st.BatchOk id r.streamUuid row all es ∧ st' = st.appendBatch row all es ∧
      rows = appendedRows (row.streamVersion - es.length) (all.streamVersion - es.length) es := by
  unfold appendRequest at h
  cases hrow : resolveStream st id r with
  | error e => rw [hrow] at h; cases h
  | ok row =>
    have htarget := resolveStream_ok h0 hrow
    have hne := hc.target_ne_zero r.not_all htarget
    simp only [hrow, bind, Except.bind] at h
    cases hall : bumpAll (st.putStream row) r.n with
    | error e => rw [hall] at h; cases h
    | ok all =>
      obtain ⟨old, hold, hallrow⟩ := bumpAll_ok hall
      rw [Store.putStream_streams, Table.find?_put, if_neg hne] at hold
      simp only [hall] at h
      cases hbatch : insertEvents ((st.putStream row).putStream all) now r row all with
      | error e => rw [hbatch] at h; cases h
      | ok batch =>
        obtain ⟨hes, hls, hrows, hv⟩ := insertEvents_ok hbatch
        have hlen : r.n = batch.events.length := (newEvents_length hes).symm
        rw [hbatch] at h
        cases h
        rw [hlen] at hls hrows htarget hallrow
        refine ⟨row, all, batch.events, rfl, hes, ?_, ?_, hrows⟩
        · refine ⟨r.not_all, ?_, htarget, ⟨old, hold, hallrow⟩, hls ▸ hv⟩
          exact List.ne_nil_of_length_pos (hlen ▸ r.n_pos)
        · rw [Store.appendBatch, hls]

/-- The identity sequence is ahead of every stream id. -/
structure Db.Consistent (db : Db) : Prop where
  store : db.store.Consistent
  seq_pos : 0 < db.streamIdSeq
  seq : ∀ r ∈ db.store.streams.rows, r.streamId < db.streamIdSeq

theorem Db.install_consistent : Db.install.Consistent := by
  have hrow : ∀ r ∈ Store.install.streams.rows, r = ⟨0, "$all", 0⟩ := fun r hr =>
    List.mem_singleton.mp hr
  refine ⟨⟨⟨0, rfl⟩, ?_, ?_, ?_, fun s _ => rfl, ?_, rfl, ?_⟩, Nat.one_pos, ?_⟩
  · intro r hr r' hr' _
    rw [hrow r hr, hrow r' hr']
  · intro r hr
    rw [hrow r hr]
    rfl
  · intro r hr h0
    rw [hrow r hr] at h0
    exact absurd rfl h0
  · intro l hl
    cases hl
  · intro l hl
    cases hl
  · intro r hr
    rw [hrow r hr]
    exact Nat.one_pos

theorem Db.nextSeq_ge (db : Db) (a : AppendArgs) : db.streamIdSeq ≤ db.nextSeq a := by
  unfold Db.nextSeq
  split
  · split_ifs <;> omega
  · exact Nat.le_refl _

/-- An append touches the event store only. -/
theorem Db.append_tables (db : Db) (now : Timestamp) (a : AppendArgs) :
    (db.append now a).2.store.subscriptions = db.store.subscriptions ∧
      (db.append now a).2.store.workItems = db.store.workItems ∧
      (db.append now a).2.store.snapshots = db.store.snapshots := by
  unfold Db.append
  split
  · rename_i rows st h
    obtain ⟨r, -, h⟩ := bind_eq_ok.mp h
    obtain ⟨row, -, h⟩ := bind_eq_ok.mp h
    obtain ⟨all, -, h⟩ := bind_eq_ok.mp h
    obtain ⟨batch, -, h⟩ := bind_eq_ok.mp h
    cases h
    exact ⟨rfl, rfl, rfl⟩
  · exact ⟨rfl, rfl, rfl⟩

/-- A request that creates its stream has drawn the new id. -/
theorem drawsStreamId_of_resolveStream {st : Store} {id : ℕ} {r : AppendRequest} {row : StreamRow}
    (h : resolveStream st id r = .ok row) (hu : st.streamByUuid r.streamUuid = none) :
    r.drawsStreamId st = true := by
  unfold resolveStream at h
  unfold AppendRequest.drawsStreamId
  cases hexp : r.expected with
  | any => rfl
  | noStream => rfl
  | streamExists =>
    simp only [hexp, hu] at h
    cases h
  | exact v =>
    simp only [hexp, hu] at h
    split_ifs at h with hv
    simp [hv, hu]

theorem Db.Consistent.append {db : Db} (hc : db.Consistent) (now : Timestamp) (a : AppendArgs) :
    (db.append now a).2.Consistent := by
  have hge := db.nextSeq_ge a
  have hpos := hc.seq_pos
  unfold Db.append
  cases h : appendToStream db.streamIdSeq now a db.store with
  | error e => exact ⟨hc.store, Nat.lt_of_lt_of_le hpos hge, fun r hr => Nat.lt_of_lt_of_le (hc.seq r hr) hge⟩
  | ok res =>
    obtain ⟨rows, st'⟩ := res
    unfold appendToStream at h
    cases hr : validateAppend a with
    | error e => rw [hr] at h; cases h
    | ok r =>
      rw [hr] at h
      obtain ⟨row, all, es, hrow, -, hb, rfl, -⟩ :=
        appendRequest_ok hc.store (Nat.pos_iff_ne_zero.mp hpos) h
      refine ⟨hc.store.addBatch hb, Nat.lt_of_lt_of_le hpos hge, fun x hx => ?_⟩
      rcases (mem_appendBatch hc.store hb).mp hx with rfl | rfl | ⟨hx, -⟩
      · rw [(all_streamId hc.store hb).1]
        exact Nat.lt_of_lt_of_le hpos hge
      · cases hb.target with
        | existing hold =>
          have hlt := hc.seq _ (Store.mem_of_streamByUuid hold)
          exact Nat.lt_of_lt_of_le hlt hge
        | fresh _ _ hu =>
          simp only [Db.nextSeq, hr, drawsStreamId_of_resolveStream hrow hu, if_true]
          exact Nat.lt_succ_self _
      · exact Nat.lt_of_lt_of_le (hc.seq x hx) hge

/-- An append keeps the streams under their ids; a stream that it creates has an unused id. -/
theorem Db.Consistent.append_streams {db : Db} (hc : db.Consistent) (now : Timestamp)
    (a : AppendArgs) :
    (∀ r ∈ db.store.streams.rows, ∃ r' ∈ (db.append now a).2.store.streams.rows,
      r'.streamId = r.streamId ∧ r'.streamUuid = r.streamUuid) ∧
    ∀ r' ∈ (db.append now a).2.store.streams.rows, db.store.streams.find? r'.streamId = none ∨
      ∃ r ∈ db.store.streams.rows, r.streamId = r'.streamId ∧ r.streamUuid = r'.streamUuid := by
  unfold Db.append
  cases h : appendToStream db.streamIdSeq now a db.store with
  | error e => exact ⟨fun r hr => ⟨r, hr, rfl, rfl⟩, fun r hr => Or.inr ⟨r, hr, rfl, rfl⟩⟩
  | ok res =>
    obtain ⟨rows, st'⟩ := res
    obtain ⟨r, -, h⟩ := bind_eq_ok.mp h
    obtain ⟨row, all, es, -, -, hb, rfl, -⟩ :=
      appendRequest_ok hc.store (Nat.pos_iff_ne_zero.mp hc.seq_pos) h
    obtain ⟨old, hold, hall⟩ := hb.allRow
    have hmem := fun x => mem_appendBatch hc.store hb (x := x)
    have hold' := Table.find?_eq_some_iff.mp hold
    constructor
    · intro x hx
      by_cases h0 : x.streamId = 0
      · refine ⟨all, (hmem all).mpr (Or.inl rfl), ?_⟩
        rw [db.store.streams.eq_of_key_eq hx hold'.1 (h0.trans hold'.2.symm), hall]
        exact ⟨rfl, rfl⟩
      · by_cases hid : x.streamId = row.streamId
        · refine ⟨row, (hmem row).mpr (Or.inr (Or.inl rfl)), hid.symm, ?_⟩
          rw [hb.target.uuid]
          exact (hb.target.uuid_of_mem hx hid).symm
        · exact ⟨x, (hmem x).mpr (Or.inr (Or.inr ⟨hx, hid, h0⟩)), rfl, rfl⟩
    · intro x hx
      rcases (hmem x).mp hx with rfl | rfl | ⟨hx, -⟩
      · exact Or.inr ⟨old, hold'.1, by rw [hall]; exact ⟨rfl, rfl⟩⟩
      · cases hb.target with
        | existing hrow => exact Or.inr ⟨_, Store.mem_of_streamByUuid hrow, rfl, rfl⟩
        | fresh _ hnone _ => exact Or.inl hnone
      · exact Or.inr ⟨x, hx, rfl, rfl⟩

/-- Every database reached by appends is consistent. -/
theorem Db.Consistent.appends {db : Db} (hc : db.Consistent)
    (calls : List (Timestamp × AppendArgs)) : (db.appends calls).Consistent := by
  induction calls generalizing db with
  | nil => exact hc
  | cons c calls ih => exact ih (hc.append c.1 c.2)

/-! ## The facts a reader of the tables relies on -/

/-- The store invariant: `s` ranges over the streams other than `$all`, `e` over the events. -/
structure StoreInvariant (st : Store) : Prop where
  /-- The versions linked to a stream are `1, …, stream_version`, each once. -/
  streamVersions : ∀ s ∈ st.streams.rows, s.streamUuid ≠ "$all" →
    ((st.links s.streamId).map (·.streamVersion)).Perm (List.range' 1 s.streamVersion)
  /-- The event numbers are `1, …, stream_version` of `$all`, each once. -/
  eventNumbers : ∃ all, st.streams.find? 0 = some all ∧ all.streamUuid = "$all" ∧
    ((st.links 0).map (·.streamVersion)).Perm (List.range' 1 all.streamVersion)
  /-- An event has two links: its origin, and the `$all` link that repeats the origin. -/
  twoLinks : ∀ e ∈ st.events.rows, ∃ s ∈ st.streams.rows, s.streamUuid ≠ "$all" ∧ ∃ sv en,
    (st.streamEvents.rows.filter fun l => decide (l.eventId = e.eventId)).Perm
      [⟨e.eventId, s.streamId, sv, s.streamId, sv⟩, ⟨e.eventId, 0, en, s.streamId, sv⟩]
  /-- Event ids are unique. -/
  eventIds : (st.events.rows.map (·.eventId)).Nodup
  /-- The version of `$all` is the sum of the others. -/
  total : ∃ all, st.streams.find? 0 = some all ∧ all.streamVersion =
    ((st.streams.rows.filter fun s => decide (s.streamUuid ≠ "$all")).map (·.streamVersion)).sum
  /-- Along a stream the event number increases with the stream version. -/
  increasing : ∀ s ∈ st.streams.rows, s.streamUuid ≠ "$all" →
    ∀ l₁ ∈ st.links s.streamId, ∀ l₂ ∈ st.links s.streamId, ∀ a₁ ∈ st.links 0, ∀ a₂ ∈ st.links 0,
      a₁.eventId = l₁.eventId → a₂.eventId = l₂.eventId →
      l₁.streamVersion < l₂.streamVersion → a₁.streamVersion < a₂.streamVersion

/-- Two links of one event on one stream are the same link. -/
theorem Store.link_eq {st : Store} {i : ℕ} {a b : StreamEventRow} (ha : a ∈ st.links i)
    (hb : b ∈ st.links i) (h : a.eventId = b.eventId) : a = b := by
  obtain ⟨ha, hai⟩ := Store.mem_links.mp ha
  obtain ⟨hb, hbi⟩ := Store.mem_links.mp hb
  exact st.streamEvents.eq_of_key_eq ha hb (by simp [StreamEventRow.pkey, h, hai, hbi])

theorem sum_indicator (ids : List ℕ) (k : ℕ) :
    (ids.map fun i => if i = k then 1 else 0).sum = ids.count k := by
  induction ids with
  | nil => rfl
  | cons i ids ih => rw [List.map_cons, List.sum_cons, ih, List.count_cons, Nat.add_comm]; simp

/-- Counting the elements of a list by their class: each element is in exactly one class. -/
theorem sum_length_filter_eq {α : Type} (xs : List α) (f : α → ℕ) {ids : List ℕ} (hnd : ids.Nodup)
    (hf : ∀ x ∈ xs, f x ∈ ids) :
    (ids.map fun i => (xs.filter fun x => decide (f x = i)).length).sum = xs.length := by
  induction xs with
  | nil => simp
  | cons x xs ih =>
    have hx : f x ∈ ids := hf x List.mem_cons_self
    have hcount : ∀ i, ((x :: xs).filter fun x => decide (f x = i)).length =
        (xs.filter fun x => decide (f x = i)).length + if i = f x then 1 else 0 := by
      intro i
      by_cases h : f x = i
      · simp [h]
      · simp [h, Ne.symm h]
    have hone : (ids.map fun i => if i = f x then 1 else 0).sum = 1 := by
      rw [sum_indicator, List.count_eq_one_of_mem hnd hx]
    simp only [hcount, List.sum_map_add, hone, List.length_cons,
      ih fun y hy => hf y (List.mem_cons_of_mem _ hy)]

namespace Store.Consistent

variable {st : Store} (hc : st.Consistent)
include hc

/-- The `$all` links in stored order have increasing event numbers. -/
theorem allLinks_sorted : (st.links 0).Pairwise fun a b => a.streamVersion < b.streamVersion := by
  obtain ⟨h, hall⟩ := hc.allRow
  have hv := hc.versions _ (Table.mem_of_find? hall)
  have hlt : (List.range' 1 h).Pairwise (· < ·) := List.pairwise_lt_range' 1
  rwa [← hv, List.pairwise_map] at hlt

/-- Within one origin stream, the `$all` links have increasing origin versions. -/
theorem originVersions_sorted {s : StreamRow} (hs : s ∈ st.streams.rows) (h0 : s.streamId ≠ 0) :
    ((st.links 0).filter fun l => decide (l.originalStreamId = s.streamId)).Pairwise fun a b =>
      a.originalStreamVersion < b.originalStreamVersion := by
  have hv := hc.versions s hs
  have ho := congrArg (List.map Prod.snd) (hc.origin s.streamId h0)
  rw [List.map_map, List.map_map] at ho
  have hlt : (List.range' 1 s.streamVersion).Pairwise (· < ·) := List.pairwise_lt_range' 1
  rw [← hv] at hlt
  exact List.pairwise_map.mp (ho ▸ hlt)

/-- A link off `$all` has a link on `$all` that repeats it. -/
theorem exists_allLink {l : StreamEventRow} (hl : l ∈ st.streamEvents.rows) (h0 : l.streamId ≠ 0) :
    ∃ a ∈ st.links 0, a.eventId = l.eventId ∧ a.originalStreamId = l.streamId ∧
      a.originalStreamVersion = l.streamVersion := by
  have hm : (l.eventId, l.streamVersion) ∈
      (st.links l.streamId).map fun l => (l.eventId, l.streamVersion) :=
    List.mem_map.mpr ⟨l, Store.mem_links.mpr ⟨hl, rfl⟩, rfl⟩
  rw [hc.origin _ h0] at hm
  obtain ⟨a, ha, hae⟩ := List.mem_map.mp hm
  obtain ⟨ha, hao⟩ := List.mem_filter.mp ha
  rw [Prod.mk.injEq] at hae
  exact ⟨a, ha, hae.1, of_decide_eq_true hao, hae.2⟩

/-- A link on `$all` has its origin link. -/
theorem exists_originLink {a : StreamEventRow} (ha : a ∈ st.links 0) :
    (⟨a.eventId, a.originalStreamId, a.originalStreamVersion, a.originalStreamId,
      a.originalStreamVersion⟩ : StreamEventRow) ∈ st.streamEvents.rows := by
  obtain ⟨h0, -⟩ := hc.allOrigin a ha
  have hm : (a.eventId, a.originalStreamVersion) ∈
      ((st.links 0).filter fun l => decide (l.originalStreamId = a.originalStreamId)).map fun l =>
        (l.eventId, l.originalStreamVersion) :=
    List.mem_map.mpr ⟨a, List.mem_filter.mpr ⟨ha, by simp⟩, rfl⟩
  rw [← hc.origin _ h0] at hm
  obtain ⟨l, hl, hle⟩ := List.mem_map.mp hm
  obtain ⟨hl, hls⟩ := Store.mem_links.mp hl
  obtain ⟨hlo, hlv⟩ := hc.own l hl (hls ▸ h0)
  obtain ⟨lid, lsid, lsv, losid, losv⟩ := l
  simp only [Prod.mk.injEq] at hle
  simp only at hls hlo hlv
  obtain ⟨rfl, rfl⟩ := hle
  subst hls hlo hlv
  exact hl

theorem twoLinks {e : EventRow} (he : e ∈ st.events.rows) :
    ∃ s ∈ st.streams.rows, s.streamUuid ≠ "$all" ∧ ∃ sv en,
      (st.streamEvents.rows.filter fun l => decide (l.eventId = e.eventId)).Perm
        [⟨e.eventId, s.streamId, sv, s.streamId, sv⟩, ⟨e.eventId, 0, en, s.streamId, sv⟩] := by
  have hm : e.eventId ∈ st.events.rows.map (·.eventId) := List.mem_map_of_mem he
  rw [hc.eventIds] at hm
  obtain ⟨a, ha, hae⟩ := List.mem_map.mp hm
  obtain ⟨ho0, s, hs⟩ := hc.allOrigin a ha
  have hsm := Table.find?_eq_some_iff.mp hs
  refine ⟨s, hsm.1, ?_, a.originalStreamVersion, a.streamVersion, ?_⟩
  · exact fun hu => ho0 (hsm.2 ▸ (hc.streamId_eq_zero_iff hsm.1).mpr hu)
  have hl := hc.exists_originLink ha
  have ha0 := Store.mem_links.mp ha
  rw [hsm.2, ← hae]
  refine (List.perm_ext_iff_of_nodup (st.streamEvents.nodup.of_map.filter _) ?_).mpr fun x => ?_
  · simp [ho0]
  rw [List.mem_filter, decide_eq_true_iff, List.mem_cons, List.mem_singleton]
  constructor
  · rintro ⟨hx, hxe⟩
    by_cases hx0 : x.streamId = 0
    · right
      rw [Store.link_eq (Store.mem_links.mpr ⟨hx, hx0⟩) ha hxe, ← ha0.2]
    · left
      obtain ⟨b, hb, hbe, hbo, hbv⟩ := hc.exists_allLink hx hx0
      obtain rfl : b = a := Store.link_eq hb ha (hbe.trans hxe)
      obtain ⟨hxo, hxv⟩ := hc.own x hx hx0
      ext1
      · exact hxe
      · exact hbo.symm
      · exact hbv.symm
      · exact hxo.trans hbo.symm
      · exact hxv.trans hbv.symm
  · rintro (rfl | rfl)
    · exact ⟨hl, rfl⟩
    · rw [← ha0.2]
      exact ⟨ha0.1, rfl⟩

/-- Counting the `$all` links by their origin. -/
theorem total : ∃ all, st.streams.find? 0 = some all ∧ all.streamVersion =
    ((st.streams.rows.filter fun s => decide (s.streamUuid ≠ "$all")).map
      (·.streamVersion)).sum := by
  obtain ⟨h, hall⟩ := hc.allRow
  refine ⟨_, hall, ?_⟩
  have hlen := congrArg List.length (hc.versions _ (Table.mem_of_find? hall))
  rw [List.length_map, List.length_range'] at hlen
  have hmem : ∀ s ∈ st.streams.rows.filter fun s => decide (s.streamUuid ≠ "$all"),
      s ∈ st.streams.rows ∧ s.streamId ≠ 0 := by
    intro s hs
    obtain ⟨hs, hu⟩ := List.mem_filter.mp hs
    exact ⟨hs, fun h0 => of_decide_eq_true hu ((hc.streamId_eq_zero_iff hs).mp h0)⟩
  have hver : ∀ s ∈ st.streams.rows.filter fun s => decide (s.streamUuid ≠ "$all"),
      s.streamVersion =
        ((st.links 0).filter fun l => decide (l.originalStreamId = s.streamId)).length := by
    intro s hs
    obtain ⟨hs, h0⟩ := hmem s hs
    have hv := congrArg List.length (hc.versions s hs)
    have ho := congrArg List.length (hc.origin s.streamId h0)
    simp only [List.length_map, List.length_range'] at hv ho
    rw [← ho, hv]
  have hsum := sum_length_filter_eq (st.links 0) (·.originalStreamId)
    (st.streams.nodup.sublist
      ((List.filter_sublist (p := fun s => decide (s.streamUuid ≠ "$all"))).map _)) ?_
  · rw [List.map_map] at hsum
    rw [List.map_congr_left hver, ← hlen]
    exact hsum.symm
  · intro l hl
    obtain ⟨h0, r, hr⟩ := hc.allOrigin l hl
    have hr := Table.find?_eq_some_iff.mp hr
    refine List.mem_map.mpr ⟨r, List.mem_filter.mpr ⟨hr.1, ?_⟩, hr.2⟩
    exact decide_eq_true fun hu => h0 (hr.2 ▸ (hc.streamId_eq_zero_iff hr.1).mpr hu)

theorem increasing {s : StreamRow} (hs : s ∈ st.streams.rows) (hu : s.streamUuid ≠ "$all")
    {l₁ l₂ a₁ a₂ : StreamEventRow} (hl₁ : l₁ ∈ st.links s.streamId)
    (hl₂ : l₂ ∈ st.links s.streamId) (ha₁ : a₁ ∈ st.links 0) (ha₂ : a₂ ∈ st.links 0)
    (he₁ : a₁.eventId = l₁.eventId) (he₂ : a₂.eventId = l₂.eventId)
    (hlt : l₁.streamVersion < l₂.streamVersion) : a₁.streamVersion < a₂.streamVersion := by
  have h0 : s.streamId ≠ 0 := fun h0 => hu ((hc.streamId_eq_zero_iff hs).mp h0)
  have horig : ∀ l ∈ st.links s.streamId, ∀ a ∈ st.links 0, a.eventId = l.eventId →
      a ∈ ((st.links 0).filter fun l => decide (l.originalStreamId = s.streamId)) ∧
        a.originalStreamVersion = l.streamVersion := by
    intro l hl a ha he
    obtain ⟨hl, hls⟩ := Store.mem_links.mp hl
    obtain ⟨b, hb, hbe, hbo, hbv⟩ := hc.exists_allLink hl (hls ▸ h0)
    obtain rfl : a = b := Store.link_eq ha hb (he.trans hbe.symm)
    exact ⟨List.mem_filter.mpr ⟨ha, decide_eq_true (hbo.trans hls)⟩, hbv⟩
  obtain ⟨hm₁, hv₁⟩ := horig l₁ hl₁ a₁ ha₁ he₁
  obtain ⟨hm₂, hv₂⟩ := horig l₂ hl₂ a₂ ha₂ he₂
  -- within the origin stream both positions increase along the stored order
  have hsorted : ((st.links 0).filter fun l => decide (l.originalStreamId = s.streamId)).Pairwise
      fun a b => a.streamVersion < b.streamVersion ∧
        a.originalStreamVersion < b.originalStreamVersion :=
    (hc.allLinks_sorted.filter _).and (hc.originVersions_sorted hs h0)
  have hmono := List.Pairwise.forall_of_forall_of_flip
    (R := fun a b : StreamEventRow =>
      a.originalStreamVersion < b.originalStreamVersion → a.streamVersion < b.streamVersion)
    (fun a _ h => absurd h (Nat.lt_irrefl _)) (hsorted.imp fun h _ => h.1)
    (hsorted.imp fun h h' => absurd h' (Nat.lt_asymm h.2))
  exact hmono hm₁ hm₂ (by omega)

theorem storeInvariant : StoreInvariant st := by
  obtain ⟨h, hall⟩ := hc.allRow
  refine ⟨fun s hs _ => .of_eq (hc.versions s hs), ⟨_, hall, rfl, ?_⟩, fun e he => hc.twoLinks he,
    st.events.nodup, hc.total, fun s hs hu l₁ hl₁ l₂ hl₂ a₁ ha₁ a₂ ha₂ he₁ he₂ =>
      hc.increasing hs hu hl₁ hl₂ ha₁ ha₂ he₁ he₂⟩
  exact .of_eq (hc.versions _ (Table.mem_of_find? hall))

end Store.Consistent

/-- **The store invariant holds after any sequence of appends.** -/
theorem appends_storeInvariant (calls : List (Timestamp × AppendArgs)) :
    StoreInvariant (Db.install.appends calls).store :=
  (Db.install_consistent.appends calls).store.storeInvariant

end Instructed
