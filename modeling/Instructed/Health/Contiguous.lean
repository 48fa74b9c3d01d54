import Instructed.Lib.Double
import Instructed.Lib.Gapless
import Instructed.Lib.Tail
import Instructed.Store.Outcome

/-!
# The `$all contiguous` health check

`tools/instructedctl/src/core/health.ts`: `allContiguous` looks at three aggregates of the positions in
`$all`, their number, the greatest and the least. The driver delivers them as texts, which `Number`
turns into doubles, here with `number`.

* `allContiguous`: the check;
* `Store.LinkConstraints`: the constraints of `stream_events`, which the check relies on;
* `allContiguous_exact`: **the check accepts the stores without a gap, and of these `read_all` reads
  every position.**
-/

namespace Instructed.Health

open Sql Relational Numbering Double

/-! ## The check -/

structure HealthCheck where
  name : String
  ok : Bool
  detail : String
  deriving DecidableEq

/-- `allContiguous`, of the column `stream_version` of the rows with `stream_id = 0`. -/
def allContiguous (versions : List ℤ) : HealthCheck :=
  let cnt := number versions.length
  let maxEn := number (versions.max?.getD 0)
  let minEn := number (versions.min?.getD 0)
  let ok := decide (cnt = maxEn) && (decide (cnt = 0) || decide (minEn = 1))
  { name := "$all contiguous"
    ok := ok
    detail := if ok then toString cnt ++ " events, head " ++ toString maxEn
      else "count=" ++ toString cnt ++ " max=" ++ toString maxEn ++ " min=" ++ toString minEn ++
        " — gap or offset in $all" }

variable {versions : List ℤ}

/-- What the check says of the exact aggregates. -/
theorem ok_iff {lo hi : ℤ} (hmin : versions.min? = some lo) (hmax : versions.max? = some hi)
    (hbound : ∀ v ∈ versions, v < 2 ^ 53) :
    (allContiguous versions).ok = true ↔ (versions.length : ℤ) = hi ∧ lo = 1 := by
  have hlo := hbound lo (List.min?_eq_some_iff.mp hmin).1
  have hhi := hbound hi (List.max?_eq_some_iff.mp hmax).1
  have hpos : versions.length ≠ 0 := by
    rintro hzero
    rw [List.length_eq_zero_iff.mp hzero] at hmin
    cases hmin
  have hcount : number (versions.length : ℤ) = number hi ↔ (versions.length : ℤ) = hi :=
    number_eq_iff (Int.natCast_nonneg _) hhi
  have hzero : ¬ number (versions.length : ℤ) = 0 := fun h => by
    have heq := (number_eq_iff (Int.natCast_nonneg versions.length) (b := 0) (by omega)).mp h
    omega
  have hone : number lo = 1 ↔ lo = 1 := by
    have heq := number_eq_iff (a := 1) (by omega) hlo
    rw [number_of_lt (by omega) (by omega)] at heq
    rw [eq_comm, heq, eq_comm]
  simp [allContiguous, hmin, hmax, hcount, hzero, hone]

/-- The check is exact. -/
theorem allContiguous_iff (hnodup : versions.Nodup) (hbound : ∀ v ∈ versions, v < 2 ^ 53) :
    (allContiguous versions).ok = true ↔
      ∃ n : ℕ, versions.toFinset = Finset.Icc 1 (n : ℤ) := by
  rcases versions with - | ⟨v, rest⟩
  · exact iff_of_true rfl ⟨0, rfl⟩
  · obtain ⟨lo, hmin⟩ : ∃ lo, (v :: rest).min? = some lo := ⟨_, List.min?_cons'⟩
    obtain ⟨hi, hmax⟩ : ∃ hi, (v :: rest).max? = some hi := ⟨_, List.max?_cons'⟩
    rw [ok_iff hmin hmax hbound, gapless_iff hnodup hmin hmax]

/-- Positions without a gap are accepted, however many they are. -/
theorem allContiguous_of_gapless (hnodup : versions.Nodup)
    (h : ∃ n : ℕ, versions.toFinset = Finset.Icc 1 (n : ℤ)) : (allContiguous versions).ok = true := by
  rcases versions with - | ⟨v, rest⟩
  · rfl
  · obtain ⟨lo, hmin⟩ : ∃ lo, (v :: rest).min? = some lo := ⟨_, List.min?_cons'⟩
    obtain ⟨hi, hmax⟩ : ∃ hi, (v :: rest).max? = some hi := ⟨_, List.max?_cons'⟩
    obtain ⟨rfl, rfl⟩ := (gapless_iff hnodup hmin hmax).mpr h
    have hone : number 1 = 1 := number_of_lt (by omega) (by omega)
    simp only [allContiguous, hmin, hmax, Option.getD_some, hone, decide_true, Bool.or_true,
      Bool.and_true]

/-! ## The stores that are accepted -/

/-- The declared constraints of `stream_events`, for its columns that `read_all` joins on. -/
structure Store.LinkConstraints (st : Store) : Prop where
  /-- `unique (stream_id, stream_version)`. -/
  unique : (st.streamEvents.rows.map StreamEventRow.versionKey).Nodup
  /-- `event_id ... references events`. -/
  event : ∀ l ∈ st.streamEvents.rows, ∃ e, st.events.find? l.eventId = some e
  /-- `original_stream_id ... references streams`. -/
  original : ∀ l ∈ st.streamEvents.rows, ∃ s, st.streams.find? l.originalStreamId = some s

/-- `select stream_version from stream_events where stream_id = 0`. -/
def Store.allVersions (st : Store) : List ℤ := (st.links 0).map fun l => (l.streamVersion : ℤ)

section Store

variable {st : Store}

theorem Store.LinkConstraints.nodup (h : Store.LinkConstraints st) :
    ((st.links 0).map (·.streamVersion)).Nodup := by
  have hkeys : ((st.links 0).map StreamEventRow.versionKey).Nodup :=
    (List.filter_sublist.map _).nodup h.unique
  have heq : (st.links 0).map StreamEventRow.versionKey =
      ((st.links 0).map (·.streamVersion)).map (Prod.mk 0) := by
    rw [List.map_map]
    refine List.map_congr_left fun l hl => ?_
    rw [StreamEventRow.versionKey, (Store.mem_links.mp hl).2]
    rfl
  rw [heq] at hkeys
  exact hkeys.of_map

theorem Store.LinkConstraints.nodup_cast (h : Store.LinkConstraints st) :
    (Store.allVersions st).Nodup := by
  have hcast : Store.allVersions st = ((st.links 0).map (·.streamVersion)).map Nat.cast := by
    rw [List.map_map]
    rfl
  rw [hcast]
  exact h.nodup.map Nat.cast_injective

/-- No row of `$all` is lost in the joins of `read_all`. -/
theorem Store.LinkConstraints.eventNumbers (h : Store.LinkConstraints st) :
    st.allRows.map (·.eventNumber) = (st.links 0).map (·.streamVersion) := by
  refine map_filterMap_of_some fun l hl => ?_
  have hmem := (Store.mem_links.mp hl).1
  obtain ⟨e, he⟩ := h.event l hmem
  obtain ⟨s, hs⟩ := h.original l hmem
  exact ⟨e.recorded l.streamVersion s.streamUuid l.originalStreamVersion, by
    simp [Store.joinAll, he, hs], rfl⟩

/-- The procedures keep the constraints. -/
theorem Store.LinkConstraints.of_consistent (hc : st.Consistent) : Store.LinkConstraints st := by
  have hstream : ∀ l ∈ st.streamEvents.rows, ∃ r, st.streams.find? l.streamId = some r := by
    intro l hl
    by_cases h0 : l.streamId = 0
    · obtain ⟨h, hall⟩ := hc.allRow
      exact ⟨_, h0 ▸ hall⟩
    · cases hfind : st.streams.find? l.streamId with
      | some r => exact ⟨r, rfl⟩
      | none =>
        have hmem : l ∈ st.links l.streamId := Store.mem_links.mpr ⟨hl, rfl⟩
        rw [hc.links_eq_nil h0 hfind] at hmem
        cases hmem
  refine ⟨List.Nodup.map_on (fun l hl l' hl' heq => ?_) st.streamEvents.nodup.of_map, ?_, ?_⟩
  · obtain ⟨hid, hversion⟩ := Prod.mk.inj heq
    obtain ⟨r, hr⟩ := hstream l hl
    have hv := hc.versions r (Table.mem_of_find? hr)
    rw [Table.key_of_find? hr] at hv
    refine List.inj_on_of_nodup_map (f := (·.streamVersion)) ?_
      (Store.mem_links.mpr ⟨hl, rfl⟩) (Store.mem_links.mpr ⟨hl', hid.symm⟩) hversion
    rw [hv]
    exact List.nodup_range'
  · intro l hl
    by_cases h0 : l.streamId = 0
    · obtain ⟨e, he, -⟩ := hc.exists_event (Store.mem_links.mpr ⟨hl, h0⟩)
      exact ⟨e, he⟩
    · have hmem : (l.eventId, l.streamVersion) ∈
          (st.links l.streamId).map fun l => (l.eventId, l.streamVersion) :=
        List.mem_map_of_mem (Store.mem_links.mpr ⟨hl, rfl⟩)
      rw [hc.origin _ h0] at hmem
      obtain ⟨l₀, hl₀, heq⟩ := List.mem_map.mp hmem
      obtain ⟨e, he, -⟩ := hc.exists_event (List.mem_filter.mp hl₀).1
      exact ⟨e, (Prod.mk.inj heq).1 ▸ he⟩
  · intro l hl
    by_cases h0 : l.streamId = 0
    · exact (hc.allOrigin l (Store.mem_links.mpr ⟨hl, h0⟩)).2
    · rw [(hc.own l hl h0).1]
      exact hstream l hl

/-- The check accepts every store that the procedures reach. -/
theorem allContiguous_of_consistent (hc : st.Consistent) :
    (allContiguous (Store.allVersions st)).ok = true := by
  obtain ⟨h, hall⟩ := hc.allRow
  have hv : (st.links 0).map (·.streamVersion) = List.range' 1 (st.links 0).length :=
    Consecutive.of_map_eq (hc.versions _ (Table.mem_of_find? hall))
  have hmem : ∀ v, v ∈ Store.allVersions st ↔ 1 ≤ v ∧ v ≤ ((st.links 0).length : ℤ) := by
    intro v
    have hcast : Store.allVersions st = (List.range' 1 (st.links 0).length).map Nat.cast := by
      rw [← hv, List.map_map]
      rfl
    rw [hcast, List.mem_map]
    constructor
    · rintro ⟨k, hk, rfl⟩
      rw [List.mem_range'_1] at hk
      omega
    · rintro ⟨hlo, hhi⟩
      refine ⟨v.toNat, ?_, by omega⟩
      rw [List.mem_range'_1]
      omega
  have hnodup : (Store.allVersions st).Nodup := (Store.LinkConstraints.of_consistent hc).nodup_cast
  refine allContiguous_of_gapless hnodup ⟨(st.links 0).length, ?_⟩
  ext v
  rw [List.mem_toFinset, hmem, Finset.mem_Icc]

/-- Rows whose positions are `1, …, N` in some order: a page is a segment of the sorted rows. -/
theorem page_of_perm {position : RecordedEvent → ℕ} {rows sorted : List RecordedEvent}
    (hperm : rows.Perm sorted) (h : Consecutive position 1 sorted) (fromPos qty : ℕ) :
    page position fromPos qty rows = (sorted.drop (fromPos - 1)).take qty := by
  have hge := h.filter_ge fromPos
  have hkept := hperm.filter fun e => decide (fromPos ≤ position e)
  have hlt : (sorted.drop (fromPos - 1)).Pairwise fun a b => position a < position b :=
    h.pairwise_lt.sublist (List.drop_sublist _ _)
  have hsorted : (sorted.drop (fromPos - 1)).Pairwise fun a b =>
      decide (position a ≤ position b) = true := hlt.imp fun hab => decide_eq_true hab.le
  have hmerge : ((rows.filter fun e => decide (fromPos ≤ position e)).mergeSort fun a b =>
      decide (position a ≤ position b)) = sorted.drop (fromPos - 1) := by
    refine List.Perm.eq_of_pairwise (fun a b ha hb hab hba => ?_) (List.pairwise_mergeSort ?_ ?_ _) hsorted
      ((List.mergeSort_perm _ _).trans (hge ▸ hkept))
    · have hmem := (List.mem_filter.mp ((List.mergeSort_perm _ _).mem_iff.mp ha)).1
      have heq : position a = position b :=
        Nat.le_antisymm (of_decide_eq_true hab) (of_decide_eq_true hba)
      exact h.eq_of_pos_eq (hperm.mem_iff.mp hmem) (List.mem_of_mem_drop hb) heq
    · intro a b c hab hbc
      exact decide_eq_true ((of_decide_eq_true hab).trans (of_decide_eq_true hbc))
    · intro a b
      simpa using Nat.le_total (position a) (position b)
  rw [page, hmerge]

/-- The rows of `$all` in the order of their positions, when there is no gap. -/
theorem exists_sorted (h : Store.LinkConstraints st) {n : ℕ}
    (hn : (Store.allVersions st).toFinset = Finset.Icc 1 (n : ℤ)) :
    ∃ sorted, st.allRows.Perm sorted ∧ Consecutive (·.eventNumber) 1 sorted ∧ sorted.length = n := by
  let le (a b : RecordedEvent) : Bool := decide (a.eventNumber ≤ b.eventNumber)
  have hperm := List.mergeSort_perm st.allRows le
  have hle : (st.allRows.mergeSort le).Pairwise fun a b => a.eventNumber ≤ b.eventNumber := by
    have hpairs : (st.allRows.mergeSort le).Pairwise fun a b => le a b = true := List.pairwise_mergeSort
      (fun a b c hab hbc => decide_eq_true ((of_decide_eq_true hab).trans (of_decide_eq_true hbc)))
      (fun a b => by simpa [le] using Nat.le_total a.eventNumber b.eventNumber) st.allRows
    exact hpairs.imp of_decide_eq_true
  have hmap := hperm.map (·.eventNumber)
  rw [h.eventNumbers] at hmap
  refine ⟨_, hperm.symm, Consecutive.of_gapless hle (hmap.nodup_iff.mpr h.nodup) fun k => ?_⟩
  have hmem : k ∈ (st.links 0).map (·.streamVersion) ↔ (k : ℤ) ∈ Store.allVersions st := by
    simp [Store.allVersions]
  rw [hmap.mem_iff, hmem, ← List.mem_toFinset, hn, Finset.mem_Icc]
  omega

end Store

/-- **The `$all` check is exact.** It accepts just the positions `1, …, N`. Whoever pages through the
    `$all` of a store that it accepts, from position 1 on and with pages of any sizes, reads position
    after position. -/
theorem allContiguous_exact :
    (∀ versions : List ℤ, versions.Nodup → (∀ v ∈ versions, v < 2 ^ 53) →
      ((allContiguous versions).ok = true ↔
        versions = [] ∨ ∃ n : ℕ, versions.toFinset = Finset.Icc 1 (n : ℤ))) ∧
    ∀ st : Store, Store.LinkConstraints st → (∀ v ∈ Store.allVersions st, v < 2 ^ 53) →
      (allContiguous (Store.allVersions st)).ok = true →
        ∀ sizes : List ℕ, (∀ size ∈ sizes, 0 < size) →
          ∃ rows, readPages (·.eventNumber)
              (fun start size => readAll (some (start : ℤ)) (some (size : ℤ)) st) 1 sizes = .ok rows ∧
            rows.map (·.eventNumber) = List.range' 1 (min sizes.sum (st.links 0).length) := by
  refine ⟨fun versions hnodup hbound => ?_, fun st hst hbound hok sizes hsizes => ?_⟩
  · rw [allContiguous_iff hnodup hbound]
    refine ⟨Or.inr, ?_⟩
    rintro (rfl | hn)
    · exact ⟨0, rfl⟩
    · exact hn
  · have hnodup := hst.nodup_cast
    obtain ⟨n, hn⟩ := (allContiguous_iff hnodup hbound).mp hok
    obtain ⟨sorted, hperm, hpos, hlength⟩ := exists_sorted hst hn
    have hlinks : (st.links 0).length = n := by
      have hlen := length_of_toFinset_eq hnodup hn
      rwa [Store.allVersions, List.length_map] at hlen
    have hread : ∀ start size, 0 < size → readAll (some ((start : ℕ) : ℤ)) (some ((size : ℕ) : ℤ)) st =
        .ok ((sorted.drop (start - 1)).take size) := by
      intro start size hsize
      have hneg : ¬ (start : ℤ) < 0 := by omega
      have hzero : ¬ (size : ℤ) ≤ 0 := by omega
      simp only [readAll, if_neg hneg, if_neg hzero, Int.toNat_natCast]
      rw [page_of_perm hperm hpos]
    refine ⟨_, readPages_eq hpos hread hsizes 1, ?_⟩
    have htake : Consecutive (·.eventNumber) 1 ((sorted.drop (1 - 1)).take sizes.sum) :=
      hpos.take sizes.sum
    rw [htake, List.length_take, hlinks, Nat.sub_self, List.drop_zero, hlength]

/-- Two streams with an event each. -/
def sampleDb : Db :=
  let event (digit : String) : Json := .obj
    [("event_id", .str ("00000000-0000-0000-0000-00000000000" ++ digit)),
      ("event_type", .str "opened"), ("data", .null)]
  let db := (Db.install.append 1 ⟨some "order-1", some "any", none, some (.arr [event "1"])⟩).2
  (db.append 2 ⟨some "order-2", some "any", none, some (.arr [event "2"])⟩).2

theorem sampleDb_reachable : sampleDb.Reachable := .append _ _ (.append _ _ .install)

theorem allContiguous_exact_sampleDb :
    (allContiguous [2, 3, 1]).ok = true ∧
      ∃ rows, readPages (·.eventNumber)
          (fun start size => readAll (some (start : ℤ)) (some (size : ℤ)) sampleDb.store) 1 [1, 5] =
            .ok rows ∧ rows.map (·.eventNumber) = [1, 2] := by
  have hc := sampleDb_reachable.consistent.store
  have hversions : Store.allVersions sampleDb.store = [1, 2] := by decide +kernel
  refine ⟨(allContiguous_exact.1 [2, 3, 1] (by decide) (by decide)).mpr (Or.inr ⟨3, by decide⟩), ?_⟩
  exact allContiguous_exact.2 sampleDb.store (.of_consistent hc) (by rw [hversions]; decide)
    (allContiguous_of_consistent hc) [1, 5] (by decide)

end Instructed.Health
