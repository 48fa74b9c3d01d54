import Instructed.Lib.Tail
import Instructed.Queue.Frame
import Instructed.Store.Outcome

/-!
# The three readers agree

`read_all` joins the `$all` links, `read_stream` those of one stream, and `list_pm_rebuild_events` the
work items. Each of them returns rows of one list, the log.

* `joinItem_eq`, `rebuild_eq`: the rows of `list_pm_rebuild_events`, as a selection of the log;
* `ReadersAgree`, `readers_agree`: what the readers return, in terms of what `read_all` returns.
-/

namespace Instructed.Queue

open Sql Relational Numbering Transition

/-! ## `list_pm_rebuild_events` -/

section Rebuild

variable {st : Store} {sub : ℕ × String} {p : String} {n : ℤ}

/-- The joins for one work item select its event from the log. -/
theorem joinItem_eq (hc : st.Consistent) (wi : WorkItemRow) :
    st.joinItem wi = st.log.filter fun e => decide ((e.eventNumber : ℤ) = wi.eventNumber) := by
  rw [Store.joinItem, Store.log, Store.allRows, List.filter_filterMap, List.filterMap_filter]
  refine List.filterMap_congr fun l hl => ?_
  obtain ⟨e, orig, -, -, -, hj⟩ := hc.joinAll_eq hl
  rw [hj, Option.filter_some]
  by_cases h : (l.streamVersion : ℤ) = wi.eventNumber <;> simp [h]

theorem mem_doneItems {wi : WorkItemRow} : wi ∈ st.doneItems sub p n ↔ wi ∈ st.workItems.rows ∧
    wi.subscription = sub ∧ wi.partitionKey = p ∧ wi.state = .done ∧ wi.eventNumber < n := by
  simp [Store.doneItems, List.mem_mergeSort]

/-- The done items of a partition come in the order of their numbers, which are distinct. -/
theorem doneItems_pairwise :
    (st.doneItems sub p n).Pairwise fun a b => a.eventNumber < b.eventNumber := by
  have hle : (st.doneItems sub p n).Pairwise fun a b => a.eventNumber ≤ b.eventNumber := by
    unfold Store.doneItems
    refine (List.pairwise_mergeSort ?_ ?_ _).imp fun h => of_decide_eq_true h
    · intro a b c hab hbc
      simp only [decide_eq_true_eq] at hab hbc ⊢
      omega
    · intro a b
      simp only [Bool.or_eq_true, decide_eq_true_eq]
      omega
  have hnodup : (st.doneItems sub p n).Nodup :=
    (List.mergeSort_perm ..).nodup_iff.mpr (st.workItems.nodup.of_map.filter _)
  refine (hle.and hnodup).imp_of_mem fun {a b} ha hb h => lt_of_le_of_ne h.1 fun heq => h.2 ?_
  obtain ⟨ha, hasub, hap, -⟩ := mem_doneItems.mp ha
  obtain ⟨hb, hbsub, hbp, -⟩ := mem_doneItems.mp hb
  refine st.workItems.eq_of_key_eq ha hb ?_
  exact Prod.ext (hasub.trans hbsub.symm) (Prod.ext (hap.trans hbp.symm) heq)

/-- The event is a done item of the partition, below `n`. -/
def IsDone (st : Store) (sub : ℕ × String) (p : String) (n : ℤ) (e : RecordedEvent) : Prop :=
  ∃ wi ∈ st.workItems.rows, wi.subscription = sub ∧ wi.partitionKey = p ∧ wi.state = .done ∧
    wi.eventNumber = e.eventNumber ∧ (e.eventNumber : ℤ) < n

instance (e : RecordedEvent) : Decidable (IsDone st sub p n e) :=
  inferInstanceAs (Decidable (∃ _ ∈ _, _))

/-- **The rows of `list_pm_rebuild_events` are the done events of the log.** -/
theorem rebuild_eq (hc : st.Consistent) :
    (st.doneItems sub p n).flatMap st.joinItem = st.log.filter fun e => decide (IsDone st sub p n e) := by
  have hpos := hc.log_eventNumber
  refine eq_of_pairwise_lt (f := fun e => e.eventNumber) ?_ (hpos.pairwise_lt.filter _) fun e => ?_
  · rw [List.pairwise_flatMap]
    refine ⟨fun wi _ => ?_, doneItems_pairwise.imp fun hlt a ha b hb => ?_⟩
    · rw [joinItem_eq hc]
      exact hpos.pairwise_lt.filter _
    · rw [joinItem_eq hc, List.mem_filter, decide_eq_true_eq] at ha hb
      omega
  · rw [List.mem_flatMap, List.mem_filter, decide_eq_true_eq]
    constructor
    · rintro ⟨wi, hwi, he⟩
      obtain ⟨hwi, hsub, hp, hdone, hlt⟩ := mem_doneItems.mp hwi
      rw [joinItem_eq hc, List.mem_filter, decide_eq_true_eq] at he
      exact ⟨he.1, wi, hwi, hsub, hp, hdone, he.2.symm, by omega⟩
    · rintro ⟨he, wi, hwi, hsub, hp, hdone, hnum, hlt⟩
      refine ⟨wi, mem_doneItems.mpr ⟨hwi, hsub, hp, hdone, by omega⟩, ?_⟩
      rw [joinItem_eq hc, List.mem_filter, decide_eq_true_eq]
      exact ⟨he, hnum.symm⟩

end Rebuild

/-! ## The readers -/

/-- What the readers return, in terms of the whole log `all`. -/
structure ReadersAgree (st : Store) (all : List RecordedEvent) : Prop where
  /-- `read_all` returns the whole log, when it is asked for enough rows. -/
  whole : ∀ qty : ℕ, 0 < qty → all.length ≤ qty → readAll (some 0) (some qty) st = .ok all
  increasing : all.Pairwise fun a b => a.eventNumber < b.eventNumber
  /-- Every stored event, once. -/
  events : all.map (·.eventId) = st.events.rows.map (·.eventId)
  stream : ∀ u (fromV qty : ℕ), u ≠ "$all" → 0 < qty → st.streamByUuid u ≠ none →
    readStream (some u) (some fromV) (some qty) st = .ok ((all.filter fun e =>
      decide (e.streamUuid = u ∧ fromV ≤ e.streamVersion)).take qty)
  /-- A stream that does not exist has no event. -/
  absent : ∀ u, u ≠ "$all" → st.streamByUuid u = none → ∀ e ∈ all, e.streamUuid ≠ u
  rebuild : ∀ u name p (n : ℕ) sub, name ≠ "" → subscription st u name = some sub →
    listPmRebuildEvents (some u) (some name) (some p) (some n) st =
      .ok (all.filter fun e => decide (IsDone st sub.pkey p n e))
  allPages : ∀ sizes : List ℕ, (∀ size ∈ sizes, 0 < size) → ∀ start : ℕ,
    readPages (·.eventNumber) (fun fromN qty => readAll (some fromN) (some qty) st) start sizes =
      .ok ((all.drop (start - 1)).take sizes.sum)
  streamPages : ∀ u, u ≠ "$all" → st.streamByUuid u ≠ none →
    ∀ sizes : List ℕ, (∀ size ∈ sizes, 0 < size) → ∀ start : ℕ,
    readPages (·.streamVersion) (fun fromV qty => readStream (some u) (some fromV) (some qty) st) start
      sizes = .ok (((all.filter fun e => decide (e.streamUuid = u)).drop (start - 1)).take sizes.sum)

section Readers

variable {st : Store} (hc : st.Consistent)
include hc

/-- `read_stream` of a stream that exists, as a segment of its events. -/
theorem readStream_segment {u : String} (hu : u ≠ "$all") (hsome : st.streamByUuid u ≠ none)
    {fromV qty : ℕ} (hq : 0 < qty) : readStream (some u) (some fromV) (some qty) st =
      .ok (((onStream u st.log).drop (fromV - 1)).take qty) := by
  rw [readStream_eq hc hu hq, if_neg fun hnil => hsome ((hc.streamByUuid_eq_none_iff hu).mpr hnil)]

/-- The segment, as a selection of the log by stream and version. -/
theorem onStream_drop (u : String) (fromV : ℕ) : (onStream u st.log).drop (fromV - 1) =
    st.log.filter fun e => decide (e.streamUuid = u ∧ fromV ≤ e.streamVersion) := by
  have hpos := hc.log_numbered.streamVersion u
  rw [← hpos.filter_ge, onStream, List.filter_filter]
  refine List.filter_congr fun e _ => ?_
  rw [Bool.decide_and, Bool.and_comm]

theorem listPmRebuildEvents_eq {u name p : String} {n : ℕ} {sub : SubscriptionRow} (hname : name ≠ "")
    (hsub : subscription st u name = some sub) :
    listPmRebuildEvents (some u) (some name) (some p) (some n) st =
      .ok (st.log.filter fun e => decide (IsDone st sub.pkey p n e)) := by
  obtain ⟨key, hkey, hfind⟩ := Option.bind_eq_some_iff.mp hsub
  obtain ⟨stream, hstream, rfl⟩ := Option.map_eq_some_iff.mp hkey
  rw [← rebuild_eq hc, Table.key_of_find? hfind]
  simp [listPmRebuildEvents, notNull, notEmpty_of_ne hname, nonNegative_of_nat, requireStream, hstream,
    requireSubscription, hfind, bind, Except.bind, pure, Except.pure]

theorem readersAgree_log : ReadersAgree st st.log := by
  refine ⟨fun qty hq hle => ?_, hc.log_eventNumber.pairwise_lt, hc.log_eventId, ?_, ?_, ?_, ?_, ?_⟩
  · rw [show (0 : ℤ) = ((0 : ℕ) : ℤ) from rfl, readAll_eq hc hq, List.drop_zero,
      List.take_of_length_le hle]
  · intro u fromV qty hu hq hsome
    rw [readStream_segment hc hu hsome hq, onStream_drop hc]
  · intro u hu hnone e he heq
    have hnil := (hc.streamByUuid_eq_none_iff hu).mp hnone
    have hmem := mem_onStream.mpr ⟨he, heq⟩
    rw [hnil] at hmem
    cases hmem
  · intro u name p n sub hname hsub
    exact listPmRebuildEvents_eq hc hname hsub
  · intro sizes hsizes start
    exact readPages_eq hc.log_eventNumber (fun _ _ hq => readAll_eq hc hq) hsizes start
  · intro u hu hsome sizes hsizes start
    exact readPages_eq (hc.log_numbered.streamVersion u)
      (fun _ _ hq => readStream_segment hc hu hsome hq) hsizes start

end Readers

/-- The databases of the work queue are reachable databases. -/
theorem db_reachable {κ : Type} [DecidableEq κ] {w : World κ} (hw : Reachable system w) :
    w.db.Reachable := by
  refine hw.invariant (P := fun v => v.db.Reachable) ?_ fun v op v' hv _ hs => ?_
  · rintro _ rfl
    exact .install
  · have hstep : step v op = some v' := hs
    cases step_ran hstep with
    | append => exact .append _ _ hv
    | call hc => exact .other hv (Call.run_change hc).2
    | claimItem _ hc => exact .other hv (runClaim_change hc).2.1
    | idle hdb _ => exact hdb ▸ hv

/-- **The three readers agree.** -/
theorem readers_agree {db : Db} (hdb : db.Reachable) : ∃ all, ReadersAgree db.store all :=
  ⟨_, readersAgree_log hdb.consistent.store⟩

/-- The list that the readers agree on is what `read_all` returns. -/
theorem ReadersAgree.eq_log {st : Store} (hc : st.Consistent) {all : List RecordedEvent}
    (h : ReadersAgree st all) : all = st.log := by
  have hall := h.whole (max all.length st.log.length + 1) (by omega) (by omega)
  have hlog := (readersAgree_log hc).whole (max all.length st.log.length + 1) (by omega) (by omega)
  exact Except.ok.inj (hall.symm.trans hlog)

/-- An event of its own stream, whose id ends in `digit`. -/
def sampleAppend (now : Timestamp) (u digit : String) : Op ℕ :=
  .append now ⟨some u, some "any", none, some (.arr [sampleOpened digit])⟩

/-- Three appends to two streams; `a` completes the first event, and claims the second. -/
def sampleReads : List (Op ℕ) :=
  let claim (i : ℕ) (now : Timestamp) : Op ℕ :=
    .claimItem i now (fun _ => false) (some "$all") (some "orders") (some "a") (some 5)
  [sampleAppend 1 "order-1" "1", sampleAppend 2 "order-2" "2", sampleAppend 3 "order-1" "3",
   .call (.claimSubscription 10 (some "$all") (some "orders") (some "r") (some 30) none),
   .call sampleBatch, .openClaim 0, claim 0 20,
   .call (.completePm 21 (sampleItem "a" 1) ⟨some "pm-1", some "orders", some 1, some .null, none⟩),
   .openClaim 1, claim 1 22]

theorem readers_agree_sampleReads : ∃ (w : World ℕ) (all : List RecordedEvent),
    system.run World.install sampleReads = some w ∧ ReadersAgree w.db.store all ∧
      all.map (fun e => (e.eventNumber, e.streamUuid, e.streamVersion)) =
        [(1, "order-1", 1), (2, "order-2", 1), (3, "order-1", 2)] ∧
      (listPmRebuildEvents (some "$all") (some "orders") (some "p") (some 3) w.db.store).map
        (·.map (·.eventNumber)) = .ok [1] := by
  have hrun : (system.run (World.install : World ℕ) sampleReads).map (fun w =>
      (w.db.store.log.map fun e => (e.eventNumber, e.streamUuid, e.streamVersion),
        (listPmRebuildEvents (some "$all") (some "orders") (some "p") (some 3) w.db.store).map
          (·.map (·.eventNumber)))) =
      some ([(1, "order-1", 1), (2, "order-2", 1), (3, "order-1", 2)], .ok [1]) := by
    decide +kernel
  obtain ⟨w, hw, heq⟩ := Option.map_eq_some_iff.mp hrun
  obtain ⟨hlog, hrebuild⟩ := Prod.mk.inj heq
  have hdb := db_reachable (Reachable.run (.init rfl) hw)
  obtain ⟨all, hall⟩ := readers_agree hdb
  refine ⟨w, all, hw, hall, ?_, hrebuild⟩
  rw [hall.eq_log hdb.consistent.store]
  exact hlog

end Instructed.Queue
