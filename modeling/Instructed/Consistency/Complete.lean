import Instructed.Consistency.Polling
import Instructed.Queue.Frame

/-!
# When a wait comes to its end

The loop asks every ref for one target, the largest event number of all the rows. The cursor of a
subscription on one stream stops at the last event of that stream, and the guard lets the ref through as
soon as one of the rows is on it. When another stream has contributed the largest number, the cursor
never gets there.

* `names_of_reachable`: no subscription has an empty name;
* `Wait.askAll`, `Wait.onePass`: one pass of the loop over one state;
* `UpToDate`: a ref has no work left;
* `completes_iff`: **a pass over a state without work left returns just when the stream of every ref has
  an event at or behind the target**.
-/

namespace Instructed.Consistency

open Sql Relational Routing Transition Queue

/-! ## Names of subscriptions -/

section Names

variable {κ : Type} [DecidableEq κ] {w w' : Queue.World κ} {op : Queue.Op κ} {st st' : Store}
  {es : List Queue.Event}

/-- No subscription has an empty name. -/
def NamesOk (st : Store) : Prop := ∀ row ∈ st.subscriptions.rows, row.subscriptionName ≠ ""

theorem NamesOk.put (h : NamesOk st) {row : SubscriptionRow} (hrow : row.subscriptionName ≠ "") :
    NamesOk (st.putSubscription row) := by
  intro x hx
  rcases Table.mem_put.mp hx with rfl | ⟨hx, -⟩
  · exact hrow
  · exact h x hx

theorem notEmpty_ne {proc param : String} {p : Option String} {s : String}
    (h : notEmpty proc param p = .ok s) : s ≠ "" := by
  rintro rfl
  rw [notEmpty_ok h] at h
  cases h

theorem claimSubscription_names {now : Timestamp} {u name worker : Option String} {lease : Option ℤ}
    {options : Option Json} {r : ClaimResult}
    (h : claimSubscription now u name worker lease options st = .ok (r, st')) (hok : NamesOk st) :
    NamesOk st' := by
  obtain ⟨_, name', _, _, stream, -, rfl, -, -, hclaim⟩ := claimSubscription_ok h
  obtain ⟨_, -, h⟩ := bind_eq_ok.mp h
  obtain ⟨_, hname, -⟩ := bind_eq_ok.mp h
  cases notEmpty_ok hname
  cases hclaim with
  | alreadyClaimed _ => exact hok
  | created _ _ => exact hok.put (notEmpty_ne hname)
  | taken hrow _ =>
    have hne := hok _ (Table.mem_of_find? hrow)
    exact hok.put hne

theorem run_names {c : Call} (h : c.run st = .ok (st', es)) (hok : NamesOk st) : NamesOk st' := by
  cases c with
  | claimSubscription now u name worker lease options =>
    obtain ⟨⟨r, s⟩, hr, heq⟩ := map_eq_ok.mp h
    cases heq
    exact claimSubscription_names hr hok
  | releaseSubscription u name worker =>
    obtain ⟨s, hs, heq⟩ := map_eq_ok.mp h
    cases heq
    obtain ⟨_, _, _, _, row, -, -, -, -, hrow, -, rfl⟩ := releaseSubscription_ok hs
    have hne := hok row (Table.mem_of_find? hrow)
    exact hok.put hne
  | routeBatch u name worker cursor decisions =>
    obtain ⟨⟨r, s⟩, hr, heq⟩ := map_eq_ok.mp h
    cases heq
    obtain ⟨_, _, _, _, _, _, row, items, -, -, -, -, -, -, hrow, -, -, -, rfl⟩ := routeBatch_ok hr
    have hinserted : NamesOk (st.insertItems items) := hok
    have hne := hok row (Table.mem_of_find? hrow)
    exact hinserted.put hne
  | extend now a lease =>
    obtain ⟨⟨e, s⟩, hs, heq⟩ := map_eq_ok.mp h
    cases heq
    obtain ⟨_, _, _, -, -, -, rfl⟩ := extendWorkItemClaim_ok hs
    exact hok
  | completeProjection a =>
    obtain ⟨s, hs, heq⟩ := map_eq_ok.mp h
    cases heq
    obtain ⟨_, _, _, -, rfl⟩ := completeWorkItemProjection_ok hs
    exact hok
  | completePm now a s =>
    obtain ⟨_, hs, heq⟩ := map_eq_ok.mp h
    cases heq
    obtain ⟨_, _, _, _, _, _, _, -, -, -, rfl⟩ := completeWorkItemPm_ok hs
    exact hok
  | fail now a text =>
    obtain ⟨s, hs, heq⟩ := map_eq_ok.mp h
    cases heq
    obtain ⟨_, _, _, _, -, -, -, rfl⟩ := failWorkItem_ok hs
    exact hok
  | completePmInstance u name p uuid =>
    obtain ⟨⟨r, s⟩, hr, heq⟩ := map_eq_ok.mp h
    cases heq
    obtain ⟨_, _, _, _, _, -, -, -, -, -, rfl⟩ := completePmInstance_ok hr
    exact hok

theorem names_step (hstep : Queue.step w op = some w') (hok : NamesOk w.db.store) :
    NamesOk w'.db.store := by
  cases step_ran hstep with
  | @append now a => exact fun row hr => hok row ((w.db.append_tables now a).1 ▸ hr)
  | call hc => exact run_names hc hok
  | claimItem _ hc => exact fun row hr => hok row ((runClaim_tables hc).1 ▸ hr)
  | idle hdb _ => exact hdb ▸ hok

theorem names_of_reachable (hw : Reachable (Queue.system (κ := κ)) w) : NamesOk w.db.store := by
  refine hw.invariant (P := fun v => NamesOk v.db.store) ?_ fun v op v' hok _ hs => names_step hs hok
  rintro _ rfl row hr
  cases hr

end Names

/-! ## One pass over one state -/

/-- Ask for the entries one after the other; all calls are answered, from the store `st`. -/
def Wait.askAll (st : Store) : List (String × SubscriptionRef) → Wait → Option Wait
  | [], w => some w
  | _ :: rest, w => (w.ask st).bind fun w => (w.answer .answered st).bind (askAll st rest)

/-- The entries that the pass has still to ask for. -/
def Stage.rest : Stage → List (String × SubscriptionRef)
  | .pass rest => rest
  | _ => []

/-- A pass over the store `st`, with its end at `now`. -/
def Wait.onePass (w : Wait) (st : Store) (now : ℤ) : Option Wait :=
  (w.askAll st w.stage.rest).bind fun w => w.endPass now

/-- The predicate, on one state. -/
def caughtUp (s : SubscriptionRef) (target : ℕ) (st : Store) : Except SqlError Bool :=
  isSubscriptionCaughtUp (some s.stream) (some s.name) (some target) st st

/-- The call has returned, or it returns at the end of the pass. -/
def Returns (w : Wait) (st : Store) (now : ℤ) : Prop :=
  w.stage = .returned ∨ ∃ w', w.onePass st now = some w' ∧ w'.stage = .returned

section Pass

variable {w : Wait} {st : Store} {rest : List (String × SubscriptionRef)}

/-- When the predicate is true of every entry, the pass takes all of them out of the map. -/
theorem askAll_of_caughtUp (hstage : w.stage = .pass rest)
    (htrue : ∀ e ∈ rest, caughtUp e.2 w.target st = .ok true) :
    ∃ w', w.askAll st rest = some w' ∧ w'.stage = .pass [] ∧
      ∀ e ∈ w'.remaining, e ∈ w.remaining ∧ e ∉ rest := by
  induction rest generalizing w with
  | nil => exact ⟨w, rfl, hstage, fun e he => ⟨he, List.not_mem_nil⟩⟩
  | cons x rest ih =>
    obtain ⟨key, ref⟩ := x
    let w₁ : Wait := { w with stage := .asking key ref rest st }
    let w₂ : Wait := { w with
      remaining := w.remaining.filter fun e => e.1 ≠ key
      stage := .pass rest }
    have hask : w.ask st = some w₁ := by
      rw [Wait.ask, hstage]
    have hanswer : w₁.answer .answered st = some w₂ := by
      have hx : caughtUp ref w.target st = .ok true := htrue _ List.mem_cons_self
      have heq : w₁.answer .answered st =
          w₁.receive (Delivery.answered.reply (caughtUp ref w.target st)) := w₁.answer_eq _ st rfl
      rw [heq, hx]
      rfl
    obtain ⟨w', hw', hend, hleft⟩ := ih (w := w₂) rfl fun e he => htrue e (List.mem_cons_of_mem _ he)
    refine ⟨w', ?_, hend, fun e he => ?_⟩
    · rw [Wait.askAll, hask, Option.bind_some, hanswer, Option.bind_some, hw']
    · obtain ⟨hmem, hnot⟩ := hleft e he
      obtain ⟨hmem, hkey⟩ := List.mem_filter.mp hmem
      refine ⟨hmem, fun hin => ?_⟩
      rcases List.mem_cons.mp hin with rfl | hin
      · exact of_decide_eq_true hkey rfl
      · exact hnot hin

/-- A pass on which every ref is caught up is the last. -/
theorem onePass_returns (hstage : w.stage = .pass rest) (hremaining : w.remaining = rest)
    (htrue : ∀ e ∈ rest, caughtUp e.2 w.target st = .ok true) (now : ℤ) :
    ∃ w', w.onePass st now = some w' ∧ w'.stage = .returned := by
  obtain ⟨w', hw', hend, hleft⟩ := askAll_of_caughtUp hstage htrue
  have hnil : w'.remaining = [] := by
    rw [List.eq_nil_iff_forall_not_mem]
    intro e he
    obtain ⟨hmem, hnot⟩ := hleft e he
    exact hnot (hremaining ▸ hmem)
  refine ⟨{ w' with stage := .returned }, ?_, rfl⟩
  rw [Wait.onePass, hstage]
  show (w.askAll st rest).bind _ = _
  rw [hw', Option.bind_some, Wait.endPass, hend, hnil]
  rfl

end Pass

/-! ## Completeness -/

/-- The number of the last event of a stream. -/
def lastEventNumber (st : Store) (u : String) : ℕ :=
  ((onStream u st.log).getLast?.map (·.eventNumber)).getD 0

/-- The subscription has routed every event up to `n`, and processed it. -/
structure Drained (st : Store) (row : SubscriptionRow) (n : ℕ) : Prop where
  routed : n ≤ row.lastSeen
  processed : ∀ item ∈ st.workItems.rows, item.subscription = row.pkey → item.eventNumber ≤ n →
    item.state.outstanding = false

/-- The subscription of the ref has no work left: on `$all` up to the appended events, on one stream up
    to its last event, where the cursor stands. -/
def UpToDate (st : Store) (rows : List AppendedEvent) (s : SubscriptionRef) : Prop :=
  ∃ row, subscription st s.stream s.name = some row ∧
    if s.stream = "$all" then ∀ r ∈ rows, Drained st row r.eventNumber
    else row.lastSeen = lastEventNumber st s.stream ∧ Drained st row row.lastSeen

/-- Every ref is caught up at the largest event number, and one pass over the state ends the call. -/
structure Completes (st : Store) (rows : List AppendedEvent) (subs : List SubscriptionRef)
    (wait : Wait) (now : ℤ) : Prop where
  caughtUp : ∀ s ∈ subs, ∀ n, IsGreatest { n | ∃ r ∈ rows, r.eventNumber = n } n →
    caughtUp s n st = .ok true
  returns : Returns wait st now

section Complete

variable {st : Store} {rows : List AppendedEvent} {subs : List SubscriptionRef} {s : SubscriptionRef}
  {row : SubscriptionRow} {n : ℕ}

theorem caughtUp_iff_drained (hok : NamesOk st) (hrow : subscription st s.stream s.name = some row) :
    caughtUp s n st = .ok true ↔ Drained st row n := by
  obtain ⟨key, hkey, hfind⟩ := Option.bind_eq_some_iff.mp hrow
  obtain ⟨stream, hstream, rfl⟩ := Option.map_eq_some_iff.mp hkey
  have hpkey := Table.key_of_find? hfind
  have hname : s.name ≠ "" := by
    have hne := hok row (Table.mem_of_find? hfind)
    rwa [show row.subscriptionName = s.name from congrArg Prod.snd hpkey] at hne
  rw [caughtUp, isSubscriptionCaughtUp_eq_true]
  constructor
  · rintro ⟨-, stream', row', hstream', hfind', hle, hnone⟩
    obtain rfl := Option.some.inj (hstream.symm.trans hstream')
    obtain rfl := Option.some.inj (hfind.symm.trans hfind')
    exact ⟨hle, hpkey ▸ hnone⟩
  · intro h
    exact ⟨hname, stream, row, hstream, hfind, h.routed, hpkey ▸ h.processed⟩

/-- The guard lets the call through. -/
theorem begin_of_guard (hrows : rows ≠ []) (hsubs : subs ≠ []) (hguard : ¬ Refused rows subs)
    (timeout : ℕ) (start : ℤ) :
    IsGreatest { n | ∃ r ∈ rows, r.eventNumber = n }
        (waitForProjection rows subs timeout start).target ∧
      (waitForProjection rows subs timeout start).stage = .pass (entries subs) ∧
        (waitForProjection rows subs timeout start).remaining = entries subs := by
  have hbegin : Missing rows subs ⟨waitForProjection rows subs timeout start, []⟩ ∧
      (waitForProjection rows subs timeout start).stage = .pass (entries subs) ∧
        (waitForProjection rows subs timeout start).remaining = entries subs :=
    Missing.begin hrows hsubs hguard
  exact ⟨hbegin.1.target, hbegin.2⟩

/-- A ref without work left is caught up at `n` just when its stream goes as far as `n`. -/
theorem UpToDate.caughtUp_iff (h : UpToDate st rows s) (hok : NamesOk st)
    (hn : IsGreatest { n | ∃ r ∈ rows, r.eventNumber = n } n) :
    caughtUp s n st = .ok true ↔
      (s.stream ≠ "$all" → ∀ r ∈ rows, r.eventNumber ≤ lastEventNumber st s.stream) := by
  obtain ⟨row, hrow, hdrained⟩ := h
  obtain ⟨r, hr, hrn⟩ := hn.1
  rw [caughtUp_iff_drained hok hrow]
  split_ifs at hdrained with hall
  · exact iff_of_true (hrn ▸ hdrained r hr) fun hne => absurd hall hne
  · obtain ⟨hlast, hdrained⟩ := hdrained
    constructor
    · intro hd _ r' hr'
      have hle : r'.eventNumber ≤ n := hn.2 ⟨r', hr', rfl⟩
      exact hle.trans (hlast ▸ hd.routed)
    · intro hle
      have hroute : n ≤ row.lastSeen := by
        rw [hlast, ← hrn]
        exact hle hall r hr
      refine ⟨hroute, fun item hitem hsub hnum => hdrained.processed item hitem hsub ?_⟩
      omega

/-- **When a wait comes to its end.** In a state where every ref is without work left, the refs are
    caught up and one pass ends the call, just when the stream of every ref other than `$all` has an
    event at or behind the largest appended number. -/
theorem completes_iff {κ : Type} [DecidableEq κ] {w : Queue.World κ}
    (hw : Reachable Queue.system w) (rows : List AppendedEvent) (subs : List SubscriptionRef)
    (hguard : rows = [] ∨ ¬ Refused rows subs) (hup : ∀ s ∈ subs, UpToDate w.db.store rows s)
    (timeout : ℕ) (start now : ℤ) :
    Completes w.db.store rows subs (waitForProjection rows subs timeout start) now ↔
      ∀ s ∈ subs, s.stream ≠ "$all" → ∀ r ∈ rows,
        r.eventNumber ≤ lastEventNumber w.db.store s.stream := by
  have hok := names_of_reachable hw
  by_cases hempty : rows = [] ∨ subs = []
  · have hreturned : (waitForProjection rows subs timeout start).stage = .returned := by
      unfold waitForProjection
      dsimp only
      split
      · rfl
      · rfl
      · rcases hempty with h | h <;> cases h
    refine iff_of_true ⟨fun s hs n hn => ?_, Or.inl hreturned⟩ fun s hs _ r hr => ?_
    · rcases hempty with rfl | rfl
      · obtain ⟨r, hr, -⟩ := hn.1
        cases hr
      · cases hs
    · rcases hempty with rfl | rfl
      · cases hr
      · cases hs
  · obtain ⟨hrows, hsubs⟩ := not_or.mp hempty
    obtain ⟨htarget, hstage, hremaining⟩ :=
      begin_of_guard hrows hsubs (hguard.resolve_left hrows) timeout start
    constructor
    · intro h s hs
      exact ((hup s hs).caughtUp_iff hok htarget).mp (h.caughtUp s hs _ htarget)
    · intro hle
      have htrue : ∀ s ∈ subs, ∀ n, IsGreatest { n | ∃ r ∈ rows, r.eventNumber = n } n →
          caughtUp s n w.db.store = .ok true := fun s hs n hn =>
        ((hup s hs).caughtUp_iff hok hn).mpr (hle s hs)
      refine ⟨htrue, Or.inr (onePass_returns hstage hremaining (fun e he => ?_) now)⟩
      exact htrue e.2 (mem_entries he).1 _ htarget

/-- The appends that return `sampleRows`; then a worker routes all of `order`. -/
def sampleTwoStreams : List (Queue.Op ℕ) :=
  let opened (id : String) : Json :=
    .obj [("event_id", .str id), ("event_type", .str "opened"), ("data", .null)]
  let append (now : Timestamp) (u id : String) : Queue.Op ℕ :=
    .append now ⟨some u, some "any", none, some (.arr [opened id])⟩
  [append 10 "order" "aaaaaaaa-aaaa-aaaa-aaaa-aaaaaaaaaaaa",
    append 20 "order::late" "bbbbbbbb-bbbb-bbbb-bbbb-bbbbbbbbbbbb",
    .call (.claimSubscription 30 (some "order") (some "totals") (some "r") (some 30) none),
    .call (.routeBatch (some "order") (some "totals") (some "r") (some 1) (some (.arr [])))]

theorem sampleTwoStreams_run : ∃ w, Reachable Queue.system (w : Queue.World ℕ) ∧
    UpToDate w.db.store sampleRows ⟨"order", "totals"⟩ ∧
      lastEventNumber w.db.store "order" = 1 ∧ caughtUp ⟨"order", "totals"⟩ 2 w.db.store = .ok false := by
  have hrun : (Queue.system.run Queue.World.install sampleTwoStreams).map (fun w =>
      ((subscription w.db.store "order" "totals").map (·.lastSeen),
        w.db.store.workItems.rows, lastEventNumber w.db.store "order",
        (caughtUp ⟨"order", "totals"⟩ 2 w.db.store).toOption)) =
      some (some 1, [], 1, some false) := by decide +kernel
  obtain ⟨w, hw, heq⟩ := Option.map_eq_some_iff.mp hrun
  obtain ⟨hseen, hitems, hlast, hfalse⟩ := by simpa only [Prod.mk.injEq] using heq
  obtain ⟨row, hrow, hone⟩ := Option.map_eq_some_iff.mp hseen
  refine ⟨w, .run (.init rfl) hw, ⟨row, hrow, ?_⟩, hlast, toOption_eq_some hfalse⟩
  rw [if_neg (show "order" ≠ "$all" by decide)]
  refine ⟨hone.trans hlast.symm, le_rfl, fun item hitem => ?_⟩
  rw [hitems] at hitem
  cases hitem

theorem completes_iff_sampleTwoStreams : ∃ w, Reachable Queue.system (w : Queue.World ℕ) ∧
    (Completes w.db.store (sampleRows.take 1) [⟨"order", "totals"⟩]
        (waitForProjection (sampleRows.take 1) [⟨"order", "totals"⟩] 5000 0) 0 ↔
      ∀ s ∈ [(⟨"order", "totals"⟩ : SubscriptionRef)], s.stream ≠ "$all" →
        ∀ r ∈ sampleRows.take 1, r.eventNumber ≤ lastEventNumber w.db.store s.stream) := by
  obtain ⟨w, hw, hup, -, -⟩ := sampleTwoStreams_run
  refine ⟨w, hw, completes_iff hw _ _ (Or.inr ?_) (fun s hs => ?_) 5000 0 0⟩
  · rintro ⟨s, hs, hcross⟩
    rw [List.mem_singleton.mp hs] at hcross
    exact absurd hcross (by decide)
  · rw [List.mem_singleton.mp hs]
    exact hup.imp fun row h => ⟨h.1, h.2⟩

/-- The largest number is that of the event on `order::late`. The subscription on `order` has nothing left
    to route or to process, and the call gives up at its deadline. -/
theorem completes_fails : ∃ w, Reachable Queue.system (w : Queue.World ℕ) ∧
    ¬ Refused sampleRows [⟨"order", "totals"⟩] ∧
    UpToDate w.db.store sampleRows ⟨"order", "totals"⟩ ∧
    ¬ Completes w.db.store sampleRows [⟨"order", "totals"⟩]
      (waitForProjection sampleRows [⟨"order", "totals"⟩] 5000 0) 5000 ∧
    ∃ v, (waitForProjection sampleRows [⟨"order", "totals"⟩] 5000 0).onePass w.db.store 5000 =
        some v ∧
      v.stage = .threw (timeoutError 5000 [("order::totals", ⟨"order", "totals"⟩)]) := by
  obtain ⟨w, hw, hup, -, hfalse⟩ := sampleTwoStreams_run
  let ref : SubscriptionRef := ⟨"order", "totals"⟩
  let wait : Wait := waitForProjection sampleRows [ref] 5000 0
  let asking : Wait := { wait with stage := .asking "order::totals" ref [] w.db.store }
  have hpass : wait.onePass w.db.store 5000 =
      some { wait with stage := .threw (timeoutError 5000 [("order::totals", ref)]) } := by
    have hanswer : asking.answer .answered w.db.store = some { wait with stage := .pass [] } := by
      have heq : asking.answer .answered w.db.store =
          asking.receive (Delivery.answered.reply (caughtUp ref 2 w.db.store)) :=
        asking.answer_eq _ _ rfl
      rw [heq, hfalse]
      rfl
    show ((asking.answer .answered w.db.store).bind some).bind (fun v => v.endPass 5000) = _
    rw [hanswer]
    rfl
  refine ⟨w, hw, ?_, hup, fun h => ?_, _, hpass, rfl⟩
  · rintro ⟨s, hs, hcross⟩
    rw [List.mem_singleton.mp hs] at hcross
    exact absurd hcross (by decide)
  · have hgreatest : IsGreatest { n | ∃ r ∈ sampleRows, r.eventNumber = n } 2 := by
      refine ⟨⟨_, List.mem_cons_of_mem _ List.mem_cons_self, rfl⟩, ?_⟩
      rintro _ ⟨r, hr, rfl⟩
      simp [sampleRows] at hr
      rcases hr with rfl | rfl <;> decide
    have htrue := h.caughtUp _ List.mem_cons_self 2 hgreatest
    rw [hfalse] at htrue
    cases htrue

end Complete

end Instructed.Consistency
