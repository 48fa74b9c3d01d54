import Instructed.Processing.Invariant
import Instructed.Queue.Done

/-!
# Partitions beside routing

A subscription on `$all`: its routing workers insert work items above the cursor, so its partitions are
served in order, whatever the processing workers do.

* `Effect.insertsAbove`: no step inserts a row at or below the cursor;
* `Effect.quiet`: a step that finishes no row writes no snapshot of the handlers;
* `order_of_reachable`, `completed_of_reachable`: the order of the rows, and the done rows;
* `Holds`: a worker holds the row of an item;
* `holds_step`: **a worker that holds an item held it before the step, and nothing was completed or
  removed in the partition, unless the worker has just claimed it**.
-/

namespace Instructed.Processing

open Sql Relational Transition Routing Lanes

section Order

variable {H M I A : Type} {D : RoutingDefinition} {adapter : Adapter H M I A} {number : JsNumber}
  {w w' : World H M A} {id : String} {wk : Worker H M A}

/-- A call that inserts nothing. -/
theorem insertsAbove_of_kept {st st' : Store}
    (h : ∀ row ∈ st'.workItems.rows, ∃ old ∈ st.workItems.rows, old.pkey = row.pkey) :
    Queue.InsertsAbove st st' := by
  intro row hr hnone
  obtain ⟨old, hold, hkey⟩ := h row hr
  exact absurd hkey (Table.find?_eq_none_iff.mp hnone old hold)

theorem insertsAbove_of_change {st st' : Store} {es : List Queue.Event} (h : Queue.Change st st' es)
    (hes : ∀ k, .inserted k ∉ es) : Queue.InsertsAbove st st' := by
  refine insertsAbove_of_kept fun row hr => ?_
  rcases h.origin hr with ⟨-, hmem, -⟩ | ⟨old, hold, hstep⟩
  · exact absurd hmem (hes _)
  · exact ⟨old, hold, hstep.pkey_eq.symm⟩

/-- A call that neither claims nor releases a subscription, nor routes, inserts nothing. -/
theorem inserted_notMem {c : Queue.Call} {st st' : Store} {es : List Queue.Event}
    (h : c.run st = .ok (st', es)) (htarget : c.target st = none) (k : Queue.Key) :
    .inserted k ∉ es := by
  intro hmem
  have hne : c.target st ≠ some k.1 := by
    rw [htarget]
    exact fun h => nomatch h
  exact (Queue.Call.run_frame h hne).2 k hmem rfl

/-- The batch of a worker lies above the cursor at which it was read. -/
theorem seen_above {st : Store} (hc : st.Consistent) (hD : D.stream = "$all") {inspected : List ℕ}
    {lastSeen cursorTo : ℕ} {r : Routed} (hok : RoutedOk D (D.source st) inspected lastSeen [] r)
    (hcursor : r.cursorTo = some cursorTo) :
    ∀ e ∈ r.seen, lastSeen < e.eventNumber ∧ e.eventNumber ≤ cursorTo := by
  obtain ⟨htaken, hne, last, hlast, hnumber, hpos, -⟩ := hok.last hc hcursor
  intro e he
  have hmem := htaken.consecutive (source_consecutive hc)
  have hle := hmem.pos_mem he
  rw [RoutingDefinition.position, if_pos hD] at hpos hle
  omega

theorem watermark_of_find {st : Store} {l : Queue.Lane} {row : SubscriptionRow}
    (h : st.subscriptions.find? l.1 = some row) :
    Queue.watermark st l = ((row.lastSeen : ℤ) : WithBot ℤ) := by
  rw [Queue.watermark, h]

/-- **No step inserts a row at or below the cursor.** -/
theorem Effect.insertsAbove {st : Store} {es : List Queue.Event} (hcalls : adapter.Untargeted)
    {C : World H M A → Op M I → Prop} (hw : ReachableWhen (system D adapter number) C w)
    (hD : D.stream = "$all") (hinv : Inv D w.routing) (hbound : w.store.log.length < 2 ^ 53)
    (h : Effect D adapter number w st es) : Queue.InsertsAbove w.store st := by
  have hself : ∀ {st : Store}, st.workItems = w.store.workItems → Queue.InsertsAbove w.store st :=
    fun heq => insertsAbove_of_kept fun row hr => ⟨row, heq ▸ hr, rfl⟩
  have hnil : ∀ {st : Store}, Queue.Change w.store st [] → Queue.InsertsAbove w.store st :=
    fun hc => insertsAbove_of_change hc fun _ hm => nomatch hm
  cases h with
  | snapshots _ => exact hself rfl
  | append => exact hself (w.routing.queue.db.append_tables _ _).2.1
  | claimSubscription hrun =>
    have hchange := (Queue.Call.run_change hrun).1
    obtain ⟨r, -, heq⟩ := map_eq_ok.mp hrun
    cases heq
    exact hnil hchange
  | releaseSubscription hrun =>
    have hchange := (Queue.Call.run_change hrun).1
    obtain ⟨r, -, heq⟩ := map_eq_ok.mp hrun
    cases heq
    exact hnil hchange
  | extend hrun =>
    exact insertsAbove_of_change (Queue.Call.run_change hrun).1 (inserted_notMem hrun rfl)
  | complete hwk hphase hrun =>
    obtain ⟨m, m', hcomplete⟩ := phase_call hw hwk _ _ _ hphase
    exact insertsAbove_of_change (Queue.Call.run_change hrun).1
      (inserted_notMem hrun (hcalls _ _ _ _ _ _ hcomplete _ _))
  | @claimItem id x snapshot st leaseSeconds es _ hrun =>
    exact insertsAbove_of_change (Queue.runClaim_change hrun).1 fun k hm =>
      (Queue.runClaim_frame hrun k.1).2 k hm rfl
  | @routeBatch id rwk lastSeen n r st es hrwk hphase hrun =>
    have hok : RoutedOk D (D.source w.store) w.routing.inspected lastSeen [] r ∧
        r.cursorTo = some n := by
      have hp := hinv.phases id rwk hrwk
      rwa [hphase] at hp
    have hc := hinv.grounded.consistent.store
    have hseen := seen_above hc hD hok.1 hok.2
    obtain ⟨⟨res, s⟩, hroute, heq⟩ := map_eq_ok.mp hrun
    cases heq
    have hexact : ∀ x ∈ r.decisions, x.2 < 2 ^ 53 := by
      intro x hx
      rw [hok.1.decisions] at hx
      obtain ⟨e, he, hde⟩ := List.mem_filterMap.mp hx
      have htaken := (hok.1.last hc hok.2).1
      have hle := (eventNumbers_of_sublist hc (htaken.sublist.trans source_sublist)).2 e he
      rw [decision_number hde]
      exact lt_of_le_of_lt hle.2 hbound
    obtain ⟨row, hrow⟩ := route_row hexact hroute
    have hlast := hinv.held row hrow.old id rwk lastSeen hrwk hrow.claimedBy (hphase ▸ rfl)
    have hfind := Queue.find?_of_subscription hrow.old
    intro item hitem hnone
    rw [hrow.store] at hitem
    rcases Table.mem_of_mem_insertAllNew hitem with hmem | ⟨hmem, -⟩
    · exact absurd rfl (Table.find?_eq_none_iff.mp hnone item hmem)
    · obtain ⟨d, hd, rfl⟩ := List.mem_map.mp hmem
      rw [hok.1.decisions] at hd
      obtain ⟨e, he, hde⟩ := List.mem_filterMap.mp hd
      have hnum := decision_number hde
      have habove := hseen e he
      have hfind' : s.subscriptions.find? row.pkey =
          some { row with lastSeen := max row.lastSeen n } := by
        rw [hrow.store]
        exact (Table.find?_put ..).trans (if_pos rfl)
      rw [watermark_of_find (l := Queue.lane (itemRow row.pkey d)) hfind,
        watermark_of_find (l := Queue.lane (itemRow row.pkey d)) hfind']
      refine ⟨WithBot.coe_lt_coe.mpr ?_, WithBot.coe_le_coe.mpr ?_⟩
      · show (row.lastSeen : ℤ) < (d.2 : ℤ)
        omega
      · show (d.2 : ℤ) ≤ ((max row.lastSeen n : ℕ) : ℤ)
        omega

/-! ## The order of the rows -/

theorem orderInv_routing {r r' : Routing.World String} (h : RoutingBy D number r r')
    (habove : Queue.InsertsAbove r.store r'.store) (hinv : Queue.OrderInv r.queue) :
    Queue.OrderInv r'.queue := by
  cases h with
  | same => exact hinv
  | step h =>
    rcases Routing.step_queue h with heq | ⟨q, hq⟩
    · rw [heq]
      exact hinv
    · refine hinv.step (fun v hv => ?_) hq
      rw [← Option.some.inj (hq.symm.trans hv)]
      exact habove
  | snapshots => exact ⟨⟨hinv.rows.holder, hinv.rows.routed, hinv.rows.head⟩, hinv.snapshots, hinv.done⟩
  | rolledBack =>
    refine ⟨hinv.rows, fun i snap hi => ?_, hinv.done⟩
    dsimp only at hi
    rw [Function.update_apply] at hi
    split_ifs at hi
    exact hinv.snapshots i snap hi

/-- **The partitions of a subscription on `$all` are served in order.** -/
theorem order_of_reachable {C : World H M A → Op M I → Prop} (hcalls : adapter.Untargeted)
    (hD : D.stream = "$all") (hw : ReachableWhen (system D adapter number) C w)
    (hbound : w.store.log.length < 2 ^ 53) : Queue.OrderInv w.routing.queue := by
  induction hw with
  | init hs =>
    cases hs
    exact .of_reachable (.init rfl)
  | step hr _ hstep ih =>
    have hbound' := ((step_log hcalls hr hstep).length_le).trans_lt hbound
    obtain ⟨es, heffect, -⟩ := step_effect hstep
    have habove := heffect.insertsAbove hcalls hr hD (inv_of_reachable hcalls hD hr hbound') hbound'
    exact orderInv_routing (step_routing hcalls hr hstep) habove (ih hbound')

/-- The changes of the tables, by the effect of a step. -/
theorem Effect.change {st : Store} {es : List Queue.Event} (h : Effect D adapter number w st es) :
    Queue.Change w.store st es ∨ es = [] ∧ st.workItems = w.store.workItems := by
  cases h with
  | snapshots _ => exact Or.inr ⟨rfl, rfl⟩
  | append => exact Or.inr ⟨rfl, (w.routing.queue.db.append_tables _ _).2.1⟩
  | claimSubscription hrun => exact Or.inl (Queue.Call.run_change hrun).1
  | releaseSubscription hrun => exact Or.inl (Queue.Call.run_change hrun).1
  | routeBatch _ _ hrun => exact Or.inl (Queue.Call.run_change hrun).1
  | claimItem _ hrun => exact Or.inl (Queue.runClaim_change hrun).1
  | extend hrun => exact Or.inl (Queue.Call.run_change hrun).1
  | complete _ _ hrun => exact Or.inl (Queue.Call.run_change hrun).1

/-- **A step that finishes no row leaves the done rows as they are, and writes no snapshot of the
    handlers.** -/
theorem Effect.quiet {st : Store} {es : List Queue.Event} (h : Effect D adapter number w st es)
    (hok : ∀ row ∈ w.store.workItems.rows, Queue.HolderOk row)
    (hquiet : ∀ key, ¬ Queue.Finished es key) :
    (∀ l, Queue.doneIn st l = Queue.doneIn w.store l) ∧
      ∀ u snap, adapter.owns u = true → st.snapshots.find? u = some snap →
        w.store.snapshots.find? u = some snap := by
  have hchange : Queue.Change w.store st es → (∀ l, Queue.doneIn st l = Queue.doneIn w.store l) ∧
      ∀ u snap, adapter.owns u = true → st.snapshots.find? u = some snap →
        w.store.snapshots.find? u = some snap := fun hc =>
    ⟨fun l => hc.doneIn_eq hok (Queue.quiet_of_unfinished hquiet l),
      fun u snap _ hsnap => hc.snapshots_of_unfinished hquiet hsnap⟩
  cases h with
  | snapshots hsnapshots => exact ⟨fun l => Queue.doneIn_congr rfl, hsnapshots⟩
  | append =>
    obtain ⟨-, hitems, hsnapshots⟩ := w.routing.queue.db.append_tables _ _
    refine ⟨fun l => Queue.doneIn_congr hitems, fun u snap _ hsnap => ?_⟩
    rw [hsnapshots] at hsnap
    exact hsnap
  | claimSubscription hrun => exact hchange (Queue.Call.run_change hrun).1
  | releaseSubscription hrun => exact hchange (Queue.Call.run_change hrun).1
  | routeBatch _ _ hrun => exact hchange (Queue.Call.run_change hrun).1
  | claimItem _ hrun => exact hchange (Queue.runClaim_change hrun).1
  | extend hrun => exact hchange (Queue.Call.run_change hrun).1
  | complete _ _ hrun => exact hchange (Queue.Call.run_change hrun).1

theorem completed_of_reachable {C : World H M A → Op M I → Prop}
    (hw : ReachableWhen (system D adapter number) C w) :
    Queue.Completed w.store w.routing.queue.events := by
  refine hw.invariant (P := fun w => Queue.Completed w.store w.routing.queue.events) ?_
    fun s op s' h _ hstep => ?_
  · rintro _ rfl row hr
    cases hr
  · obtain ⟨es, heffect, hes⟩ := step_effect hstep
    rw [hes]
    rcases heffect.change with hchange | ⟨rfl, hitems⟩
    · exact h.change hchange
    · rw [List.append_nil]
      intro row hr
      exact h row (hitems ▸ hr)

/-- The done rows name events of the log. -/
theorem done_le_length {C : World H M A → Op M I → Prop} (hcalls : adapter.Untargeted)
    (hD : D.stream = "$all") (hw : ReachableWhen (system D adapter number) C w)
    (hbound : w.store.log.length < 2 ^ 53) (p : String) :
    ∀ n ∈ Queue.doneIn w.store ((0, D.name), p), n ≤ w.store.log.length := by
  rintro n ⟨row, hr, -, hlane, rfl⟩
  have hinv := inv_of_reachable hcalls hD hw hbound
  have hc : w.store.Consistent := hinv.grounded.consistent.store
  have hsub : row.subscription = (0, D.name) := congrArg Prod.fst hlane
  obtain ⟨sub, hfind⟩ := Option.isSome_iff_exists.mp (hinv.grounded.history.tracked.owned row hr)
  obtain ⟨h, hall⟩ := hc.streamByUuid_all
  have hrow : D.row w.store = some sub := by
    rw [RoutingDefinition.row, hD, Queue.subscription_of_find hall, ← hsub]
    exact hfind
  obtain ⟨start, -, hp⟩ := hinv.progress sub hrow
  obtain ⟨e, he, hn⟩ := hp.items row hr (Table.key_of_find? hfind).symm
  have hle := ((eventNumbers_of_sublist hc (hp.taken.sublist.trans source_sublist)).2 e he).2
  show row.eventNumber ≤ (w.store.log.length : ℤ)
  omega

/-! ## Who holds an item -/

/-- A worker after a step: it was there, it is new, or it took a turn. -/
theorem worker_origin {op : Op M I} (h : step D adapter number w op = some w')
    (hwk : w'.workers id = some wk) : w.workers id = some wk ∨ wk.phase = .claim ∨
      ∃ old routing returned, w.workers id = some old ∧ Turn D adapter w id old routing wk returned := by
  cases step_cases h with
  | routing _ _ => exact Or.inl hwk
  | snapshots _ => exact Or.inl hwk
  | started _ =>
    simp only [World.setWorker, Function.update_apply] at hwk
    split_ifs at hwk
    · obtain rfl := Option.some.inj hwk
      exact Or.inr (Or.inl rfl)
    · exact Or.inl hwk
  | crashed _ =>
    simp only [World.crash, Function.update_apply] at hwk
    split_ifs at hwk
    exact Or.inl hwk
  | turn hold hturns =>
    obtain ⟨routing, wk', returned, ht, rfl⟩ := hturns
    simp only [World.afterTurn, Function.update_apply] at hwk
    split_ifs at hwk with heq
    · obtain rfl := Option.some.inj hwk
      subst heq
      exact Or.inr (Or.inr ⟨_, routing, returned, hold, ht⟩)
    · exact Or.inl hwk

theorem claimed_same {r r' : Routing.World String} {es : List Queue.Event}
    (h : r'.queue.events = r.queue.events) (hes : r'.queue.events = r.queue.events ++ es)
    (worker : String) (key : Queue.Key) : .claimed worker key ∉ es := by
  rw [List.self_eq_append_right.mp (h.symm.trans hes)]
  exact List.not_mem_nil

/-- A call does not hand out a row. -/
theorem claimed_call {r : Routing.World String} {d : Delivery} {c : Queue.Call}
    {es : List Queue.Event} (hes : (r.call d c).queue.events = r.queue.events ++ es)
    (worker : String) (key : Queue.Key) : .claimed worker key ∉ es := by
  cases hrun : c.run r.store with
  | error e =>
    rw [Routing.World.call_of_error hrun] at hes
    exact claimed_same rfl hes worker key
  | ok res =>
    cases harrives : d.arrives with
    | false =>
      rw [Routing.World.call_of_lost harrives] at hes
      exact claimed_same rfl hes worker key
    | true =>
      rw [Routing.World.call_of_ok harrives hrun] at hes
      rw [← List.append_cancel_left hes]
      exact Queue.Call.claimed_notMem hrun worker key

theorem claimed_routing {op : Routing.Op String} {r r' : Routing.World String}
    {es : List Queue.Event} (hadmits : admits op = true) (h : Routing.step D number r op = some r')
    (hes : r'.queue.events = r.queue.events ++ es) (worker : String) (key : Queue.Key) :
    .claimed worker key ∉ es := by
  cases Routing.step_cases h with
  | @queue q _ hop _ hq =>
    subst hop
    cases q with
    | append now a =>
      obtain rfl := Option.some.inj hq
      exact claimed_same rfl hes worker key
    | _ => cases hadmits
  | started _ => exact claimed_same rfl hes worker key
  | crashed => exact claimed_same rfl hes worker key
  | moved _ hmove =>
    cases hmove with
    | claimed _ _ _ => exact claimed_call hes worker key
    | unclaimed _ _ => exact claimed_call hes worker key
    | committed _ _ _ _ => exact claimed_call hes worker key
    | released _ => exact claimed_call hes worker key
    | _ => exact claimed_same rfl hes worker key

/-- A worker that is handed a row has no event at hand yet. -/
theorem event?_of_claimed {op : Op M I} {es : List Queue.Event} {key : Queue.Key}
    (h : step D adapter number w op = some w')
    (hes : w'.routing.queue.events = w.routing.queue.events ++ es)
    (hclaimed : .claimed id key ∈ es) (hwk : w'.workers id = some wk) : wk.phase.event? = none := by
  cases step_cases h with
  | routing hadmits hstep => exact absurd hclaimed (claimed_routing hadmits hstep hes id key)
  | snapshots _ => exact absurd hclaimed (claimed_same rfl hes id key)
  | started _ => exact absurd hclaimed (claimed_same rfl hes id key)
  | crashed _ => exact absurd hclaimed (claimed_same rfl hes id key)
  | @turn i x _ hx hturns =>
    obtain ⟨routing, x', returned, ht, rfl⟩ := hturns
    have hself : i = id → x'.phase.event? = none → wk.phase.event? = none := by
      rintro rfl hnone
      simp only [World.afterTurn, Function.update_self] at hwk
      rw [← Option.some.inj hwk]
      exact hnone
    have hworker : ∀ {now : Timestamp} {snapshot st : Store} {locked : WorkItemRow → Bool}
        {lease : ℤ}, Queue.runClaim now snapshot locked (some D.stream) (some D.name) (some i)
          (some lease) w.store = .ok (st, es) → i = id := fun hrun =>
      Option.some.inj ((Queue.runClaim_change hrun).2.2 id key hclaimed).1
    have hclaim : ∀ {now : Timestamp} {locked : WorkItemRow → Bool} {lease : ℤ}
        {queue : Queue.World String}, routing = { w.routing with queue := queue } →
        Queue.step w.routing.queue (.claimItem i now locked (some D.stream) (some D.name) (some i)
          (some lease)) = some queue → i = id := by
      intro now locked lease queue hrouting hq
      subst hrouting
      cases Queue.step_ran hq with
      | claimItem _ hrun =>
        rw [List.append_cancel_left hes] at hrun
        exact hworker hrun
      | idle _ hevents => exact absurd hclaimed (claimed_same hevents hes id key)
    cases ht with
    | empty _ hq => exact hself (hclaim rfl hq) rfl
    | claimed _ _ _ hq => exact hself (hclaim rfl hq) rfl
    | completed _ _ _ => exact absurd hclaimed (claimed_call hes id key)
    | refused _ => exact absurd hclaimed (claimed_call hes id key)
    | extended _ _ => exact absurd hclaimed (claimed_call hes id key)
    | opened _ _ hq =>
      simp only [Queue.step] at hq
      split at hq
      · obtain rfl := Option.some.inj hq
        exact absurd hclaimed (claimed_same rfl hes id key)
      · cases hq
    | _ => exact absurd hclaimed (claimed_same rfl hes id key)

/-- A partition of a subscription on `$all`. -/
def laneOf (D : RoutingDefinition) (p : String) : Queue.Lane := ((0, D.name), p)

/-- The key of the row of an item. -/
def itemKey (D : RoutingDefinition) (item : Item) : Queue.Key :=
  ((0, D.name), item.partitionKey, item.eventNumber)

/-- The worker `id` holds the row of the item. -/
def Holds (D : RoutingDefinition) (st : Store) (id : String) (item : Item) : Prop :=
  ∃ row ∈ st.workItems.rows, row.pkey = itemKey D item ∧ row.claimedBy = some id

theorem lane_of_itemKey {row : WorkItemRow} {item : Item} (h : row.pkey = itemKey D item) :
    Queue.lane row = laneOf D item.partitionKey ∧ row.eventNumber = item.eventNumber := by
  simp only [WorkItemRow.pkey, itemKey, Prod.mk.injEq] at h
  obtain ⟨⟨h0, hname⟩, hp, hn⟩ := h
  exact ⟨Prod.ext (Prod.ext h0 hname) hp, hn⟩

/-- **A worker at work on an item that it holds held it before the step, and the done rows of the
    partition are as they were.** -/
theorem holds_step {C : World H M A → Op M I → Prop} {op : Op M I} (hcalls : adapter.Untargeted)
    (hD : D.stream = "$all") (hw : ReachableWhen (system D adapter number) C w)
    (hbound : w.store.log.length < 2 ^ 53) (h : step D adapter number w op = some w')
    (hwk : w'.workers id = some wk) (hevent : wk.phase.event? ≠ none) {item : Item}
    (hholds : Holds D w'.store id item) : Holds D w.store id item ∧
      Queue.doneIn w'.store (laneOf D item.partitionKey) =
        Queue.doneIn w.store (laneOf D item.partitionKey) := by
  have hordered := (order_of_reachable hcalls hD hw hbound).rows
  obtain ⟨row', hr', hkey', hholder'⟩ := hholds
  obtain ⟨es, heffect, hes⟩ := step_effect h
  rcases heffect.change with hchange | ⟨-, hitems⟩
  · rcases hchange.held_origin hr' hholder' with ⟨row, hr, hkey, hholder⟩ | hclaimed
    · refine ⟨⟨row, hr, hkey.trans hkey', hholder⟩, ?_⟩
      have hquiet := hchange.quiet_of_held hordered hr hholder hr' hkey.symm hholder'
      rw [(lane_of_itemKey (hkey.trans hkey')).1] at hquiet
      exact hchange.doneIn_eq hordered.holder hquiet
    · exact absurd (event?_of_claimed h hes hclaimed hwk) hevent
  · exact ⟨⟨row', hitems ▸ hr', hkey', hholder'⟩, Queue.doneIn_congr hitems⟩

/-- The done rows of the partition lie below an item that is held. -/
theorem done_lt_of_holds {C : World H M A → Op M I → Prop} (hcalls : adapter.Untargeted)
    (hD : D.stream = "$all") (hw : ReachableWhen (system D adapter number) C w)
    (hbound : w.store.log.length < 2 ^ 53) {item : Item} (hholds : Holds D w.store id item) :
    ∀ n ∈ Queue.doneIn w.store (laneOf D item.partitionKey), n < item.eventNumber := by
  have hinv := order_of_reachable hcalls hD hw hbound
  obtain ⟨row, hr, hkey, hholder⟩ := hholds
  obtain ⟨hlane, hnumber⟩ := lane_of_itemKey hkey
  have hfirst := (hinv.rows.first_of_holder (Table.find?_key hr) hholder).1
  rw [hlane, hnumber] at hfirst
  exact fun n hn => Queue.lt_of_done (completed_of_reachable hw) hinv.done hn hfirst

/-- Whose fenced call on the item succeeds holds it. -/
theorem holds_of_held {proc : String} {st : Store} (hc : st.Consistent) (hD : D.stream = "$all")
    {item : Item} {r : ItemRef} {key : Queue.Key} {row : WorkItemRow}
    (h : Held proc (itemArgs D id item) st r key row) :
    row.pkey = itemKey D item ∧ Holds D st id item := by
  obtain ⟨hsub, hp, hn, hholder⟩ := held_itemArgs h
  obtain ⟨n, hall⟩ := hc.streamByUuid_all
  have hkey : row.pkey = itemKey D item := by
    rw [Queue.subscriptionKey, hD, hall, Option.map_some] at hsub
    exact Prod.ext (Option.some.inj hsub) (Prod.ext hp hn)
  exact ⟨hkey, row, Table.mem_of_find? h.find, hkey, hholder⟩

end Order

end Instructed.Processing
