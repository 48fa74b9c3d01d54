import Instructed.Lib.Tail
import Instructed.Routing.Steps

/-!
# What routing keeps

The subscription reads one list, its source: the log for `$all`, the events of its stream otherwise.
Whoever claims it continues behind the cursor, and only the holder of the lease moves the cursor.

* `RoutedOk`, `PhaseOk`: what a worker knows about the batch it is working on, whoever holds the lease;
* `Progress`: how the cursor, the work items and the committed batches belong together;
* `Inv`, `Inv.step`: the invariant. The cursor counts event numbers while `read_stream` counts stream
  versions, so on a stream other than `$all` it is kept by the steps that `Fits` describes.
-/

namespace Instructed.Routing

open Sql Relational Transition Numbering

variable (D : RoutingDefinition)

/-! ## The source -/

/-- The list that the subscription reads. -/
def RoutingDefinition.source (st : Store) : List RecordedEvent :=
  if D.stream = "$all" then st.log else onStream D.stream st.log

/-- The position of an event in the source. -/
def RoutingDefinition.position (e : RecordedEvent) : ℕ :=
  if D.stream = "$all" then e.eventNumber else e.streamVersion

/-- The work item that the event is routed to. -/
def RoutingDefinition.decision (e : RecordedEvent) : Option (String × ℕ) :=
  match D.routeFn e with
  | .partition p => some (p, e.eventNumber)
  | _ => none

section Source

variable {D} {st st' : Store}

theorem source_consecutive (hc : st.Consistent) : Consecutive D.position 1 (D.source st) := by
  unfold RoutingDefinition.source RoutingDefinition.position
  split_ifs
  · exact hc.log_numbered.eventNumber
  · exact hc.log_numbered.streamVersion D.stream

theorem source_sublist : (D.source st).Sublist st.log := by
  unfold RoutingDefinition.source
  split_ifs
  · exact List.Sublist.refl _
  · exact List.filter_sublist

theorem source_grow (h : st.log <+: st'.log) : D.source st <+: D.source st' := by
  unfold RoutingDefinition.source
  split_ifs
  · exact h
  · exact h.filter _

theorem source_eq (h : st'.log = st.log) : D.source st' = D.source st := by
  rw [RoutingDefinition.source, RoutingDefinition.source, h]

/-- The event numbers of a part of the source are distinct, and belong to the log. -/
theorem eventNumbers_of_sublist (hc : st.Consistent) {xs : List RecordedEvent}
    (h : xs.Sublist st.log) : (xs.map (·.eventNumber)).Nodup ∧
      ∀ e ∈ xs, 0 < e.eventNumber ∧ e.eventNumber ≤ st.log.length := by
  refine ⟨hc.log_numbered.eventNumber.nodup_pos.sublist (h.map _), fun e he => ?_⟩
  have hpos := hc.log_numbered.eventNumber.pos_mem (h.subset he)
  omega

/-- An event's number is at least its position in the source. -/
theorem position_le (hc : st.Consistent) {e : RecordedEvent} (he : e ∈ D.source st) :
    D.position e ≤ e.eventNumber := by
  have hsorted := hc.log_numbered.eventNumber.pairwise_lt.sublist (source_sublist (D := D))
  refine (source_consecutive hc).le_of_pairwise hsorted (fun x hx => ?_) e he
  exact (hc.log_numbered.eventNumber.pos_mem (source_sublist.subset hx)).1

/-- `readAll` and `readStream` return a segment of the source. -/
theorem read_ok (hc : st.Consistent) {lastSeen : ℕ} {o : RoutingWorkerOptions}
    {batch : List RecordedEvent} (h : D.read lastSeen o st = .ok batch) :
    ∃ qty, 0 < qty ∧ batch = ((D.source st).drop lastSeen).take qty := by
  have hpos : ¬ ((lastSeen + 1 : ℕ) : ℤ) < 0 := by omega
  unfold RoutingDefinition.read at h
  unfold RoutingDefinition.source
  split_ifs at h ⊢ with hall
  · by_cases hq : o.batchSize ≤ 0
    · simp only [readAll, if_neg hpos, if_pos hq] at h
      cases h
    · obtain ⟨qty, hqty⟩ := Int.eq_ofNat_of_zero_le (a := o.batchSize) (by omega)
      rw [hqty, readAll_eq hc (by omega)] at h
      exact ⟨qty, by omega, (Except.ok.inj h).symm⟩
  · by_cases hq : o.batchSize ≤ 0
    · simp only [readStream, if_neg hall, if_neg hpos, if_pos hq] at h
      cases h
    · obtain ⟨qty, hqty⟩ := Int.eq_ofNat_of_zero_le (a := o.batchSize) (by omega)
      rw [hqty, readStream_eq hc hall (by omega)] at h
      split_ifs at h
      · cases h
      · exact ⟨qty, by omega, (Except.ok.inj h).symm⟩

end Source

/-! ## Workers -/

/-- What a worker that claimed at `lastSeen` knows about its batch. -/
structure RoutedOk (source : List RecordedEvent) (inspected : List ℕ) (lastSeen : ℕ)
    (rest : List RecordedEvent) (r : Routed) : Prop where
  taken : Taken source lastSeen (r.seen ++ rest)
  decisions : r.decisions = r.seen.filterMap D.decision
  cursorTo : r.cursorTo = r.seen.getLast?.map (·.eventNumber)
  inspected : ∀ e ∈ r.seen, e.eventNumber ∈ inspected

def PhaseOk (source : List RecordedEvent) (inspected : List ℕ) : Phase → Prop
  | .route lastSeen rest r => RoutedOk D source inspected lastSeen rest r
  | .decide lastSeen e rest r =>
    RoutedOk D source inspected lastSeen (e :: rest) r ∧ e.eventNumber ∈ inspected
  | .commit lastSeen r cursorTo =>
    RoutedOk D source inspected lastSeen [] r ∧ r.cursorTo = some cursorTo
  | _ => True

section Phases

variable {D} {source source' : List RecordedEvent} {inspected inspected' : List ℕ} {lastSeen : ℕ}
  {rest : List RecordedEvent} {r : Routed} {e : RecordedEvent} {phase : Phase}

theorem RoutedOk.mono (h : RoutedOk D source inspected lastSeen rest r) (hs : source <+: source')
    (hi : inspected ⊆ inspected') : RoutedOk D source' inspected' lastSeen rest r :=
  ⟨h.taken.grow hs, h.decisions, h.cursorTo, fun e he => hi (h.inspected e he)⟩

theorem PhaseOk.mono (h : PhaseOk D source inspected phase) (hs : source <+: source')
    (hi : inspected ⊆ inspected') : PhaseOk D source' inspected' phase := by
  cases phase with
  | route _ _ _ => exact RoutedOk.mono h hs hi
  | decide _ _ _ _ => exact ⟨RoutedOk.mono h.1 hs hi, hi h.2⟩
  | commit _ _ _ => exact ⟨RoutedOk.mono h.1 hs hi, h.2⟩
  | _ => trivial

/-- One iteration of `routeOneBatch`. -/
theorem RoutedOk.advance (h : RoutedOk D source inspected lastSeen (e :: rest) r)
    (he : e.eventNumber ∈ inspected) :
    RoutedOk D source inspected lastSeen rest
      ⟨r.seen ++ [e], r.decisions ++ (D.decision e).toList, some e.eventNumber⟩ := by
  refine ⟨?_, ?_, ?_, ?_⟩
  · rw [List.append_assoc]
    exact h.taken
  · rw [h.decisions, List.filterMap_append]
    cases hd : D.decision e <;> simp [hd]
  · simp
  · intro x hx
    rcases List.mem_append.mp hx with hx | hx
    · exact h.inspected x hx
    · exact List.mem_singleton.mp hx ▸ he

end Phases

/-! ## The subscription -/

/-- The work items of the subscription `key` that were ever inserted, in order. -/
def insertedFor (key : ℕ × String) (events : List Queue.Event) : List (String × ℤ) :=
  events.filterMap fun
    | .inserted k => if k.1 = key then some k.2 else none
    | _ => none

/-- The work item of a decision. -/
def decisionItem (d : String × ℕ) : String × ℤ := (d.1, (d.2 : ℤ))

/-- The subscription `row` was created at the cursor `start`, and the batches `committed` were committed
    since. -/
structure Progress (st : Store) (events : List Queue.Event) (inspected : List ℕ) (start : ℕ)
    (committed : List RecordedEvent) (row : SubscriptionRow) : Prop where
  taken : Taken (D.source st) start committed
  le : start + committed.length ≤ row.lastSeen
  /-- The cursor is ahead of what was read only when there is nothing left to read. -/
  tail : start + committed.length < row.lastSeen →
    (D.source st).length ≤ start + committed.length
  all : D.stream = "$all" → row.lastSeen = start + committed.length
  inspected : ∀ e ∈ committed, e.eventNumber ∈ inspected
  items : ∀ item ∈ st.workItems.rows, item.subscription = row.pkey →
    ∃ e ∈ committed, item.eventNumber = e.eventNumber
  inserted : insertedFor row.pkey events = (committed.filterMap D.decision).map decisionItem

section Inv

variable {κ : Type}

structure Inv (w : World κ) : Prop where
  grounded : Queue.Grounded w.queue
  phases : ∀ id wk, w.workers id = some wk → PhaseOk D (D.source w.store) w.inspected wk.phase
  /-- The holder of the lease claimed at the cursor as it is. -/
  held : ∀ row, D.row w.store = some row → ∀ id wk lastSeen, w.workers id = some wk →
    row.claimedBy = some id → wk.phase.lastSeen? = some lastSeen → lastSeen = row.lastSeen
  fresh : D.row w.store = none → w.start = none ∧ w.committed = []
  progress : ∀ row, D.row w.store = some row → ∃ start, w.start = some start ∧
    Progress D w.store w.queue.events w.inspected start w.committed row

variable {D} {w : World κ}

theorem insertedFor_append (key : ℕ × String) (xs ys : List Queue.Event) :
    insertedFor key (xs ++ ys) = insertedFor key xs ++ insertedFor key ys :=
  List.filterMap_append ..

theorem mem_insertedFor {key : ℕ × String} {events : List Queue.Event} {item : String × ℤ} :
    item ∈ insertedFor key events ↔ .inserted (key, item) ∈ events := by
  rw [insertedFor, List.mem_filterMap]
  constructor
  · rintro ⟨e, he, heq⟩
    cases e with
    | inserted k =>
      dsimp only at heq
      split_ifs at heq with hk
      obtain rfl := Option.some.inj heq
      exact hk ▸ he
    | _ => cases heq
  · intro h
    exact ⟨_, h, if_pos rfl⟩

theorem insertedFor_eq_nil {key : ℕ × String} {es : List Queue.Event}
    (h : ∀ k, .inserted k ∈ es → k.1 ≠ key) : insertedFor key es = [] := by
  rw [insertedFor, List.filterMap_eq_nil_iff]
  intro e he
  cases e with
  | inserted k => exact if_neg (h k he)
  | _ => rfl

/-- The next state of one worker. -/
theorem Inv.setWorker (h : Inv D w) {id : String} {wk : Worker}
    (hphase : PhaseOk D (D.source w.store) w.inspected wk.phase)
    (hheld : ∀ row, D.row w.store = some row → ∀ lastSeen, row.claimedBy = some id →
      wk.phase.lastSeen? = some lastSeen → lastSeen = row.lastSeen) :
    Inv D (w.setWorker id (some wk)) := by
  refine ⟨h.grounded, fun i x hx => ?_, fun row hrow i x c hx hi hc => ?_, h.fresh, h.progress⟩
  · simp only [World.setWorker, Function.update_apply] at hx
    split_ifs at hx
    · cases hx
      exact hphase
    · exact h.phases i x hx
  · simp only [World.setWorker, Function.update_apply] at hx
    split_ifs at hx with hid
    · cases hx
      subst hid
      exact hheld row hrow c hi hc
    · exact h.held row hrow i x c hx hi hc

/-- A worker that drops its batch. -/
theorem Inv.drop (h : Inv D w) {id : String} {wk : Worker}
    (hphase : wk.phase = .claim ∨ wk.phase = .stopped ∨ ∃ next, wk.phase = .release next) :
    Inv D (w.setWorker id (some wk)) := by
  have hnone : wk.phase.lastSeen? = none ∧ PhaseOk D (D.source w.store) w.inspected wk.phase := by
    rcases hphase with hp | hp | ⟨next, hp⟩ <;> rw [hp] <;> exact ⟨rfl, trivial⟩
  refine h.setWorker hnone.2 fun row _ c _ hc => ?_
  rw [hnone.1] at hc
  cases hc

theorem Inv.removeWorker (h : Inv D w) (id : String) : Inv D (w.setWorker id none) := by
  refine ⟨h.grounded, fun i x hx => ?_, fun row hrow i x c hx hi hc => ?_, h.fresh, h.progress⟩
  · simp only [World.setWorker, Function.update_apply] at hx
    split_ifs at hx
    exact h.phases i x hx
  · simp only [World.setWorker, Function.update_apply] at hx
    split_ifs at hx
    exact h.held row hrow i x c hx hi hc

theorem Inv.inspect (h : Inv D w) (n : ℕ) : Inv D { w with inspected := w.inspected ++ [n] } := by
  have hsub : w.inspected ⊆ w.inspected ++ [n] := List.subset_append_left ..
  refine ⟨h.grounded, fun i x hx => (h.phases i x hx).mono (List.prefix_refl _) hsub, h.held, h.fresh,
    fun row hrow => ?_⟩
  obtain ⟨start, hstart, hp⟩ := h.progress row hrow
  exact ⟨start, hstart, hp.taken, hp.le, hp.tail, hp.all, fun e he => hsub (hp.inspected e he),
    hp.items, hp.inserted⟩

variable [DecidableEq κ]

/-- A call that leaves a row of the subscription behind. -/
theorem Inv.call (h : Inv D w) {c : Queue.Call} {st : Store} {es : List Queue.Event}
    (hrun : c.run w.store = .ok (st, es)) {start : Option ℕ} {committed : List RecordedEvent}
    {row : SubscriptionRow} (hrow : D.row st = some row)
    (hheld : ∀ id wk lastSeen, w.workers id = some wk → row.claimedBy = some id →
      wk.phase.lastSeen? = some lastSeen → lastSeen = row.lastSeen)
    (hprogress : ∃ s, start = some s ∧
      Progress D st (w.queue.events ++ es) w.inspected s committed row) :
    Inv D { w with queue := w.queue.commit (.ok (st, es)), start := start, committed := committed } := by
  have hstep : Queue.step w.queue (.call c) = some (w.queue.commit (.ok (st, es))) := by
    rw [Queue.step]
    exact congrArg (fun r => some (w.queue.commit r)) hrun
  have hsource : D.source st = D.source w.store := source_eq (Queue.Call.run_change hrun).2.log
  refine ⟨h.grounded.step hstep, fun i x hx => ?_, fun row' hrow' => ?_, fun hnone => ?_,
    fun row' hrow' => ?_⟩
  · show PhaseOk D (D.source st) w.inspected x.phase
    rw [hsource]
    exact h.phases i x hx
  · obtain rfl := Option.some.inj (hrow.symm.trans hrow')
    exact hheld
  · have habsurd := hrow.symm.trans hnone
    cases habsurd
  · obtain rfl := Option.some.inj (hrow.symm.trans hrow')
    exact hprogress

end Inv

/-! ## The calls, in terms of the subscription's row -/

section Calls

variable {D} {st st' : Store} {id : String} {row : SubscriptionRow}

theorem row_of_stream {u : StreamRow} (h : st.streamByUuid D.stream = some u) :
    D.row st = st.subscriptions.find? (u.streamId, D.name) :=
  Queue.subscription_of_find h

theorem row_putSubscription {u : StreamRow} (h : st.streamByUuid D.stream = some u)
    (hkey : row.pkey = (u.streamId, D.name)) : D.row (st.putSubscription row) = some row := by
  have hstream : (st.putSubscription row).streamByUuid D.stream = some u := h
  rw [row_of_stream hstream]
  exact (Table.find?_put ..).trans (if_pos hkey)

/-- The row after a successful claim. -/
structure ClaimedRow (D : RoutingDefinition) (st st' : Store) (id : String) (r : ClaimResult)
    (row : SubscriptionRow) : Prop where
  row_eq : D.row st' = some row
  claimedBy : row.claimedBy = some id
  result : r.result = .claimed ∧ r.lastSeen = row.lastSeen
  items : st'.workItems = st.workItems
  old : (D.row st = none ∧ st.subscriptions.find? row.pkey = none) ∨
    ∃ old, D.row st = some old ∧ row.pkey = old.pkey ∧ row.lastSeen = old.lastSeen

theorem claim_row {now : Timestamp} {lease : Option ℤ} {options : Option Json} {r : ClaimResult}
    (h : claimSubscription now (some D.stream) (some D.name) (some id) lease options st =
      .ok (r, st')) :
    (st' = st ∧ r.result = .alreadyClaimed ∧ ∃ row, D.row st = some row) ∨
      ∃ row, ClaimedRow D st st' id r row := by
  obtain ⟨_, _, _, secs, stream, hu, hname, hid, hstream, hclaim⟩ := claimSubscription_ok h
  cases hu
  cases hname
  cases hid
  have hrow := row_of_stream (D := D) hstream
  cases hclaim with
  | alreadyClaimed hfind => exact Or.inl ⟨rfl, rfl, _, hrow.trans hfind⟩
  | created hnone _ =>
    right
    exact ⟨_, row_putSubscription hstream rfl, rfl, ⟨rfl, rfl⟩, rfl, Or.inl ⟨hrow.trans hnone, hnone⟩⟩
  | @taken old hfind _ =>
    have hkey : old.pkey = (stream.streamId, D.name) := Table.key_of_find? hfind
    right
    refine ⟨_, row_putSubscription hstream hkey, rfl, ⟨rfl, rfl⟩, rfl, ?_⟩
    exact Or.inr ⟨old, hrow.trans hfind, rfl, rfl⟩

theorem release_row (h : releaseSubscription (some D.stream) (some D.name) (some id) st = .ok st') :
    ∃ row, D.row st = some row ∧ row.claimedBy = some id ∧
      D.row st' = some { row with claimedBy := none, claimExpiresAt := none } ∧
      st'.workItems = st.workItems := by
  obtain ⟨_, _, _, stream, row, hu, hname, hid, hstream, hfind, hholder, rfl⟩ :=
    releaseSubscription_ok h
  cases hu
  cases hname
  cases hid
  have hkey : row.pkey = (stream.streamId, D.name) := Table.key_of_find? hfind
  exact ⟨row, (row_of_stream hstream).trans hfind, hholder, row_putSubscription hstream hkey, rfl⟩

/-- The work item of a decision, in the subscription `key`. -/
def itemRow (key : ℕ × String) (d : String × ℕ) : WorkItemRow :=
  ⟨key.1, key.2, d.1, (d.2 : ℤ), .pending, none, none, none, none⟩

theorem itemRow_pkey (key : ℕ × String) (d : String × ℕ) :
    (itemRow key d).pkey = (key, decisionItem d) := rfl

/-- The decisions become work items, if their event numbers are exact. -/
theorem mapM_decisionRow {number : JsNumber} {decisions : List (String × ℕ)} {key : ℕ × String}
    {ds : List Json} {items : List WorkItemRow} (hn : ∀ d ∈ decisions, d.2 < 2 ^ 53)
    (hds : decisionsOf (some (decisionsPayload number decisions)) = .ok ds)
    (hitems : ds.mapM (decisionRow key.1 key.2) = .ok items) :
    items = decisions.map (itemRow key) := by
  have hpayload : ds = decisions.map fun d =>
      .obj [("partition_key", .str d.1), ("event_number", .int (number.ofBigint d.2))] := by
    simp only [decisionsOf, decisionsPayload] at hds
    split_ifs at hds
    · cases hds
    · exact (Except.ok.inj hds).symm
  subst hpayload
  clear hds
  induction decisions generalizing items with
  | nil =>
    cases hitems
    rfl
  | cons d decisions ih =>
    obtain ⟨hd, hn⟩ := List.forall_mem_cons.mp hn
    have hbig : inBigint (d.2 : ℤ) = true := by
      rw [inBigint, decide_eq_true_iff]
      omega
    have hrow : decisionRow key.1 key.2 (.obj [("partition_key", .str d.1),
        ("event_number", .int (number.ofBigint d.2))]) = .ok (itemRow key d) := by
      simp [decisionRow, Json.getText?, Json.get?, Json.int, bigintOfNumeric, number.exact _ hd, hbig,
        itemRow, pure, Except.pure]
    rw [List.map_cons, List.mapM_cons, hrow, ok_bind] at hitems
    obtain ⟨rest, hrest, hitems⟩ := bind_eq_ok.mp hitems
    cases hitems
    rw [ih hn hrest, List.map_cons]

/-- The row after a successful batch. -/
structure RoutedRow (D : RoutingDefinition) (st st' : Store) (id : String)
    (decisions : List (String × ℕ)) (cursorTo : ℕ) (row : SubscriptionRow) : Prop where
  old : D.row st = some row
  claimedBy : row.claimedBy = some id
  row_eq : D.row st' = some { row with lastSeen := max row.lastSeen cursorTo }
  store : st' = (st.insertItems (decisions.map (itemRow row.pkey))).putSubscription
    { row with lastSeen := max row.lastSeen cursorTo }

theorem route_row {number : JsNumber} {decisions : List (String × ℕ)} {cursorTo : ℕ} {res : ℕ × ℕ}
    (hn : ∀ d ∈ decisions, d.2 < 2 ^ 53)
    (h : routeBatch (some D.stream) (some D.name) (some id) (some cursorTo)
      (some (decisionsPayload number decisions)) st = .ok (res, st')) :
    ∃ row, RoutedRow D st st' id decisions cursorTo row := by
  obtain ⟨_, _, _, cursor, ds, stream, row, items, hu, hname, hid, hcursor, hds, hstream, hfind,
    hholder, hitems, -, hst⟩ := routeBatch_ok h
  cases hu
  cases hname
  cases hid
  have hkey := Table.key_of_find? hfind
  obtain rfl : cursorTo = cursor := Int.ofNat.inj (Option.some.inj hcursor)
  have heq : items = decisions.map (itemRow row.pkey) := by
    rw [hkey]
    exact mapM_decisionRow hn hds hitems
  subst heq
  refine ⟨row, (row_of_stream hstream).trans hfind, hholder, ?_, hst⟩
  rw [hst]
  have hstream' : (st.insertItems (decisions.map (itemRow row.pkey))).streamByUuid D.stream =
      some stream := hstream
  exact row_putSubscription hstream' hkey

end Calls

/-! ## Steps -/

section Steps

variable {κ : Type} {D} {number : JsNumber} {w w' : World κ} {op : Op κ}

/-- The row changes hands. -/
theorem Progress.handed {st st' : Store} {events : List Queue.Event} {inspected : List ℕ} {start : ℕ}
    {committed : List RecordedEvent} {row row' : SubscriptionRow}
    (h : Progress D st events inspected start committed row) (hsource : D.source st' = D.source st)
    (hitems : st'.workItems = st.workItems) (hkey : row'.pkey = row.pkey)
    (hseen : row'.lastSeen = row.lastSeen) :
    Progress D st' (events ++ []) inspected start committed row' := by
  refine ⟨hsource ▸ h.taken, hseen ▸ h.le, fun hlt => ?_, hseen ▸ h.all, h.inspected, ?_, ?_⟩
  · rw [hsource]
    exact h.tail (hseen ▸ hlt)
  · rw [hitems, hkey]
    exact h.items
  · rw [List.append_nil, hkey]
    exact h.inserted

/-- A subscription that was just created. -/
theorem Progress.created {st st' : Store} {events : List Queue.Event} {inspected : List ℕ}
    {row : SubscriptionRow} (htracked : Queue.Tracked st events)
    (hnone : st.subscriptions.find? row.pkey = none) (hitems : st'.workItems = st.workItems) :
    Progress D st' (events ++ []) inspected row.lastSeen [] row := by
  refine ⟨.nil, le_rfl, fun hlt => absurd hlt (lt_irrefl _), fun _ => rfl, ?_, ?_, ?_⟩
  · exact fun _ he => nomatch he
  · intro item hitem hkey
    have howned := htracked.owned item (hitems ▸ hitem)
    rw [hkey, hnone] at howned
    cases howned
  · rw [List.append_nil]
    refine insertedFor_eq_nil fun k hk heq => ?_
    have hkeyed := htracked.keyed _ hk
    rw [show (Queue.Event.inserted k).key.1 = row.pkey from heq, hnone] at hkeyed
    cases hkeyed

/-- The cursor that the subscription was created with is kept. -/
theorem Inv.start_or (h : Inv D w) :
    w.start.or ((D.row w.store).map SubscriptionRow.lastSeen) = w.start := by
  cases hrow : D.row w.store with
  | none => rw [Option.map_none, Option.or_none]
  | some row =>
    obtain ⟨start, hstart, -⟩ := h.progress row hrow
    rw [hstart, Option.some_or]

/-! ### A worker on its own -/

section Local

variable {id : String} {wk : Worker} {d : Delivery} {lastSeen : ℕ} {rest : List RecordedEvent}
  {r : Routed}

theorem Inv.read (h : Inv D w) (hwk : w.workers id = some wk)
    (hphase : wk.phase = .read lastSeen) : Inv D (w.read D id wk lastSeen d) := by
  unfold World.read
  split_ifs
  · exact h.drop (Or.inr (Or.inr ⟨_, rfl⟩))
  · split
    · exact h.drop (Or.inr (Or.inr ⟨_, rfl⟩))
    · exact h.drop (Or.inr (Or.inr ⟨_, rfl⟩))
    · rename_i e batch hreply
      obtain ⟨-, hread⟩ := Delivery.reply_ok hreply
      obtain ⟨qty, -, hbatch⟩ := read_ok h.grounded.consistent.store hread
      refine h.setWorker ⟨?_, rfl, rfl, fun _ he => nomatch he⟩ fun row hrow c hi hc => ?_
      · show Taken (D.source w.store) lastSeen ([] ++ e :: batch)
        rw [List.nil_append, hbatch]
        exact .page ..
      · exact h.held row hrow id wk c hwk hi (hphase ▸ hc)

theorem Inv.route (h : Inv D w) (hwk : w.workers id = some wk)
    (hphase : wk.phase = .route lastSeen rest r) :
    Inv D (w.route id wk lastSeen rest r) := by
  have hok : RoutedOk D (D.source w.store) w.inspected lastSeen rest r := by
    have hp := h.phases id wk hwk
    rwa [hphase] at hp
  have hheld : ∀ row, D.row w.store = some row → ∀ c, row.claimedBy = some id →
      some lastSeen = some c → c = row.lastSeen := fun row hrow c hi hc =>
    h.held row hrow id wk c hwk hi (hphase ▸ hc)
  unfold World.route
  split
  · split
    · exact h.drop (Or.inr (Or.inr ⟨_, rfl⟩))
    · rename_i n hn
      exact h.setWorker ⟨hok, hn⟩ hheld
  · rename_i e rest
    split_ifs
    · exact h.drop (Or.inr (Or.inr ⟨_, rfl⟩))
    · have hmem : e.eventNumber ∈ w.inspected ++ [e.eventNumber] :=
        List.mem_append_right _ (List.mem_singleton.mpr rfl)
      exact (h.inspect e.eventNumber).setWorker
        ⟨hok.mono (List.prefix_refl _) (List.subset_append_left ..), hmem⟩ hheld

theorem Inv.decide (h : Inv D w) {e : RecordedEvent} (hwk : w.workers id = some wk) (hphase : wk.phase = .decide lastSeen e rest r) :
    Inv D (w.decide D id wk lastSeen e rest r) := by
  have hok : RoutedOk D (D.source w.store) w.inspected lastSeen (e :: rest) r ∧
      e.eventNumber ∈ w.inspected := by
    have hp := h.phases id wk hwk
    rwa [hphase] at hp
  have hnext := hok.1.advance hok.2
  have hgo : ∀ decisions, decisions = r.decisions ++ (D.decision e).toList →
      Inv D (w.setWorker id (some { wk with
        phase := .route lastSeen rest ⟨r.seen ++ [e], decisions, some e.eventNumber⟩ })) := by
    rintro _ rfl
    exact h.setWorker hnext fun row hrow c hi hc => h.held row hrow id wk c hwk hi (hphase ▸ hc)
  have hdrop : ∀ aborted, Inv D (w.setWorker id
      (some { wk with phase := .release .stop, aborted := aborted })) := fun _ =>
    h.drop (Or.inr (Or.inr ⟨_, rfl⟩))
  unfold World.decide
  cases hroute : D.routeFn e with
  | threw => exact hdrop true
  | malformed => exact hdrop _
  | ignore =>
    dsimp only
    split_ifs
    · exact hdrop _
    · apply hgo
      simp [RoutingDefinition.decision, hroute]
  | partition p =>
    dsimp only
    split_ifs
    · exact hdrop _
    · apply hgo
      simp [RoutingDefinition.decision, hroute]

end Local

variable [DecidableEq κ]

/-- The batch that the worker `id` commits, while it holds the lease, ends at the stream's last event or
    at an event whose number is its version. -/
def FitsCommit (D : RoutingDefinition) (w : World κ) (id : String) (d : Delivery) : Phase → Prop
  | .commit _ r _ => d.arrives = true →
    (∃ row, D.row w.store = some row ∧ row.claimedBy = some id) →
      ∀ last, r.seen.getLast? = some last →
        (D.source w.store).length ≤ last.streamVersion ∨ last.eventNumber ≤ last.streamVersion
  | _ => True

/-- On a stream other than `$all`, the cursor keeps to the stream: an append to the stream finds the
    cursor not above the stream's version, and batches end as `FitsCommit` says. -/
def Fits (D : RoutingDefinition) (w : World κ) : Op κ → Prop
  | .queue (.append now a) => a.streamUuid = some D.stream →
    (w.queue.db.append now a).1.isOk = true →
      ∀ row, D.row w.store = some row → row.lastSeen ≤ (D.source w.store).length
  | .advance id _ d => ∀ wk, w.workers id = some wk → FitsCommit D w id d wk.phase
  | _ => True

/-- What other operations do to the source: it stays, or the cursor is at its end. -/
theorem queue_source (hg : Queue.Grounded w.queue) {op : Queue.Op κ} {queue : Queue.World κ}
    (hC : D.stream = "$all" ∨ Fits D w (.queue op)) (hstep : Queue.step w.queue op = some queue)
    (hall : D.stream ≠ "$all") : D.source queue.db.store = D.source w.store ∨
      ∀ row, D.row w.store = some row → row.lastSeen ≤ (D.source w.store).length := by
  rcases Queue.step_db hstep with ⟨now, a, rfl, rfl⟩ | ⟨-, hsame⟩
  · have hfits := hC.resolve_left hall
    rcases hg.consistent.append_cases now a with ⟨new, hnew, hok, hlog⟩ | ⟨_, -, hlog⟩
    · by_cases hu : a.streamUuid = some D.stream
      · exact Or.inr (hfits hu (by rw [hok]; rfl))
      · left
        obtain ⟨r, es, hr, -, -, -, rfl⟩ := appendCall_ok hnew
        have hne : r.streamUuid ≠ D.stream := by
          intro heq
          exact hu (heq ▸ (validateAppend_ok hr).1)
        have hnil : onStream D.stream (recordBatch w.queue.db.store.log r.streamUuid es) = [] := by
          rw [onStream, List.filter_eq_nil_iff]
          intro e he
          simpa [recordBatch_streamUuid he] using hne
        show D.source (w.queue.db.append now a).2.store = _
        rw [RoutingDefinition.source, RoutingDefinition.source, if_neg hall, if_neg hall, hlog,
          onStream_append, World.store, hnil, List.append_nil]
    · exact Or.inl (source_eq hlog)
  · exact Or.inl (source_eq hsame.log)

theorem Inv.queue (h : Inv D w) {op : Queue.Op κ} {queue : Queue.World κ}
    (hC : D.stream = "$all" ∨ Fits D w (.queue op)) (htargets : D.targets w.store op = false)
    (hstep : Queue.step w.queue op = some queue) : Inv D { w with queue := queue } := by
  have htarget : ∀ key, Queue.subscriptionKey w.store D.stream D.name = some key →
      op.target w.store ≠ some key := by
    intro key hkey
    rw [RoutingDefinition.targets, hkey] at htargets
    simpa using htargets
  have hrow : D.row queue.db.store = D.row w.store := h.grounded.subscription_frame hstep htarget
  have hgrow : D.source w.store <+: D.source queue.db.store :=
    source_grow (Queue.step_log h.grounded.consistent hstep)
  refine ⟨h.grounded.step hstep, fun i x hx => ?_, fun row hr => ?_, fun hnone => ?_, fun row hr => ?_⟩
  · exact (h.phases i x hx).mono hgrow (List.Subset.refl _)
  · exact h.held row (hrow ▸ hr)
  · exact h.fresh (hrow ▸ hnone)
  · have hold : D.row w.store = some row := hrow ▸ hr
    obtain ⟨start, hstart, hp⟩ := h.progress row hold
    have hframe := Queue.step_frame hstep (htarget _ (Queue.subscriptionKey_of_subscription hold))
    refine ⟨start, hstart, hp.taken.grow hgrow, hp.le, fun hlt => ?_, hp.all, hp.inspected, ?_, ?_⟩
    · show (D.source queue.db.store).length ≤ start + w.committed.length
      change start + w.committed.length < row.lastSeen at hlt
      by_cases hall : D.stream = "$all"
      · have heq := hp.all hall
        omega
      · have htail := hp.tail hlt
        rcases queue_source h.grounded hC hstep hall with hsame | hle
        · exact hsame ▸ htail
        · have hle' := hle row hold
          omega
    · intro item hitem hkey
      obtain ⟨old, hmem, hpkey⟩ := hframe.items item hitem hkey
      have heq : old.subscription = item.subscription ∧ old.eventNumber = item.eventNumber := by
        simp only [WorkItemRow.pkey, Prod.mk.injEq] at hpkey
        obtain ⟨⟨h1, h2⟩, -, h3⟩ := hpkey
        exact ⟨by simp [WorkItemRow.subscription, h1, h2], h3⟩
      exact heq.2 ▸ hp.items old hmem (heq.1.trans hkey)
    · obtain ⟨es, hes, hnone⟩ := hframe.events
      show insertedFor row.pkey queue.events = _
      rw [hes, insertedFor_append, insertedFor_eq_nil hnone, List.append_nil]
      exact hp.inserted

/-- The call of `claim_subscription`, by a worker without a batch. -/
theorem Inv.claimCall (h : Inv D w) {id : String} (o : RoutingWorkerOptions) (now : Timestamp)
    (d : Delivery) (hfree : ∀ wk, w.workers id = some wk → wk.phase.lastSeen? = none) :
    Inv D { w.call d (D.claimCall id o now) with
      start := w.start.or ((D.row (w.call d (D.claimCall id o now)).store).map
        SubscriptionRow.lastSeen) } := by
  have hkept (heq : w.call d (D.claimCall id o now) = w) : Inv D { w.call d (D.claimCall id o now) with
      start := w.start.or ((D.row (w.call d (D.claimCall id o now)).store).map
        SubscriptionRow.lastSeen) } := by
    rw [heq, h.start_or]
    exact h
  cases harrives : d.arrives with
  | false => exact hkept (World.call_of_lost harrives)
  | true =>
    cases hrun : (D.claimCall id o now).run w.store with
    | error e => exact hkept (World.call_of_error hrun)
    | ok res =>
      obtain ⟨⟨r, st⟩, hclaim, heq⟩ := map_eq_ok.mp hrun
      cases heq
      rw [World.call_of_ok harrives hrun]
      have hsource : D.source st = D.source w.store := source_eq (Queue.Call.run_change hrun).2.log
      rcases claim_row hclaim with ⟨rfl, -, row, hrow⟩ | ⟨row, hc⟩
      · refine h.call hrun hrow (fun i x c hx hi hl => h.held row hrow i x c hx hi hl) ?_
        obtain ⟨start, hstart, hp⟩ := h.progress row hrow
        exact ⟨start, by rw [hstart, Option.some_or], hp.handed rfl rfl rfl rfl⟩
      · refine h.call hrun hc.row_eq (fun i x c hx hi hl => ?_) ?_
        · obtain rfl : id = i := Option.some.inj (hc.claimedBy.symm.trans hi)
          rw [hfree x hx] at hl
          cases hl
        · show ∃ s, w.start.or ((D.row st).map SubscriptionRow.lastSeen) = some s ∧ _
          rw [hc.row_eq]
          rcases hc.old with ⟨hnone, hfind⟩ | ⟨old, hold, hkey, hseen⟩
          · obtain ⟨hstart, hcommitted⟩ := h.fresh hnone
            rw [hstart, hcommitted]
            exact ⟨row.lastSeen, rfl, .created h.grounded.history.tracked hfind hc.items⟩
          · obtain ⟨start, hstart, hp⟩ := h.progress old hold
            exact ⟨start, by rw [hstart, Option.some_or], hp.handed hsource hc.items hkey hseen⟩

/-- The call of `release_subscription`. -/
theorem Inv.releaseCall (h : Inv D w) (id : String) (d : Delivery) :
    Inv D (w.call d (D.releaseCall id)) := by
  cases harrives : d.arrives with
  | false => exact (World.call_of_lost harrives).symm ▸ h
  | true =>
    cases hrun : (D.releaseCall id).run w.store with
    | error e => exact (World.call_of_error hrun).symm ▸ h
    | ok res =>
      obtain ⟨st, hrelease, heq⟩ := map_eq_ok.mp hrun
      cases heq
      rw [World.call_of_ok harrives hrun]
      obtain ⟨row, hrow, -, hrow', hitems⟩ := release_row hrelease
      refine h.call hrun hrow' (fun _ _ _ _ hi _ => nomatch hi) ?_
      obtain ⟨start, hstart, hp⟩ := h.progress row hrow
      exact ⟨start, hstart, hp.handed (source_eq (Queue.Call.run_change hrun).2.log) hitems rfl rfl⟩

/-! ### Batches -/

/-- Where a batch that is ready to be committed ends. -/
theorem RoutedOk.last {st : Store} (hc : st.Consistent) {inspected : List ℕ} {lastSeen cursorTo : ℕ}
    {r : Routed} (h : RoutedOk D (D.source st) inspected lastSeen [] r)
    (hcursor : r.cursorTo = some cursorTo) :
    Taken (D.source st) lastSeen r.seen ∧ r.seen ≠ [] ∧ ∃ last, r.seen.getLast? = some last ∧
      last.eventNumber = cursorTo ∧ D.position last = lastSeen + r.seen.length ∧
      D.position last ≤ cursorTo := by
  have htaken : Taken (D.source st) lastSeen r.seen := by
    have happ := h.taken
    rwa [List.append_nil] at happ
  obtain ⟨last, hlast, rfl⟩ := Option.map_eq_some_iff.mp (h.cursorTo.symm.trans hcursor)
  have hmem := List.mem_of_getLast? hlast
  have hne : r.seen ≠ [] := List.ne_nil_of_mem hmem
  have hpos := htaken.getLast?_pos (source_consecutive hc) hne
  rw [hlast] at hpos
  exact ⟨htaken, hne, last, hlast, rfl, Option.some.inj hpos, position_le hc (htaken.sublist.subset hmem)⟩

theorem decision_number {e : RecordedEvent} {d : String × ℕ} (h : D.decision e = some d) :
    d.2 = e.eventNumber := by
  unfold RoutingDefinition.decision at h
  split at h
  · cases h
    rfl
  · cases h

/-- Distinct decisions are distinct work items. -/
theorem itemRow_nodup {seen : List RecordedEvent} (key : ℕ × String)
    (h : (seen.map (·.eventNumber)).Nodup) :
    (((seen.filterMap D.decision).map (itemRow key)).map WorkItemRow.pkey).Nodup := by
  have hsub : ((seen.filterMap D.decision).map (·.2)).Sublist (seen.map (·.eventNumber)) := by
    induction seen with
    | nil => exact List.Sublist.refl _
    | cons e seen ih =>
      have hih := ih (List.nodup_cons.mp h).2
      cases hd : D.decision e with
      | none =>
        rw [List.filterMap_cons_none hd]
        exact hih.cons _
      | some d =>
        rw [List.filterMap_cons_some hd, List.map_cons, List.map_cons, decision_number hd]
        exact hih.cons_cons _
  have hnodup := hsub.nodup h
  rw [List.map_map]
  refine List.Nodup.of_map (fun key => key.2.2) ?_
  rw [List.map_map]
  have hmap := hnodup.map (f := Int.ofNat) fun _ _ => Int.ofNat.inj
  rwa [List.map_map] at hmap

/-- **A batch is committed.** It continues the batches before it, and all of its work items are new. -/
theorem Progress.batch {st : Store} {events : List Queue.Event} {inspected : List ℕ}
    {start cursorTo : ℕ} {committed : List RecordedEvent} {row : SubscriptionRow} {r : Routed}
    (h : Progress D st events inspected start committed row) (hc : st.Consistent)
    (hok : RoutedOk D (D.source st) inspected row.lastSeen [] r) (hcursor : r.cursorTo = some cursorTo)
    (hfits : D.stream = "$all" ∨ ∀ last, r.seen.getLast? = some last →
      (D.source st).length ≤ last.streamVersion ∨ last.eventNumber ≤ last.streamVersion) :
    Progress D ((st.insertItems (r.decisions.map (itemRow row.pkey))).putSubscription
        { row with lastSeen := max row.lastSeen cursorTo })
      (events ++ (Queue.insertedKeys st (st.insertItems (r.decisions.map (itemRow row.pkey)))).map .inserted)
      inspected start (committed ++ r.seen) { row with lastSeen := max row.lastSeen cursorTo } := by
  obtain ⟨htaken, hne, last, hlast, hnumber, hpos, hle⟩ := hok.last hc hcursor
  have hlen := htaken.length_le hne
  have hseen : start + committed.length = row.lastSeen := by
    have hstart := h.le
    by_contra hlt
    have htail := h.tail (by omega)
    have hpos : 0 < r.seen.length := List.length_pos_iff.mpr hne
    omega
  have hall : Taken (D.source st) start (committed ++ r.seen) := h.taken.append (hseen ▸ htaken)
  have hnodup := (eventNumbers_of_sublist hc (hall.sublist.trans source_sublist)).1
  rw [List.map_append, List.nodup_append] at hnodup
  obtain ⟨-, hseenNodup, hdisjoint⟩ := hnodup
  have hrows : (st.insertItems (r.decisions.map (itemRow row.pkey))).workItems.rows =
      st.workItems.rows ++ r.decisions.map (itemRow row.pkey) := by
    apply Table.insertAllNew_rows_of_new
    · rw [hok.decisions]
      exact itemRow_nodup row.pkey hseenNodup
    · intro item hitem
      obtain ⟨d, hd, rfl⟩ := List.mem_map.mp hitem
      rw [hok.decisions] at hd
      obtain ⟨e, he, hde⟩ := List.mem_filterMap.mp hd
      rw [Table.find?_eq_none_iff]
      intro x hx hkey
      obtain ⟨hsub, -, hn⟩ : x.subscription = row.pkey ∧ x.partitionKey = d.1 ∧
          x.eventNumber = (d.2 : ℤ) := by
        rw [itemRow_pkey] at hkey
        exact ⟨congrArg Prod.fst hkey, congrArg (fun k => k.2.1) hkey, congrArg (fun k => k.2.2) hkey⟩
      obtain ⟨e', he', hne'⟩ := h.items x hx hsub
      rw [hn, decision_number hde] at hne'
      exact hdisjoint _ (List.mem_map_of_mem he') _ (List.mem_map_of_mem he) (by exact_mod_cast hne'.symm)
  have hkeys : Queue.insertedKeys st (st.insertItems (r.decisions.map (itemRow row.pkey))) =
      (r.seen.filterMap D.decision).map fun d => (row.pkey, decisionItem d) := by
    rw [Queue.insertedKeys, hrows, List.drop_left, List.map_map, hok.decisions]
    rfl
  refine ⟨hall, ?_, fun hlt => ?_, fun heq => ?_, ?_, ?_, ?_⟩
  · show start + (committed ++ r.seen).length ≤ max row.lastSeen cursorTo
    rw [List.length_append]
    omega
  · show (D.source st).length ≤ start + (committed ++ r.seen).length
    change start + (committed ++ r.seen).length < max row.lastSeen cursorTo at hlt
    rw [List.length_append] at hlt ⊢
    rcases hfits with heq | hfits
    · rw [RoutingDefinition.position, if_pos heq] at hpos
      omega
    · by_cases heq : D.stream = "$all"
      · rw [RoutingDefinition.position, if_pos heq] at hpos
        omega
      · rw [RoutingDefinition.position, if_neg heq] at hpos
        have hlast := hfits last hlast
        omega
  · rw [RoutingDefinition.position, if_pos heq] at hpos
    show max row.lastSeen cursorTo = start + (committed ++ r.seen).length
    rw [List.length_append]
    omega
  · intro e he
    exact (List.mem_append.mp he).elim (h.inspected e) (hok.inspected e)
  · intro item hitem hkey
    change item ∈ (st.insertItems _).workItems.rows at hitem
    rw [hrows] at hitem
    rcases List.mem_append.mp hitem with hitem | hitem
    · obtain ⟨e, he, hn⟩ := h.items item hitem hkey
      exact ⟨e, List.mem_append_left _ he, hn⟩
    · obtain ⟨d, hd, rfl⟩ := List.mem_map.mp hitem
      rw [hok.decisions] at hd
      obtain ⟨e, he, hde⟩ := List.mem_filterMap.mp hd
      exact ⟨e, List.mem_append_right _ he, congrArg Nat.cast (decision_number hde)⟩
  · show insertedFor row.pkey _ = _
    rw [insertedFor_append, h.inserted, hkeys, List.filterMap_append, List.map_append]
    congr 1
    rw [insertedFor, List.map_map, List.filterMap_map]
    generalize r.seen.filterMap D.decision = decisions
    induction decisions with
    | nil => rfl
    | cons d decisions ih =>
      rw [List.filterMap_cons_some (by simp; rfl), List.map_cons, ih]

/-- The call of `route_batch`, with a batch that was read at `lastSeen`. The worker is done with the
    batch. -/
theorem Inv.routeCall (h : Inv D w) {id : String} {lastSeen cursorTo : ℕ} {r : Routed} {d : Delivery}
    {wk : Worker} (hbound : w.store.log.length < 2 ^ 53)
    (hphase : wk.phase = .claim ∨ wk.phase = .stopped ∨ ∃ next, wk.phase = .release next)
    (hheld : ∀ row, D.row w.store = some row → row.claimedBy = some id → lastSeen = row.lastSeen)
    (hok : RoutedOk D (D.source w.store) w.inspected lastSeen [] r)
    (hcursor : r.cursorTo = some cursorTo)
    (hfits : D.stream = "$all" ∨ (d.arrives = true →
      (∃ row, D.row w.store = some row ∧ row.claimedBy = some id) →
        ∀ last, r.seen.getLast? = some last →
          (D.source w.store).length ≤ last.streamVersion ∨ last.eventNumber ≤ last.streamVersion)) :
    Inv D ((if d.arrives && (routeBatch (some D.stream) (some D.name) (some id) (some cursorTo)
        (some (decisionsPayload number r.decisions)) w.store).isOk
      then { w.call d (D.routeCall number id r cursorTo) with committed := w.committed ++ r.seen }
      else w.call d (D.routeCall number id r cursorTo)).setWorker id (some wk)) := by
  have hdrop : Inv D (w.setWorker id (some wk)) := h.drop hphase
  cases harrives : d.arrives with
  | false => exact (World.call_of_lost harrives).symm ▸ hdrop
  | true =>
    cases hroute : routeBatch (some D.stream) (some D.name) (some id) (some cursorTo)
        (some (decisionsPayload number r.decisions)) w.store with
    | error e =>
      have hrun : (D.routeCall number id r cursorTo).run w.store = .error e := by
        rw [RoutingDefinition.routeCall, Queue.Call.run, hroute]
        rfl
      exact (World.call_of_error hrun).symm ▸ hdrop
    | ok res =>
      obtain ⟨res, st⟩ := res
      have hrun : (D.routeCall number id r cursorTo).run w.store =
          .ok (st, (Queue.insertedKeys w.store st).map .inserted) := by
        rw [RoutingDefinition.routeCall, Queue.Call.run, hroute]
        rfl
      rw [World.call_of_ok harrives hrun]
      have hc := h.grounded.consistent.store
      have hseen := (hok.last hc hcursor).1
      have hexact : ∀ x ∈ r.decisions, x.2 < 2 ^ 53 := by
        intro x hx
        rw [hok.decisions] at hx
        obtain ⟨e, he, hde⟩ := List.mem_filterMap.mp hx
        have hle := (eventNumbers_of_sublist hc (hseen.sublist.trans source_sublist)).2 e he
        rw [decision_number hde]
        exact lt_of_le_of_lt hle.2 hbound
      obtain ⟨row, hrow⟩ := route_row hexact hroute
      obtain rfl := hheld row hrow.old hrow.claimedBy
      refine hdrop.call hrun hrow.row_eq (fun i x c hx hi hl => ?_) ?_
      · obtain rfl : id = i := Option.some.inj (hrow.claimedBy.symm.trans hi)
        simp only [World.setWorker, Function.update_self] at hx
        obtain rfl := Option.some.inj hx
        rcases hphase with hp | hp | ⟨next, hp⟩ <;> rw [hp] at hl <;> cases hl
      · obtain ⟨start, hstart, hp⟩ := h.progress row hrow.old
        have hfits' := hfits.imp_right fun hf => hf harrives ⟨row, hrow.old, hrow.claimedBy⟩
        have hstore := hrow.store
        refine ⟨start, hstart, ?_⟩
        subst hstore
        exact hp.batch hc hok hcursor hfits'

/-! ### The invariant -/

section Advance

variable {id : String} {wk : Worker} {now : Timestamp} {d : Delivery}

theorem Inv.claim (h : Inv D w) (hwk : w.workers id = some wk) (hphase : wk.phase = .claim) :
    Inv D (w.claim D id wk now d) := by
  have hfree : ∀ x, w.workers id = some x → x.phase.lastSeen? = none := by
    intro x hx
    rw [← Option.some.inj (hwk.symm.trans hx), hphase]
    rfl
  unfold World.claim
  split_ifs
  · exact h.drop (Or.inr (Or.inr ⟨_, rfl⟩))
  · have hcall := h.claimCall wk.opts now d hfree
    dsimp only
    cases hreply : d.reply (claimSubscription now (some D.stream) (some D.name) (some id)
        (some wk.opts.leaseSeconds) (some wk.opts.claimOptions) w.store) with
    | error f => exact hcall.drop (Or.inr (Or.inr ⟨_, rfl⟩))
    | ok res =>
      obtain ⟨r, st⟩ := res
      obtain ⟨rfl, hclaim⟩ := Delivery.reply_ok hreply
      dsimp only
      split
      · rename_i hresult
        refine hcall.setWorker trivial fun row hrow c _ hc => ?_
        obtain rfl := Option.some.inj hc
        rcases claim_row hclaim with ⟨-, hother, -⟩ | ⟨row', hrow'⟩
        · exact nomatch hresult.symm.trans hother
        · have hrun : (D.claimCall id wk.opts now).run w.store = .ok (st, []) := by
            rw [RoutingDefinition.claimCall, Queue.Call.run, hclaim]
            rfl
          rw [World.call_of_ok rfl hrun] at hrow
          rw [Option.some.inj (hrow.symm.trans hrow'.row_eq)]
          exact hrow'.result.2
      · exact hcall.drop (Or.inl rfl)

theorem Inv.commit (h : Inv D w) {lastSeen cursorTo : ℕ} {r : Routed}
    (hbound : w.store.log.length < 2 ^ 53) (hC : D.stream = "$all" ∨ Fits D w (.advance id now d))
    (hwk : w.workers id = some wk) (hphase : wk.phase = .commit lastSeen r cursorTo) :
    Inv D (w.commit D number id wk r cursorTo d) := by
  have hok : RoutedOk D (D.source w.store) w.inspected lastSeen [] r ∧ r.cursorTo = some cursorTo := by
    have hp := h.phases id wk hwk
    rwa [hphase] at hp
  have hheld : ∀ row, D.row w.store = some row → row.claimedBy = some id → lastSeen = row.lastSeen :=
    fun row hrow hi => h.held row hrow id wk lastSeen hwk hi (hphase ▸ rfl)
  have hfits := hC.imp_right fun hf => hf wk hwk
  rw [hphase] at hfits
  unfold World.commit
  dsimp only
  split
  · exact h.routeCall hbound (Or.inr (Or.inr ⟨_, rfl⟩)) hheld hok.1 hok.2 hfits
  · rename_i f _
    by_cases hlost : f.isLeaseLoss = true
    · rw [if_pos hlost]
      exact h.routeCall hbound (Or.inl rfl) hheld hok.1 hok.2 hfits
    · rw [if_neg hlost]
      exact h.routeCall hbound (Or.inr (Or.inr ⟨_, rfl⟩)) hheld hok.1 hok.2 hfits

theorem Inv.release (h : Inv D w) (wk : Worker) (next : Next) :
    Inv D (w.release D id wk next d) := by
  have hphase : ∀ phase holding, (phase = .claim ∨ phase = .stopped) → ∀ x : World κ, Inv D x →
      Inv D (x.setWorker id (some { wk with phase := phase, holdingLease := holding })) := by
    rintro phase holding hp x hx
    exact hx.drop (hp.imp_right Or.inl)
  unfold World.release
  dsimp only
  apply hphase
  · cases next
    · exact Or.inl rfl
    · exact Or.inr rfl
  · split_ifs
    · exact h.releaseCall id d
    · exact h

end Advance

/-- **Every step keeps the invariant.** -/
theorem Inv.step (h : Inv D w) (hbound : w.store.log.length < 2 ^ 53)
    (hC : D.stream = "$all" ∨ Fits D w op) (hstep : Routing.step D number w op = some w') :
    Inv D w' := by
  cases op with
  | queue op =>
    simp only [Routing.step] at hstep
    split_ifs at hstep with htargets
    obtain ⟨queue, hqueue, rfl⟩ := Option.map_eq_some_iff.mp hstep
    exact h.queue hC (by simpa using htargets) hqueue
  | start id opts =>
    simp only [Routing.step] at hstep
    split at hstep
    · obtain rfl := Option.some.inj hstep
      exact h.drop (Or.inl rfl)
    · cases hstep
  | close id =>
    simp only [Routing.step] at hstep
    split at hstep
    · rename_i wk hwk
      obtain rfl := Option.some.inj hstep
      exact h.setWorker (h.phases id wk hwk) fun row hrow c hi hc => h.held row hrow id wk c hwk hi hc
    · cases hstep
  | crash id =>
    simp only [Routing.step] at hstep
    split at hstep
    · obtain rfl := Option.some.inj hstep
      exact h.removeWorker id
    · cases hstep
  | advance id now d =>
    simp only [Routing.step] at hstep
    split at hstep
    · rename_i wk hwk
      unfold World.advance at hstep
      split at hstep
      all_goals rename_i hphase
      · obtain rfl := Option.some.inj hstep
        exact h.claim hwk hphase
      · obtain rfl := Option.some.inj hstep
        exact h.read hwk hphase
      · obtain rfl := Option.some.inj hstep
        exact h.route hwk hphase
      · obtain rfl := Option.some.inj hstep
        exact h.decide hwk hphase
      · obtain rfl := Option.some.inj hstep
        exact h.commit hbound hC hwk hphase
      · obtain rfl := Option.some.inj hstep
        exact h.release wk _
      · cases hstep
    · cases hstep

end Steps

end Instructed.Routing
