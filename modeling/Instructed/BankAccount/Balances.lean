import Instructed.BankAccount.Aggregates
import Instructed.ReadStore.Exact

/-!
# The balances of the bank account example

`examples/typescript/bank-account/src/projections/balances`, with `onlyTypes` of
`sdks/typescript/src/facade/routing-helpers.ts`.

* `Params`: how the values of an event become parameters of a query;
* `BalanceRow`, `upsertOpened`, `bumpBalance`: the rows, and the two guarded writes;
* `balancesProjection`: the definition, and `balances` its handler over the read store;
* `balances_shown`: **the row of an account is the account after its events up to some event, past all
  that were handled**.
-/

namespace Instructed.BankAccount

open Sql Relational Transition Aggregate History HighWater Routing Projection ReadStore Double

/-- `onlyTypes` (routing-helpers.ts:44–50): events of other types are ignored. -/
def onlyTypes (types : List String) (inner : RecordedEvent → RouteOutcome) (event : RecordedEvent) :
    RouteOutcome :=
  if event.eventType ∈ types then inner event else .ignore

/-- How the driver and the server read a value that is sent as a parameter: `none` where the query
    fails, and `some none` for a null. -/
structure Params where
  text : Option Json → Option (Option String)
  bigint : Option Json → Option (Option ℤ)
  /-- Of `-x`. -/
  negated : Option Json → Option (Option ℤ)

/-- Strings, and integers that a number of JavaScript holds, are sent as they are. -/
structure Params.Plain (P : Params) : Prop where
  text : ∀ s, P.text (some (.str s)) = some (some s)
  bigint : ∀ n : ℤ, n.natAbs < 2 ^ 53 → P.bigint (some (.int n)) = some (some n)
  negated : ∀ n : ℤ, n.natAbs < 2 ^ 53 → P.negated (some (.int n)) = some (some (-n))

/-! ## The rows -/

/-- A row of `bank_account.balances` (read-store.sql). -/
structure BalanceRow where
  owner : Option String
  balance : ℤ
  lastEventNumber : ℕ
  deriving DecidableEq, Repr

/-- The writes, with their arguments; the stream is the row's key. -/
inductive BalanceWrite where
  | upsertOpened (owner : Option String) (eventNumber : ℕ)
  | bumpBalance (delta : Option ℤ) (eventNumber : ℕ)

def BalanceWrite.eventNumber : BalanceWrite → ℕ
  | .upsertOpened _ n => n
  | .bumpBalance _ n => n

/-- `upsertOpened` (queries.ts:21–36). -/
def upsertOpened (owner : Option String) (eventNumber : ℕ) : Option BalanceRow → Option BalanceRow
  | none => some ⟨owner, 0, eventNumber⟩
  | some r =>
    if r.lastEventNumber < eventNumber then
      some { r with owner := owner, lastEventNumber := eventNumber }
    else some r

/-- `bumpBalance` (queries.ts:39–51). The sum must not be null, and fit in a `bigint`. -/
def bumpBalance (delta : Option ℤ) (eventNumber : ℕ) : Option BalanceRow → Option (Option BalanceRow)
  | none => some none
  | some r =>
    if r.lastEventNumber < eventNumber then
      delta.bind fun d =>
        if inBigint (r.balance + d) then
          some (some { r with balance := r.balance + d, lastEventNumber := eventNumber })
        else none
    else some (some r)

/-- The query of a write. -/
def writeBalance : BalanceWrite → Option BalanceRow → Option (Option BalanceRow)
  | .upsertOpened owner n, row => some (upsertOpened owner n row)
  | .bumpBalance delta n, row => bumpBalance delta n row

/-- Both writes are guarded by `last_event_number`. -/
def guardedBalance : Guarded BalanceWrite BalanceRow where
  number := BalanceWrite.eventNumber
  mark := BalanceRow.lastEventNumber
  write := writeBalance
  stale := by
    intro a r hle
    cases a with
    | upsertOpened owner n =>
      have hnot : ¬ r.lastEventNumber < n := Nat.not_lt.mpr hle
      simp [writeBalance, upsertOpened, hnot]
    | bumpBalance delta n =>
      have hnot : ¬ r.lastEventNumber < n := Nat.not_lt.mpr hle
      simp [writeBalance, bumpBalance, hnot]
  raises := by
    intro a row r hlt h
    cases a with
    | upsertOpened owner n =>
      cases row with
      | none =>
        simp only [writeBalance, upsertOpened, Option.some.injEq] at h
        rw [← h]
        rfl
      | some r₀ =>
        have hlt : r₀.lastEventNumber < n := hlt r₀ rfl
        simp only [writeBalance, upsertOpened, if_pos hlt, Option.some.injEq] at h
        rw [← h]
        rfl
    | bumpBalance delta n =>
      cases row with
      | none => simp [writeBalance, bumpBalance] at h
      | some r₀ =>
        have hlt : r₀.lastEventNumber < n := hlt r₀ rfl
        simp only [writeBalance, bumpBalance, if_pos hlt] at h
        obtain ⟨d, -, h⟩ := Option.bind_eq_some_iff.mp h
        split_ifs at h
        simp only [Option.some.injEq] at h
        rw [← h]
        rfl
  kept := by
    intro a r h
    cases a with
    | upsertOpened owner n =>
      simp only [writeBalance, upsertOpened] at h
      split_ifs at h <;> cases h
    | bumpBalance delta n =>
      simp only [writeBalance, bumpBalance] at h
      split_ifs at h
      · obtain ⟨d, -, h⟩ := Option.bind_eq_some_iff.mp h
        split_ifs at h
        cases h
      · cases h

/-! ## The projection -/

/-- `balancesRouteFn` (projection.ts:39–42). -/
def balancesRouteFn : RecordedEvent → RouteOutcome :=
  onlyTypes ["AccountOpened", "AccountDepositedTo", "AccountWithdrawnFrom"] fun event =>
    .partition event.streamUuid

/-- `balancesProjection` (projection.ts:44–48). -/
def balancesProjection : RoutingDefinition := ⟨"Balances", "$all", balancesRouteFn⟩

/-- `event.data.name`. The properties of a null cannot be read. -/
def property (event : RecordedEvent) (name : String) : Option (Option Json) :=
  match event.data with
  | .null => none
  | data => some (data.get? name)

/-- The handler awaits the query, or its parameters fail. -/
def awaitQuery (key : String) : Option BalanceWrite → Handling BalanceWrite
  | some a => .writes key a
  | none => .threw

/-- The `handler` of `balancesProjection` (projection.ts:49–79). -/
def balancesHandler (P : Params) (event : RecordedEvent) : Handling BalanceWrite :=
  let n := event.eventNumber
  match event.eventType with
  | "AccountOpened" => awaitQuery event.streamUuid
      (((property event "owner").bind P.text).map fun owner => .upsertOpened owner n)
  | "AccountDepositedTo" => awaitQuery event.streamUuid
      (((property event "amount").bind P.bigint).map fun delta => .bumpBalance delta n)
  | "AccountWithdrawnFrom" => awaitQuery event.streamUuid
      (((property event "amount").bind P.negated).map fun delta => .bumpBalance delta n)
  | _ => .returned

theorem awaitQuery_eq_writes {key key' : String} {write : Option BalanceWrite} {a : BalanceWrite} :
    awaitQuery key write = .writes key' a ↔ key = key' ∧ write = some a := by
  cases write <;> simp [awaitQuery]

/-- A write is that of the event, on the row of its stream. -/
theorem balancesHandler_writes {P : Params} {e : RecordedEvent} {key : String} {a : BalanceWrite}
    (h : balancesHandler P e = .writes key a) : e.streamUuid = key ∧ a.eventNumber = e.eventNumber ∧
      e.eventType ∈ ["AccountOpened", "AccountDepositedTo", "AccountWithdrawnFrom"] := by
  unfold balancesHandler at h
  split at h
  · rename_i htype
    obtain ⟨hkey, hwrite⟩ := awaitQuery_eq_writes.mp h
    obtain ⟨owner, -, rfl⟩ := Option.map_eq_some_iff.mp hwrite
    exact ⟨hkey, rfl, by simp [htype]⟩
  · rename_i htype
    obtain ⟨hkey, hwrite⟩ := awaitQuery_eq_writes.mp h
    obtain ⟨delta, -, rfl⟩ := Option.map_eq_some_iff.mp hwrite
    exact ⟨hkey, rfl, by simp [htype]⟩
  · rename_i htype
    obtain ⟨hkey, hwrite⟩ := awaitQuery_eq_writes.mp h
    obtain ⟨delta, -, rfl⟩ := Option.map_eq_some_iff.mp hwrite
    exact ⟨hkey, rfl, by simp [htype]⟩
  · cases h

/-- The handler, over the read store. -/
def balances (P : Params) : ReadModel balancesProjection BalanceWrite BalanceRow where
  toGuarded := guardedBalance
  handle := balancesHandler P
  partitioned := by
    intro e p key a hroute hhandle
    obtain ⟨rfl, hnumber, htype⟩ := balancesHandler_writes hhandle
    simp only [balancesProjection, balancesRouteFn, onlyTypes, if_pos htype] at hroute
    exact ⟨RouteOutcome.partition.inj hroute, hnumber⟩

/-! ## The result -/

/-- What the row shows. -/
def BalanceRow.view (r : BalanceRow) : Option String × ℤ := (r.owner, r.balance)

/-- What is to be shown of an account. -/
def AccountState.view (s : AccountState) : Option (Option String × ℤ) :=
  if s.opened then some (s.owner, s.balance.val) else none

/-- The amount is below `2 ^ 53`. -/
def SafeAmount (e : DomainEvent EventData) : Prop := ∀ n ∈ e.data.amount, n.val.natAbs < 2 ^ 53

instance (e : DomainEvent EventData) : Decidable (SafeAmount e) :=
  inferInstanceAs (Decidable (∀ n ∈ e.data.amount, n.val.natAbs < 2 ^ 53))

/-- Commands alone wrote to the account, and neither an amount nor a balance is too large to be exact.
    -/
structure AccountStream (u : String) (log : List RecordedEvent) : Prop where
  commanded : ∃ h, Commanded account h ∧ Holds account u log h
  safe : ∀ e ∈ eventsOf u log, SafeAmount e
  exact : Exact (eventsOf u log)

section Result

variable {P : Params} {before : List (DomainEvent EventData)} {e : RecordedEvent}
  {E : List RecordedEvent} {row row' : Option BalanceRow} {u : String}

theorem property_of_get? {name : String} {v : Json} (h : e.data.get? name = some v) :
    property e name = some (some v) := by
  unfold property
  split
  · rename_i hnull
    rw [hnull] at h
    cases h
  · rw [h]

theorem property_owner {owner : String}
    (h : (recordedToDomain account.codec e).data.owner = some owner) :
    property e "owner" = some (some (.str owner)) := by
  apply property_of_get?
  change asText (e.data.get? "owner") = some owner at h
  unfold asText at h
  split at h
  · rename_i heq
    rw [heq, Option.some.inj h]
  · cases h

/-- Below `2 ^ 53` the stored digits are those of the amount. -/
theorem property_amount {n : DoubleInt} (h : (recordedToDomain account.codec e).data.amount = some n)
    (hsafe : n.val.natAbs < 2 ^ 53) : property e "amount" = some (some (.int n.val)) := by
  apply property_of_get?
  change asNumber (e.data.get? "amount") = some n at h
  unfold asNumber at h
  split at h
  · rename_i m heq
    obtain rfl := Option.some.inj h
    rw [heq, DoubleInt.val_ofInt, number_eq_self hsafe]
    rfl
  · cases h

theorem write?_opened (hP : P.Plain) {owner : String} (htype : e.eventType = "AccountOpened")
    (h : (recordedToDomain account.codec e).data.owner = some owner) :
    (balances P).write? e = some (.upsertOpened (some owner) e.eventNumber) := by
  simp [ReadModel.write?, balances, balancesHandler, htype, property_owner h, hP.text, awaitQuery]

theorem write?_deposited (hP : P.Plain) {n : DoubleInt} (htype : e.eventType = "AccountDepositedTo")
    (h : (recordedToDomain account.codec e).data.amount = some n) (hsafe : n.val.natAbs < 2 ^ 53) :
    (balances P).write? e = some (.bumpBalance (some n.val) e.eventNumber) := by
  simp [ReadModel.write?, balances, balancesHandler, htype, property_amount h hsafe, hP.bigint _ hsafe,
    awaitQuery]

theorem write?_withdrawn (hP : P.Plain) {n : DoubleInt} (htype : e.eventType = "AccountWithdrawnFrom")
    (h : (recordedToDomain account.codec e).data.amount = some n) (hsafe : n.val.natAbs < 2 ^ 53) :
    (balances P).write? e = some (.bumpBalance (some (-n.val)) e.eventNumber) := by
  simp [ReadModel.write?, balances, balancesHandler, htype, property_amount h hsafe, hP.negated _ hsafe,
    awaitQuery]

theorem write?_refused (htype : e.eventType = "AccountWithdrawalRefused") :
    (balances P).write? e = none := by
  simp [ReadModel.write?, balances, balancesHandler, htype]

/-- The row of an open account takes the change of its balance. -/
theorem view_bumpBalance {s : AccountState} {d : ℤ} {b : DoubleInt} {n : ℕ} (hopen : s.opened = true)
    (hb : b.val = s.balance.val + d)
    (hrow : row.map BalanceRow.view = s.view) (hmark : ∀ r ∈ row, r.lastEventNumber < n)
    (h : bumpBalance (some d) n row = some row') :
    row'.map BalanceRow.view = AccountState.view { s with balance := b } := by
  rw [AccountState.view, if_pos hopen] at hrow
  obtain ⟨r, rfl, hview⟩ := Option.map_eq_some_iff.mp hrow
  obtain ⟨howner, hbalance⟩ := Prod.mk.inj hview
  simp only [bumpBalance, if_pos (hmark r rfl), Option.bind_some] at h
  split_ifs at h
  obtain rfl := Option.some.inj h
  simp [AccountState.view, BalanceRow.view, hopen, howner, hbalance, hb]

/-- An event of an account writes what it makes of the account. -/
theorem write_view (hP : P.Plain) (hs : Justified AccountSound before)
    (he : AccountSound before (recordedToDomain account.codec e))
    (hsafe : SafeAmount (recordedToDomain account.codec e))
    (hexact : Exact (before ++ [recordedToDomain account.codec e]))
    (hrow : row.map BalanceRow.view = (accountAfter before).view)
    (hmark : ∀ r ∈ row, r.lastEventNumber < e.eventNumber) :
    (balances P).write? e = none ∧
        (accountAfter (before ++ [recordedToDomain account.codec e])).view = (accountAfter before).view ∨
      ∃ a, (balances P).write? e = some a ∧ ∀ row', writeBalance a row = some row' →
        row'.map BalanceRow.view =
          (accountAfter (before ++ [recordedToDomain account.codec e])).view := by
  have htype := he.type
  rw [accountAfter_snoc]
  by_cases hfirst : e.eventType = "AccountOpened"
  · -- There is no row yet.
    obtain rfl := he.opened.mp hfirst
    obtain ⟨owner, howner⟩ := Option.isSome_iff_exists.mp (he.owner hfirst)
    obtain rfl : row = none := Option.map_eq_none_iff.mp hrow
    refine Or.inr ⟨_, write?_opened hP hfirst howner, fun row' h => ?_⟩
    obtain rfl := Option.some.inj h
    have happly : (accountAfter []).apply (recordedToDomain account.codec e) =
        ⟨true, some owner, .ofInt 0⟩ := by
      simp [AccountState.apply, show (recordedToDomain account.codec e).type = _ from hfirst, howner,
        accountAfter, AccountState.initial]
    rw [happly]
    rfl
  · have hopen := (opened_iff hs).mpr fun hnil => hfirst (he.opened.mpr hnil)
    obtain ⟨n, hn⟩ := Option.isSome_iff_exists.mp (he.amount hfirst)
    have hsafe := hsafe n hn
    have hsum := hexact _ List.prefix_rfl
    rw [ledger_snoc, ← balance_eq_ledger (hexact.of_prefix (List.prefix_append ..))] at hsum
    have hother : (recordedToDomain account.codec e).type ≠ "AccountOpened" := hfirst
    simp only [List.mem_cons, List.not_mem_nil, or_false, hother, false_or] at htype
    rcases htype with htype | htype | htype
    · refine Or.inr ⟨_, write?_deposited hP htype hn hsafe, fun row' h => ?_⟩
      simp only [change, htype, hn, Option.getD_some] at hsum
      rw [view_bumpBalance hopen (DoubleInt.val_add hsum) hrow hmark h]
      simp [AccountState.apply, htype, hn]
    · refine Or.inr ⟨_, write?_withdrawn hP htype hn hsafe, fun row' h => ?_⟩
      simp only [change, htype, hn, Option.getD_some, ← Int.sub_eq_add_neg] at hsum
      rw [view_bumpBalance hopen ((DoubleInt.val_sub hsum).trans Int.sub_eq_add_neg) hrow hmark h]
      simp [AccountState.apply, htype, hn]
    · refine Or.inl ⟨write?_refused htype, ?_⟩
      simp [AccountState.apply, htype]

/-- **The replay of an account's events shows the account.** -/
theorem view_replay (hP : P.Plain) (hs : Justified AccountSound (E.map (recordedToDomain account.codec)))
    (hsafe : ∀ e ∈ E, SafeAmount (recordedToDomain account.codec e))
    (hexact : Exact (E.map (recordedToDomain account.codec)))
    (hE : E.Pairwise fun a b => a.eventNumber < b.eventNumber)
    (h : (balances P).replay (E.filterMap (balances P).write?) = some row) :
    row.map BalanceRow.view = (accountAfter (E.map (recordedToDomain account.codec))).view := by
  induction E using List.reverseRecOn generalizing row with
  | nil =>
    obtain rfl := Option.some.inj h
    rfl
  | append_singleton E e ih =>
    rw [List.map_append] at hs hexact
    have hexact' := hexact.of_prefix (List.prefix_append ..)
    obtain ⟨hold, hnew⟩ := Justified.append_iff.mp hs
    have he : AccountSound (E.map (recordedToDomain account.codec) ++ [])
        (recordedToDomain account.codec e) := hnew [] _ [] rfl
    rw [List.append_nil] at he
    obtain ⟨hpairwise, -, hlast⟩ := List.pairwise_append.mp hE
    have hsafe' : ∀ e ∈ E, SafeAmount (recordedToDomain account.codec e) := fun e' he' =>
      hsafe e' (List.mem_append_left _ he')
    have hsorted : (E.filterMap (balances P).write?).Pairwise fun a b =>
        a.eventNumber < b.eventNumber := by
      rw [List.pairwise_filterMap]
      refine hpairwise.imp fun {b c} hlt a ha a' ha' => ?_
      obtain ⟨key, ha⟩ := write?_eq_some.mp ha
      obtain ⟨key', ha'⟩ := write?_eq_some.mp ha'
      rw [(balancesHandler_writes ha).2.1, (balancesHandler_writes ha').2.1]
      exact hlt
    -- The row before the event is below the event.
    have hmark : ∀ {row : Option BalanceRow},
        (balances P).replay (E.filterMap (balances P).write?) = some row →
        ∀ r ∈ row, r.lastEventNumber < e.eventNumber := by
      rintro row hreplay r rfl
      obtain ⟨-, a, ha, heq⟩ := Guarded.mark_of_replay hsorted hreplay
      obtain ⟨b, hb, hwrite⟩ := List.mem_filterMap.mp ha
      obtain ⟨key, hhandle⟩ := write?_eq_some.mp hwrite
      have hlt := hlast b hb e (by simp)
      show (balances P).mark r < e.eventNumber
      rw [← heq]
      show a.eventNumber < e.eventNumber
      rw [(balancesHandler_writes hhandle).2.1]
      exact hlt
    rw [List.map_append, List.map_singleton]
    rw [List.filterMap_append] at h
    cases hwrite : (balances P).write? e with
    | none =>
      have h : (balances P).replay (E.filterMap (balances P).write?) = some row := by
        simpa [hwrite] using h
      have hrow := ih hold hsafe' hexact' hpairwise h
      rcases write_view hP hold he (hsafe e (by simp)) hexact hrow (hmark h) with ⟨-, hsame⟩ | ⟨a, ha, -⟩
      · rw [hsame]
        exact hrow
      · cases hwrite.symm.trans ha
    | some a =>
      have h : (balances P).replay (E.filterMap (balances P).write? ++ [a]) = some row := by
        simpa [hwrite] using h
      obtain ⟨row₀, hrow₀, hstep⟩ := Guarded.replay_snoc_eq_some _ h
      rcases write_view hP hold he (hsafe e (by simp)) hexact (ih hold hsafe' hexact' hpairwise hrow₀) (hmark hrow₀)
        with ⟨hnone, -⟩ | ⟨a', ha', hview⟩
      · cases hwrite.symm.trans hnone
      · obtain rfl := Option.some.inj (hwrite.symm.trans ha')
        exact hview _ hstep

/-- The writes to the row of a stream are those of the stream's events. -/
theorem writes_eq (log : List RecordedEvent) (p : RecordedEvent → Bool) :
    (balances P).writes log u p = (onStream u (log.filter p)).filterMap (balances P).write? := by
  rw [ReadModel.writes, onStream, List.filter_filter, List.filterMap_filter, List.filterMap_filter]
  apply List.filterMap_congr
  intro e _
  cases hwrite : (balances P).write? e with
  | none => simp
  | some a =>
    obtain ⟨key, hhandle⟩ := write?_eq_some.mp hwrite
    obtain ⟨-, -, htype⟩ := balancesHandler_writes hhandle
    have hroute : balancesProjection.routeFn e = .partition e.streamUuid := if_pos htype
    simp [hroute, and_comm]

/-- The row of the account `u` shows the account after its events up to `m`. -/
structure BalanceShown (w : ReadStore.World BalanceRow) (u : String) (m : ℕ) : Prop where
  row : (w.rows u).map BalanceRow.view = (accountAfter (eventsOf u (w.store.log.take m))).view
  /-- No event of the account that was handled comes after. -/
  handled : ∀ item e, (item, e) ∈ w.processing.returned → item.partitionKey = u → e.eventNumber ≤ m
  /-- Nothing up to a target comes after when the projection has caught up with it. -/
  caughtUp : ∀ target, balancesProjection.caughtUp target w.store w.store = .ok true →
    ∀ e ∈ w.store.log, e.eventNumber ≤ target → e.eventNumber ≤ m

/-- **The row of an account is the account after its events**, up to some event that comes after none
    that was handled, and up to every target that the projection has caught up with. -/
theorem balances_shown {number : JsNumber} {w : ReadStore.World BalanceRow} (hP : P.Plain)
    (hw : Reachable (ReadStore.system (balances P) number) w) (hbound : w.store.log.length < 2 ^ 53)
    (hstart : w.processing.routing.start = some 0) (hu : AccountStream u w.store.log) :
    ∃ m, BalanceShown w u m := by
  have hshows := shows_upTo rfl hw hbound hstart u
  have hc : w.store.Consistent :=
    (Processing.grounded_of_reachable adapter_untargeted (processing_of_reachable hw)).consistent.store
  have hnumbered := hc.log_numbered
  refine ⟨_, ?_, hshows.handled, hshows.caughtUp⟩
  have hreplay := hshows.replay
  generalize World.upTo (balances P) w 0 u = m at hreplay ⊢
  have htake : w.store.log.filter (fun e => decide (0 < e.eventNumber) && decide (e.eventNumber ≤ m)) =
      w.store.log.take m := by
    have hle := hnumbered.eventNumber.filter_le m
    rw [Nat.add_sub_cancel] at hle
    rw [← hle]
    apply List.filter_congr
    intro e he
    have hpos := (hnumbered.eventNumber.pos_mem he).1
    simp [show 0 < e.eventNumber by omega]
  rw [writes_eq, htake] at hreplay
  -- The events up to `m` come first on the stream.
  have hsplit : onStream u (w.store.log.take m) ++ onStream u (w.store.log.drop m) =
      onStream u w.store.log := by
    rw [← onStream_append, List.take_append_drop]
  obtain ⟨h, hcommanded, hholds⟩ := hu.commanded
  have hexact := hu.exact
  have hsound := account_commanded hcommanded hholds hexact
  rw [eventsOf, ← hsplit, List.map_append] at hsound hexact
  refine view_replay hP (Justified.append_iff.mp hsound).1 (fun e he => ?_)
    (hexact.of_prefix (List.prefix_append ..)) ?_ hreplay
  · apply hu.safe
    rw [eventsOf, ← hsplit]
    exact List.mem_map_of_mem (List.mem_append_left _ he)
  · exact (hnumbered.eventNumber.pairwise_lt.sublist (List.take_sublist ..)).filter _

end Result

/-! ## A run -/

section Example

/-- Strings and integers are sent as they are, and an absent property as a null. -/
def samplePlain : Params where
  text
    | some (.str s) => some (some s)
    | none => some none
    | _ => none
  bigint
    | some (.num ⟨n, 0⟩) => some (some n)
    | none => some none
    | _ => none
  negated
    | some (.num ⟨n, 0⟩) => some (some (-n))
    | _ => none

/-- An account is opened, and receives a deposit. -/
def sampleHistory : List (DomainEvent EventData) :=
  [⟨"AccountOpened", { EventData.empty with owner := some "Ada" }, none⟩,
   ⟨"AccountDepositedTo", { EventData.empty with amount := some (.ofInt 5) }, none⟩]

theorem sampleHistory_commanded : Commanded account sampleHistory := by
  have hopen : (account.definition ()).execute (accountAfter []) (.openAccount "Ada") =
      .ok [newEvent "AccountOpened" { EventData.empty with owner := some "Ada" }] := rfl
  have hdeposit : (account.definition ()).execute (accountAfter [sampleHistory[0]])
      (.depositToAccount (.ofInt 5) none) =
        .ok [newEvent "AccountDepositedTo" { EventData.empty with amount := some (.ofInt 5) }] := rfl
  have hopened : Commanded account [sampleHistory[0]] := Commanded.nil.command () hopen
  exact hopened.command () hdeposit

/-- The history is appended and projected, each event by a worker of its own. -/
def sampleBalances : List ReadStore.Op :=
  let turns (id : String) (n : ℕ) : List ReadStore.Op :=
    List.replicate n (.processing (.advance id ⟨20, .answered, fun _ => false, .retryIn, .returned⟩))
  let project (e : DomainEvent EventData) (digit : String) (i : ℕ) : List ReadStore.Op :=
    .processing (.routing (.queue (.append 1 ⟨some "Account-1", some "any", none, some (.arr [.obj
      [("event_id", .str ("00000000-0000-0000-0000-00000000000" ++ digit)),
        ("event_type", .str e.type), ("data", e.data.stringify)]])⟩))) ::
      List.replicate 7 (.processing (.routing (.advance "r" 10 .answered))) ++
      .processing (.start digit 5 ()) :: turns digit 4 ++ .query i :: turns digit 2
  .processing (.routing (.start "r" ⟨10, 5, none⟩)) ::
    (sampleHistory.zip ["1", "2"]).zipIdx.flatMap fun x => project x.1.1 x.1.2 x.2

theorem balances_shown_sampleBalances : ∃ w,
    (ReadStore.system (balances samplePlain) sampleNumber).run World.install sampleBalances = some w ∧
      w.rows "Account-1" = some ⟨some "Ada", 5, 2⟩ ∧ ∃ m, BalanceShown w "Account-1" m := by
  have hrun : ((ReadStore.system (balances samplePlain) sampleNumber).run World.install
      sampleBalances).map (fun w => (w.rows "Account-1", eventsOf "Account-1" w.store.log,
        w.processing.routing.start, decide (w.store.log.length < 2 ^ 53))) =
          some (some ⟨some "Ada", 5, 2⟩, sampleHistory.map (readBack account.codec), some 0, true) := by
    decide +kernel
  obtain ⟨w, hw, heq⟩ := Option.map_eq_some_iff.mp hrun
  obtain ⟨hrow, heq⟩ := Prod.mk.inj heq
  obtain ⟨hevents, heq⟩ := Prod.mk.inj heq
  obtain ⟨hstart, hbound⟩ := Prod.mk.inj heq
  have hplain : samplePlain.Plain := ⟨fun _ => rfl, fun _ _ => rfl, fun _ _ => rfl⟩
  have hstream : AccountStream "Account-1" w.store.log := by
    refine ⟨⟨_, sampleHistory_commanded, hevents⟩, ?_, ?_⟩
    · rw [hevents]
      decide +kernel
    · rw [hevents]
      decide +kernel
  exact ⟨w, hw, hrow, balances_shown hplain (.run (.init rfl) hw) (of_decide_eq_true hbound) hstart hstream⟩

end Example

end Instructed.BankAccount
