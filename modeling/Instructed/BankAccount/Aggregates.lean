import Instructed.Aggregate.Commanded
import Instructed.Lib.Double

/-!
# The aggregates of the bank account example

`examples/typescript/bank-account/src/aggregates`: `account.ts` and `transfer.ts`, under commands from any
number of clients.

* `EventData`: the payloads of the events, as they are stored and read back;
* `ledger`, `Exact`: the sum of what was deposited and withdrawn, and the histories in which it stays below
  `2 ^ 53`, where a sum of doubles is exact;
* `account`, `AccountSound`, `account_sound`: **an account is opened once and first, no withdrawal exceeds
  the balance, and none is refused that it covers**;
* `transfer`, `TransferSound`, `transfer_sound`: **a transfer has at most one outcome**.
-/

namespace Instructed.BankAccount

open Sql Transition Aggregate History Double

deriving instance DecidableEq for DomainEvent

/-! ## Payloads -/

/-- The properties of the events' `data`; an absent property is `none`. A `number` is taken to be an
    integer: fractions, `NaN` and the infinities are left out. -/
structure EventData where
  owner : Option String
  amount : Option DoubleInt
  transferId : Option String
  fromAccount : Option String
  toAccount : Option String
  reason : Option String
  deriving DecidableEq

/-- No property. -/
def EventData.empty : EventData := ⟨none, none, none, none, none, none⟩

/-- A string. -/
def asText : Option Json → Option String
  | some (.str s) => some s
  | _ => none

/-- A number, which `JSON.parse` rounds to a double. -/
def asNumber : Option Json → Option DoubleInt
  | some (.num ⟨n, 0⟩) => some (.ofInt n)
  | _ => none

/-- A number as it is printed. From `2 ^ 53` on `JSON.stringify` prints other digits, which are read
    back as the same double. -/
def ofNumber (a : DoubleInt) : Json := .int a.val

/-- A truth value. -/
def asBool : Option Json → Bool
  | some (.bool b) => b
  | _ => false

/-- `JSON.stringify`. -/
def EventData.stringify (d : EventData) : Json :=
  .obj (optionalField "owner" (d.owner.map .str) ++ optionalField "amount" (d.amount.map ofNumber) ++
    optionalField "transferId" (d.transferId.map .str) ++
    optionalField "from" (d.fromAccount.map .str) ++ optionalField "to" (d.toAccount.map .str) ++
    optionalField "reason" (d.reason.map .str))

def EventData.parse (j : Option Json) : EventData :=
  let j := j.getD .null
  ⟨asText (j.get? "owner"), asNumber (j.get? "amount"), asText (j.get? "transferId"),
    asText (j.get? "from"), asText (j.get? "to"), asText (j.get? "reason")⟩

theorem get?_obj_append (xs ys : List (String × Json)) (key : String) :
    (Json.obj (xs ++ ys)).get? key = ((Json.obj xs).get? key).or ((Json.obj ys).get? key) := by
  simp [Json.get?, List.find?_append, Option.map_or]

theorem get?_optionalField (key key' : String) (value : Option Json) :
    (Json.obj (optionalField key value)).get? key' = if key = key' then value else none := by
  cases value with
  | none => simp [Json.get?, optionalField]
  | some v => by_cases h : key = key' <;> simp [Json.get?, optionalField, h]

@[simp] theorem asText_map (s : Option String) : asText (s.map .str) = s := by
  cases s <;> rfl

@[simp] theorem asNumber_ofNumber (a : DoubleInt) : asNumber (some (ofNumber a)) = some a :=
  congrArg some a.ofInt_val

@[simp] theorem asNumber_map (a : Option DoubleInt) : asNumber (a.map ofNumber) = a := by
  cases a with
  | none => rfl
  | some a => exact asNumber_ofNumber a

/-- A payload is read back as it was stored. -/
theorem EventData.parse_stringify (d : EventData) : EventData.parse (some d.stringify) = d := by
  simp [EventData.parse, EventData.stringify, get?_obj_append, get?_optionalField]

/-- An event as `execute` returns it. -/
def newEvent (type : String) (data : EventData) : NewEvent EventData :=
  ⟨none, type, data, none, none, none⟩

/-- The payloads and a state that survives JSON. -/
def codec {S : Type} (stateToJson : S → Json) (jsonToState : Json → S) : Codec S EventData where
  stringify := EventData.stringify
  parse := EventData.parse
  stateToJson := stateToJson
  jsonToState := jsonToState

/-! ## Accounts -/

/-- `AccountState` (account.ts:31–35). -/
structure AccountState where
  opened : Bool
  owner : Option String
  balance : DoubleInt
  deriving DecidableEq

/-- The commands of an account (commands/account); its id is used to find the stream. -/
inductive AccountCommand where
  | openAccount (owner : String)
  | depositToAccount (amount : DoubleInt) (transferId : Option String)
  | withdrawFromAccount (amount : DoubleInt) (transferId transferTo : Option String)
  deriving DecidableEq

/-- `initialState` (account.ts:39). -/
def AccountState.initial : AccountState := ⟨false, none, .ofInt 0⟩

/-- `Account.apply` (account.ts:41–52). -/
def AccountState.apply (s : AccountState) (e : DomainEvent EventData) : AccountState :=
  match e.type with
  | "AccountOpened" => { s with opened := true, owner := e.data.owner }
  | "AccountDepositedTo" => { s with balance := s.balance + e.data.amount.getD (.ofInt 0) }
  | "AccountWithdrawnFrom" => { s with balance := s.balance - e.data.amount.getD (.ofInt 0) }
  | _ => s

/-- `Account.execute` (account.ts:54–93). -/
def AccountState.execute (s : AccountState) : AccountCommand → Except Thrown (List (NewEvent EventData))
  | .openAccount owner =>
    if s.opened then .error (.other "account already open")
    else .ok [newEvent "AccountOpened" { EventData.empty with owner := some owner }]
  | .depositToAccount amount transferId =>
    if s.opened then .ok [newEvent "AccountDepositedTo"
      { EventData.empty with amount := some amount, transferId := transferId }]
    else .error (.other "account not open")
  | .withdrawFromAccount amount transferId transferTo =>
    if s.opened then
      if s.balance.val < amount.val then .ok [newEvent "AccountWithdrawalRefused" { EventData.empty with
        reason := some "insufficient funds", amount := some amount, transferId := transferId }]
      else .ok [newEvent "AccountWithdrawnFrom"
        { EventData.empty with amount := some amount, transferId := transferId, toAccount := transferTo }]
    else .error (.other "account not open")

/-- `Account` (account.ts:37–94), whose states are stored as JSON. -/
def account : Deployment Unit AccountState AccountCommand EventData where
  definition _ :=
    { type := "Account"
      initialState := .initial
      execute := AccountState.execute
      apply := AccountState.apply
      snapshotPolicy := none
      snapshotModuleVersion := none }
  codec := codec
    (fun s => .obj ([("opened", .bool s.opened), ("balance", ofNumber s.balance)] ++
      optionalField "owner" (s.owner.map .str)))
    (fun j => ⟨asBool (j.get? "opened"), asText (j.get? "owner"),
      (asNumber (j.get? "balance")).getD (.ofInt 0)⟩)
  module_eq _ _ _ := ⟨rfl, rfl⟩
  state_roundTrip s := by
    obtain ⟨opened, owner, balance⟩ := s
    have howner : (Json.obj ([("opened", .bool opened), ("balance", ofNumber balance)] ++
        optionalField "owner" (owner.map .str))).get? "owner" = owner.map .str := by
      rw [get?_obj_append, get?_optionalField]
      simp [Json.get?]
    simp only [codec, howner, asText_map]
    simp [Json.get?, asBool]
  apply_readBack _ s e := by
    simp [AccountState.apply, readBack, codec, EventData.parse_stringify]

/-- The account after its events. -/
def accountAfter (h : List (DomainEvent EventData)) : AccountState :=
  h.foldl AccountState.apply .initial

/-- What the event adds to the balance. -/
def change (e : DomainEvent EventData) : ℤ :=
  match e.type with
  | "AccountDepositedTo" => (e.data.amount.getD (.ofInt 0)).val
  | "AccountWithdrawnFrom" => -(e.data.amount.getD (.ofInt 0)).val
  | _ => 0

/-- The exact balance after the events. -/
def ledger (h : List (DomainEvent EventData)) : ℤ := (h.map change).sum

/-- Every balance on the way is below `2 ^ 53`. -/
def Exact (h : List (DomainEvent EventData)) : Prop :=
  ∀ before, before <+: h → (ledger before).natAbs < 2 ^ 53

/-- An event of an account as it should come after the events before it. -/
structure AccountSound (before : List (DomainEvent EventData)) (e : DomainEvent EventData) : Prop where
  type : e.type ∈ ["AccountOpened", "AccountDepositedTo", "AccountWithdrawnFrom",
    "AccountWithdrawalRefused"]
  owner : e.type = "AccountOpened" → e.data.owner.isSome
  amount : e.type ≠ "AccountOpened" → e.data.amount.isSome
  /-- An account is opened once and first. -/
  opened : e.type = "AccountOpened" ↔ before = []
  /-- A withdrawal does not exceed the balance. -/
  covered : e.type = "AccountWithdrawnFrom" → 0 ≤ ledger (before ++ [e])
  /-- A withdrawal is refused when the balance does not cover it. -/
  refused : e.type = "AccountWithdrawalRefused" →
    ∃ amount, e.data.amount = some amount ∧ ledger before < amount.val

section Account

variable {h h' : List (DomainEvent EventData)} {e : DomainEvent EventData}

theorem accountAfter_snoc : accountAfter (h ++ [e]) = (accountAfter h).apply e := by
  simp [accountAfter]

theorem ledger_snoc : ledger (h ++ [e]) = ledger h + change e := by
  simp [ledger]

instance (h : List (DomainEvent EventData)) : Decidable (Exact h) :=
  decidable_of_iff (∀ before ∈ h.inits, (ledger before).natAbs < 2 ^ 53) (by simp [Exact])

theorem Exact.of_prefix (hexact : Exact h') (hle : h <+: h') : Exact h :=
  fun before hbefore => hexact before (hbefore.trans hle)

/-- As long as the sums are exact, the balance is their sum. -/
theorem balance_eq_ledger (hexact : Exact h) : (accountAfter h).balance.val = ledger h := by
  induction h using List.reverseRecOn with
  | nil => exact number_of_natAbs_lt (n := 0) (by decide)
  | append_singleton h e ih =>
    have hbalance := ih (hexact.of_prefix (List.prefix_append ..))
    have hsum := hexact _ List.prefix_rfl
    rw [ledger_snoc] at hsum ⊢
    rw [accountAfter_snoc]
    rw [← hbalance] at hsum ⊢
    unfold AccountState.apply
    split
    · rename_i htype
      simp [change, htype]
    · rename_i htype
      simp only [change, htype] at hsum ⊢
      exact DoubleInt.val_add hsum
    · rename_i htype
      simp only [change, htype, ← Int.sub_eq_add_neg] at hsum ⊢
      exact DoubleInt.val_sub hsum
    · simp [change]

/-- An account is open when it has events. -/
theorem opened_iff (hs : Justified AccountSound h) : (accountAfter h).opened = true ↔ h ≠ [] := by
  induction h using List.reverseRecOn with
  | nil => simp [accountAfter, AccountState.initial]
  | append_singleton h e ih =>
    obtain ⟨hold, hnew⟩ := Justified.append_iff.mp hs
    have he : AccountSound (h ++ []) e := hnew [] e [] rfl
    rw [List.append_nil] at he
    simp only [accountAfter_snoc, ne_eq, List.append_eq_nil_iff, List.cons_ne_self, and_false,
      not_false_eq_true, iff_true]
    by_cases hopen : e.type = "AccountOpened"
    · simp [AccountState.apply, hopen]
    · have hne : h ≠ [] := fun hnil => hopen (he.opened.mpr hnil)
      have hopened := (ih hold).mpr hne
      have htype := he.type
      simp only [List.mem_cons, List.not_mem_nil, or_false, hopen, false_or] at htype
      rcases htype with htype | htype | htype <;> simp [AccountState.apply, htype, hopened]

/-- The event is sound, if all sums up to it are exact. -/
def SoundIfExact (before : List (DomainEvent EventData)) (e : DomainEvent EventData) : Prop :=
  Exact (before ++ [e]) → AccountSound before e

theorem sound_of_exact (hs : Justified SoundIfExact h) (hexact : Exact h) : Justified AccountSound h := by
  intro before e after heq
  refine hs before e after heq (hexact.of_prefix ⟨after, ?_⟩)
  rw [heq, List.append_assoc, List.singleton_append]

/-- What a command on an account returns is sound. -/
theorem account_execute {c : AccountCommand} {events : List (NewEvent EventData)}
    (hs : Justified SoundIfExact h) (hexec : (accountAfter h).execute c = .ok events) :
    Justified (fun before => SoundIfExact (h ++ before)) (events.map NewEvent.toDomain) := by
  have hone : ∀ {type : String} {data : EventData},
      (Justified AccountSound h → (accountAfter h).balance.val = ledger h →
        AccountSound h ⟨type, data, none⟩) →
      Justified (fun before => SoundIfExact (h ++ before))
        ([newEvent type data].map NewEvent.toDomain) := by
    intro type data hsound
    have hself : SoundIfExact (h ++ []) ⟨type, data, none⟩ := by
      rw [List.append_nil]
      intro hexact
      have hbefore := hexact.of_prefix (List.prefix_append ..)
      exact hsound (sound_of_exact hs hbefore) (balance_eq_ledger hbefore)
    exact Justified.nil.snoc hself
  cases c with
  | openAccount owner =>
    simp only [AccountState.execute] at hexec
    split_ifs at hexec with hopen
    obtain rfl := Except.ok.inj hexec
    refine hone fun hsound _ => ?_
    have hnil : h = [] := by
      by_contra hne
      exact hopen ((opened_iff hsound).mpr hne)
    exact ⟨by simp, by simp, by simp, by simp [hnil], by simp, by simp⟩
  | depositToAccount amount transferId =>
    simp only [AccountState.execute] at hexec
    split_ifs at hexec with hopen
    obtain rfl := Except.ok.inj hexec
    refine hone fun hsound _ => ?_
    exact ⟨by simp, by simp, by simp, by simpa using (opened_iff hsound).mp hopen, by simp, by simp⟩
  | withdrawFromAccount amount transferId transferTo =>
    simp only [AccountState.execute] at hexec
    split_ifs at hexec with hopen hless
    · obtain rfl := Except.ok.inj hexec
      refine hone fun hsound hbalance => ?_
      rw [hbalance] at hless
      exact ⟨by simp, by simp, by simp, by simpa using (opened_iff hsound).mp hopen, by simp,
        by simpa using hless⟩
    · obtain rfl := Except.ok.inj hexec
      refine hone fun hsound hbalance => ?_
      rw [hbalance] at hless
      refine ⟨by simp, by simp, by simp, by simpa using (opened_iff hsound).mp hopen, ?_, by simp⟩
      intro _
      rw [ledger_snoc]
      simp only [change, Option.getD_some]
      omega

theorem readBack_data : (readBack account.codec e).data = e.data :=
  EventData.parse_stringify e.data

@[simp] theorem ledger_readBack (h : List (DomainEvent EventData)) :
    ledger (h.map (readBack account.codec)) = ledger h := by
  rw [ledger, List.map_map]
  congr 2
  funext e
  simp only [Function.comp_apply, change, readBack_data]
  rfl

theorem Exact.of_readBack (hexact : Exact (h.map (readBack account.codec))) : Exact h := by
  intro before hbefore
  rw [← ledger_readBack]
  exact hexact _ (hbefore.map _)

theorem AccountSound.readBack (he : AccountSound h e) :
    AccountSound (h.map (readBack account.codec)) (readBack account.codec e) := by
  refine ⟨he.type, fun htype => ?_, fun htype => ?_, he.opened.trans (by simp), fun htype => ?_,
    fun htype => ?_⟩
  · rw [readBack_data]
    exact he.owner htype
  · rw [readBack_data]
    exact he.amount htype
  · have hcovered := he.covered htype
    rwa [← ledger_readBack, List.map_append] at hcovered
  · rw [ledger_readBack, readBack_data]
    exact he.refused htype

/-- The events of the stream, as the aggregate reads them. -/
def eventsOf (streamUuid : String) (log : List RecordedEvent) : List (DomainEvent EventData) :=
  (onStream streamUuid log).map (recordedToDomain account.codec)

/-- What commands alone write to an account is sound. -/
theorem account_commanded {streamUuid : String} {log : List RecordedEvent}
    (hcommanded : Commanded account h) (hholds : Holds account streamUuid log h)
    (hexact : Exact (eventsOf streamUuid log)) : Justified AccountSound (eventsOf streamUuid log) := by
  have hjustified : Justified SoundIfExact h :=
    hcommanded.justified fun _ _ _ _ hs hexec => account_execute hs hexec
  rw [eventsOf, hholds] at hexact ⊢
  have hsound := sound_of_exact hjustified hexact.of_readBack
  exact Justified.map fun before e after heq => (hsound before e after heq).readBack

/-- A client opens the account, and another one withdraws from it. -/
def sampleAccount : List (Op Bool Unit AccountCommand) :=
  let uuid := "00000000-0000-0000-0000-00000000000"
  let call (i : Bool) (digit : String) : Op Bool Unit AccountCommand := .call i 10 fun _ => uuid ++ digit
  [.start true () (.openAccount "Ada") 5 (uuid ++ "1") none false,
   .start false () (.withdrawFromAccount (.ofInt 5) none none) 5 (uuid ++ "1") none false,
   call true "2", call false "3", call true "2", call true "2", call false "3", call false "3"]

end Account

/-! ## Transfers -/

inductive TransferStage where
  | none
  | requested
  | completed
  | failed
  deriving DecidableEq, Repr

/-- `TransferState` (transfer.ts:38–45). -/
structure TransferState where
  stage : TransferStage
  fromAccount : Option String
  toAccount : Option String
  amount : Option DoubleInt
  transferId : Option String
  reason : Option String
  deriving DecidableEq

/-- The commands of a transfer (commands/transfer). -/
inductive TransferCommand where
  | requestTransfer (transferId fromAccount toAccount : String) (amount : DoubleInt)
  | markTransferCompleted (transferId : String)
  | markTransferFailed (transferId reason : String)
  deriving DecidableEq

def TransferStage.text : TransferStage → String
  | .none => "none"
  | .requested => "requested"
  | .completed => "completed"
  | .failed => "failed"

/-- `Transfer.apply` (transfer.ts:51–66). -/
def TransferState.apply (s : TransferState) (e : DomainEvent EventData) : TransferState :=
  match e.type with
  | "TransferRequested" =>
    ⟨.requested, e.data.fromAccount, e.data.toAccount, e.data.amount, e.data.transferId, none⟩
  | "TransferCompleted" => { s with stage := .completed }
  | "TransferFailed" => { s with stage := .failed, reason := e.data.reason }
  | _ => s

/-- `Transfer.execute` (transfer.ts:68–102). -/
def TransferState.execute (s : TransferState) :
    TransferCommand → Except Thrown (List (NewEvent EventData))
  | .requestTransfer transferId fromAccount toAccount amount =>
    if s.stage ≠ .none then .error (.other ("transfer already " ++ s.stage.text))
    else .ok [newEvent "TransferRequested" { EventData.empty with
      fromAccount := some fromAccount, toAccount := some toAccount, amount := some amount,
      transferId := some transferId }]
  | .markTransferCompleted transferId =>
    if s.stage = .completed then .ok []
    else if s.stage ≠ .requested then
      .error (.other ("cannot complete transfer in stage '" ++ s.stage.text ++ "'"))
    else .ok [newEvent "TransferCompleted" { EventData.empty with transferId := some transferId }]
  | .markTransferFailed transferId reason =>
    if s.stage = .failed then .ok []
    else if s.stage ≠ .requested then
      .error (.other ("cannot fail transfer in stage '" ++ s.stage.text ++ "'"))
    else .ok [newEvent "TransferFailed"
      { EventData.empty with transferId := some transferId, reason := some reason }]

/-- The stage with the name. -/
def TransferStage.ofText : Option String → TransferStage
  | some "requested" => .requested
  | some "completed" => .completed
  | some "failed" => .failed
  | _ => .none

/-- `Transfer` (transfer.ts:47–103), whose states are stored as JSON. -/
def transfer : Deployment Unit TransferState TransferCommand EventData where
  definition _ :=
    { type := "Transfer"
      initialState := ⟨.none, none, none, none, none, none⟩
      execute := TransferState.execute
      apply := TransferState.apply
      snapshotPolicy := none
      snapshotModuleVersion := none }
  codec := codec
    (fun s => .obj (optionalField "stage" (some (.str s.stage.text)) ++
      optionalField "from" (s.fromAccount.map .str) ++ optionalField "to" (s.toAccount.map .str) ++
      optionalField "amount" (s.amount.map ofNumber) ++ optionalField "transferId" (s.transferId.map .str) ++
      optionalField "reason" (s.reason.map .str)))
    (fun j => ⟨.ofText (asText (j.get? "stage")), asText (j.get? "from"), asText (j.get? "to"),
      asNumber (j.get? "amount"), asText (j.get? "transferId"), asText (j.get? "reason")⟩)
  module_eq _ _ _ := ⟨rfl, rfl⟩
  state_roundTrip s := by
    obtain ⟨stage, fromAccount, toAccount, amount, transferId, reason⟩ := s
    have hstage : TransferStage.ofText (asText (some (.str stage.text))) = stage := by
      cases stage <;> rfl
    simp [codec, get?_obj_append, get?_optionalField, hstage]
  apply_readBack _ s e := by
    simp [TransferState.apply, readBack, codec, EventData.parse_stringify]

/-- The events of a transfer: it is requested first, and has at most one outcome. -/
def TransferSound (h : List (DomainEvent EventData)) : Prop :=
  h.map DomainEvent.type ∈ [[], ["TransferRequested"], ["TransferRequested", "TransferCompleted"],
    ["TransferRequested", "TransferFailed"]]

section Transfer

variable {h : List (DomainEvent EventData)}

/-- The transfer after its events. -/
def transferAfter (h : List (DomainEvent EventData)) : TransferState :=
  h.foldl TransferState.apply ⟨.none, none, none, none, none, none⟩

/-- The stage of a transfer, by its events. -/
theorem stage_of_sound (hs : TransferSound h) :
    h.map DomainEvent.type = [] ∧ (transferAfter h).stage = .none ∨
    h.map DomainEvent.type = ["TransferRequested"] ∧ (transferAfter h).stage = .requested ∨
    h.map DomainEvent.type = ["TransferRequested", "TransferCompleted"] ∧
      (transferAfter h).stage = .completed ∨
    h.map DomainEvent.type = ["TransferRequested", "TransferFailed"] ∧
      (transferAfter h).stage = .failed := by
  have htwo : ∀ {type : String}, h.map DomainEvent.type = ["TransferRequested", type] →
      ∃ a b, h = [a, b] ∧ a.type = "TransferRequested" ∧ b.type = type := by
    intro type heq
    obtain ⟨a, t, rfl, ha, ht⟩ := List.map_eq_cons_iff.mp heq
    obtain ⟨b, t, rfl, hb, hnil⟩ := List.map_eq_cons_iff.mp ht
    obtain rfl := List.map_eq_nil_iff.mp hnil
    exact ⟨a, b, rfl, ha, hb⟩
  simp only [TransferSound, List.mem_cons, List.not_mem_nil, or_false] at hs
  rcases hs with heq | heq | heq | heq
  · refine Or.inl ⟨heq, ?_⟩
    obtain rfl := List.map_eq_nil_iff.mp heq
    rfl
  · refine Or.inr (Or.inl ⟨heq, ?_⟩)
    obtain ⟨a, t, rfl, ha, ht⟩ := List.map_eq_cons_iff.mp heq
    obtain rfl := List.map_eq_nil_iff.mp ht
    simp [transferAfter, TransferState.apply, ha]
  · obtain ⟨a, b, rfl, ha, hb⟩ := htwo heq
    refine Or.inr (Or.inr (Or.inl ⟨heq, ?_⟩))
    simp [transferAfter, TransferState.apply, ha, hb]
  · obtain ⟨a, b, rfl, ha, hb⟩ := htwo heq
    refine Or.inr (Or.inr (Or.inr ⟨heq, ?_⟩))
    simp [transferAfter, TransferState.apply, ha, hb]

/-- A command on a transfer keeps it sound. -/
theorem transfer_execute {c : TransferCommand} {events : List (NewEvent EventData)}
    (hs : TransferSound h) (hexec : (transferAfter h).execute c = .ok events) :
    TransferSound (h ++ events.map NewEvent.toDomain) := by
  rw [TransferSound, List.map_append]
  rcases stage_of_sound hs with ⟨heq, hstage⟩ | ⟨heq, hstage⟩ | ⟨heq, hstage⟩ | ⟨heq, hstage⟩ <;>
    cases c <;> simp only [TransferState.execute, hstage] at hexec <;> cases hexec <;>
      simp [heq, newEvent, NewEvent.toDomain]

/-- Two clients race to end a transfer. -/
def sampleTransfer : List (Op Bool Unit TransferCommand) :=
  let uuid := "00000000-0000-0000-0000-00000000000"
  let call (i : Bool) (digit : String) : Op Bool Unit TransferCommand := .call i 10 fun _ => uuid ++ digit
  [.start true () (.requestTransfer "t" "Ada" "Bob" (.ofInt 5)) 5 (uuid ++ "1") none false,
   call true "2", call true "2", call true "2",
   .start true () (.markTransferCompleted "t") 5 (uuid ++ "1") none false,
   .start false () (.markTransferFailed "t" "late") 5 (uuid ++ "1") none false,
   call true "3", call true "3", call false "4", call false "4", call true "3", call false "4"]

end Transfer

end Instructed.BankAccount
