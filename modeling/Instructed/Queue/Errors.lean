import Instructed.Queue.Subscription
import Instructed.Store.Outcome

/-!
# The documented errors

`append_to_stream`, `route_batch` and `claim_subscription` name the SQLSTATEs that they raise. Their
checks look at the keys and the JSON types of an element; the casts come later. What the checks let
through and the casts refuse raises another SQLSTATE.

* `Documented`, `documented_bind_iff`: the errors of a fallible computation, step by step;
* `CleanDecision`, with `WellFormedEvent`: the elements that the casts accept;
* `CleanEvents`, `CleanDecisions`, `CleanStart`: what a call may carry as far as the casts;
* `Procedure`: a call of one of the three;
* `closedErrors_iff`: **a call raises documented errors only, and then changes nothing, just when it is
  clean.**
-/

namespace Instructed

open Sql Relational

/-! ## The errors of a computation -/

/-- Every error that is raised is one of these. -/
def Documented {α : Type} (states : List SqlState) (x : Except SqlError α) : Prop :=
  ∀ e, x = .error e → e.sqlstate ∈ states

section Documented

variable {α β : Type} {states : List SqlState} {x : Except SqlError α} {f : α → Except SqlError β}

@[simp] theorem documented_ok (a : α) : Documented states (.ok a) := fun _ h => nomatch h

@[simp] theorem documented_error (e : SqlError) :
    Documented states (.error e : Except SqlError α) ↔ e.sqlstate ∈ states :=
  ⟨fun h => h e rfl, fun h _ he => Except.error.inj he ▸ h⟩

@[simp] theorem documented_raise (s : SqlState) (message : String) :
    Documented states (raise s message : Except SqlError α) ↔ s ∈ states :=
  documented_error _

/-- A sequence whose first step raises documented errors only. -/
theorem documented_bind_iff (hx : Documented states x) :
    Documented states (x >>= f) ↔ ∀ a, x = .ok a → Documented states (f a) := by
  cases x with
  | ok a =>
    constructor
    · intro h b hb
      rw [← Except.ok.inj hb]
      exact h
    · intro h
      exact h a rfl
  | error e =>
    rw [error_bind]
    refine iff_of_true ?_ fun a ha => nomatch ha
    rw [documented_error] at hx ⊢
    exact hx

/-- A sequence whose continuation raises documented errors only. -/
theorem documented_bind_left (hf : ∀ a, Documented states (f a)) :
    Documented states (x >>= f) ↔ Documented states x := by
  cases x with
  | ok a => exact iff_of_true (hf a) (documented_ok a)
  | error e => exact (documented_error e).trans (documented_error e).symm

theorem documented_map {g : α → β} : Documented states (x.map g) ↔ Documented states x := by
  cases x with
  | ok a => exact iff_of_true (documented_ok _) (documented_ok _)
  | error e => exact (documented_error e).trans (documented_error e).symm

/-- When no error of a computation is documented, it must succeed. -/
theorem documented_iff_ok (hx : ∀ e, x = .error e → e.sqlstate ∉ states) :
    Documented states x ↔ ∃ a, x = .ok a := by
  cases x with
  | ok a => exact iff_of_true (documented_ok a) ⟨a, rfl⟩
  | error e => exact iff_of_false (fun h => hx e rfl (h e rfl)) fun ⟨a, ha⟩ => nomatch ha

theorem exists_mem_of_mapM_ok {g : α → Except SqlError β} {xs : List α} {ys : List β}
    (h : xs.mapM g = .ok ys) {a : α} (ha : a ∈ xs) : ∃ b ∈ ys, g a = .ok b := by
  induction xs generalizing ys with
  | nil => cases ha
  | cons x xs ih =>
    rw [List.mapM_cons] at h
    obtain ⟨b, hb, h⟩ := bind_eq_ok.mp h
    obtain ⟨zs, hzs, h⟩ := bind_eq_ok.mp h
    obtain rfl := Except.ok.inj h
    rcases List.mem_cons.mp ha with rfl | ha
    · exact ⟨b, List.mem_cons_self, hb⟩
    · obtain ⟨c, hc, hg⟩ := ih hzs ha
      exact ⟨c, List.mem_cons_of_mem _ hc, hg⟩

end Documented

/-! ## Three-valued checks -/

theorem sqlOr_ne_true_iff {a b : Option Bool} :
    sqlOr a b ≠ some true ↔ a ≠ some true ∧ b ≠ some true := by
  rcases a with - | - | - <;> rcases b with - | - | - <;> simp [sqlOr]

/-- A check that lets a value through has found the type or no value. -/
theorem typeof_of_typeofNe {j : Option Json} {t : String} (h : typeofNe j t ≠ some true) :
    ∀ v ∈ j, v.typeof = t := by
  intro v hv
  rw [Option.mem_def.mp hv] at h
  simpa [typeofNe] using h

theorem get?_of_getText? {j : Json} {k t : String} (h : j.getText? k = some t) :
    ∃ v, j.get? k = some v := by
  unfold Json.getText? at h
  split at h
  · cases h
  · cases h
  · exact ⟨_, by assumption⟩
  · exact ⟨_, by assumption⟩

theorem eq_str_of_typeof {v : Json} (h : v.typeof = "string") : ∃ s, v = .str s := by
  cases v with
  | str s => exact ⟨s, rfl⟩
  | _ => simp [Json.typeof] at h

/-! ## Parameter checks -/

section Checks

variable {states : List SqlState} {proc param : String}

theorem documented_notNull {α : Type} {p : Option α} (h : .invalidParameterValue ∈ states) :
    Documented states (notNull proc param p) := by
  cases p with
  | none => exact (documented_raise _ _).mpr h
  | some a => exact documented_ok a

theorem documented_notEmpty {p : Option String} (h : .invalidParameterValue ∈ states) :
    Documented states (notEmpty proc param p) := by
  unfold notEmpty
  split
  · exact (documented_raise _ _).mpr h
  · exact (documented_raise _ _).mpr h
  · exact documented_ok _

theorem documented_positive {p : Option ℤ} (h : .invalidParameterValue ∈ states) :
    Documented states (positive proc param p) := by
  unfold positive
  split
  · split_ifs
    · exact (documented_raise _ _).mpr h
    · exact documented_ok _
  · exact (documented_raise _ _).mpr h

theorem documented_nonNegative {p : Option ℤ} (h : .invalidParameterValue ∈ states) :
    Documented states (nonNegative proc param p) := by
  unfold nonNegative
  split
  · split_ifs
    · exact (documented_raise _ _).mpr h
    · exact documented_ok _
  · exact (documented_raise _ _).mpr h

theorem documented_requireStream {u : String} {st : Store} (h : .IS020 ∈ states) :
    Documented states (requireStream proc u st) := by
  unfold requireStream
  split
  · exact documented_ok _
  · exact (documented_raise _ _).mpr h

theorem documented_requireSubscription {streamId : ℕ} {name u : String} {st : Store}
    (h : .IS020 ∈ states) : Documented states (requireSubscription proc streamId name u st) := by
  unfold requireSubscription
  split
  · exact documented_ok _
  · exact (documented_raise _ _).mpr h

theorem ne_of_notEmpty_ok {p : Option String} {s : String} (h : notEmpty proc param p = .ok s) :
    s ≠ "" := by
  unfold notEmpty at h
  split at h
  · cases h
  · cases h
  · rename_i hne
    obtain rfl := Except.ok.inj h
    exact hne

end Checks

/-! ## `route_batch` -/

/-- An object with a text and an integer of the range of `bigint`. -/
structure CleanDecision (d : Json) : Prop where
  partition_key : ∃ p, d.get? "partition_key" = some (.str p)
  event_number : ∃ n, d.get? "event_number" = some (.int n) ∧ inBigint n = true

/-- The SQLSTATEs that `route_batch` documents. -/
def routeBatchStates : List SqlState := [.IS020, .IS022, .invalidParameterValue]

section Decisions

variable {d : Json} {streamId : ℕ} {name : String}

theorem bigintOfNumeric_ok {x : Numeric} {n : ℤ} :
    bigintOfNumeric x = .ok n ↔ Json.num x = .int n ∧ inBigint n = true := by
  obtain ⟨unscaled, scale⟩ := x
  unfold bigintOfNumeric
  simp only [Json.int, Json.num.injEq, Numeric.mk.injEq]
  split_ifs with hscale hrange
  · simp [raise, hscale]
  · constructor
    · intro h
      obtain rfl := Except.ok.inj h
      exact ⟨⟨rfl, not_not.mp hscale⟩, hrange⟩
    · rintro ⟨⟨rfl, -⟩, -⟩
      rfl
  · simp only [raise, reduceCtorEq, false_iff, not_and]
    rintro ⟨rfl, -⟩
    exact hrange

theorem bigintOfNumeric_error {x : Numeric} {e : SqlError} (h : bigintOfNumeric x = .error e) :
    e.sqlstate ∉ routeBatchStates := by
  unfold bigintOfNumeric at h
  split_ifs at h
  · obtain rfl := Except.error.inj h
    decide
  · obtain rfl := Except.error.inj h
    decide

theorem decisionRow_error {e : SqlError} (h : decisionRow streamId name d = .error e) :
    e.sqlstate ∉ routeBatchStates := by
  unfold decisionRow at h
  split at h
  · rename_i p x _ _
    cases hx : bigintOfNumeric x with
    | ok n =>
      rw [hx] at h
      cases h
    | error e' =>
      rw [hx] at h
      obtain rfl := Except.error.inj h
      exact bigintOfNumeric_error hx
  · obtain rfl := Except.error.inj h
    decide

/-- The casts accept an element that the check lets through just when it is clean. -/
theorem decisionRow_ok_iff (h : misshapenDecision d ≠ some true) :
    (∃ row, decisionRow streamId name d = .ok row) ↔ CleanDecision d := by
  constructor
  · rintro ⟨row, hrow⟩
    unfold decisionRow at hrow
    split at hrow
    · rename_i p x hp hx
      obtain ⟨n, hn, -⟩ := bind_eq_ok.mp hrow
      obtain ⟨heq, hrange⟩ := bigintOfNumeric_ok.mp hn
      refine ⟨?_, n, heq ▸ hx, hrange⟩
      obtain ⟨v, hv⟩ := get?_of_getText? hp
      simp only [misshapenDecision, sqlOr_ne_true_iff] at h
      obtain ⟨-, -, htype, -⟩ := h
      obtain ⟨s, rfl⟩ := eq_str_of_typeof (typeof_of_typeofNe htype v hv)
      exact ⟨s, hv⟩
    · cases hrow
  · rintro ⟨⟨p, hp⟩, n, hn, hrange⟩
    have hcast : bigintOfNumeric ⟨n, 0⟩ = .ok n := bigintOfNumeric_ok.mpr ⟨rfl, hrange⟩
    rw [decisionRow, getText?_of_str hp, hn]
    refine ⟨⟨streamId, name, p, n, .pending, none, none, none, none⟩, ?_⟩
    show (bigintOfNumeric ⟨n, 0⟩ >>= _) = _
    rw [hcast]
    rfl

theorem mem_decisionsOf {decisions : Option Json} {ds : List Json} (h : decisionsOf decisions = .ok ds)
    (hd : d ∈ ds) : misshapenDecision d ≠ some true := by
  unfold decisionsOf at h
  split at h
  · split_ifs at h with hany
    · cases h
    · obtain rfl := Except.ok.inj h
      simp only [List.any_eq_true, decide_eq_true_eq, not_exists, not_and] at hany
      exact hany d hd
  · cases h

theorem documented_decisionsOf (decisions : Option Json) :
    Documented routeBatchStates (decisionsOf decisions) := by
  unfold decisionsOf
  split
  · split_ifs
    · simp [routeBatchStates]
    · simp
  · simp [routeBatchStates]

/-- The batch is inserted just when all its elements are clean. -/
theorem documented_decisions {decisions : Option Json} {ds : List Json}
    (h : decisionsOf decisions = .ok ds) :
    Documented routeBatchStates (ds.mapM (decisionRow streamId name)) ↔ ∀ d ∈ ds, CleanDecision d := by
  rw [documented_iff_ok fun e he => by
    obtain ⟨d, -, hd⟩ := mapM_eq_error he
    exact decisionRow_error hd]
  constructor
  · rintro ⟨items, hitems⟩ d hd
    obtain ⟨row, -, hrow⟩ := exists_mem_of_mapM_ok hitems hd
    exact (decisionRow_ok_iff (mem_decisionsOf h hd)).mp ⟨row, hrow⟩
  · intro hclean
    exact mapM_ok_of_forall fun d hd => (decisionRow_ok_iff (mem_decisionsOf h hd)).mpr (hclean d hd)

/-- The checks of `route_batch` let the elements `ds` through, for the subscription `name` of the
    stream `streamId`. -/
structure RouteReached (st : Store) (streamUuid subscriptionName workerId : Option String)
    (newCursor : Option ℤ) (decisions : Option Json) (streamId : ℕ) (name : String)
    (ds : List Json) : Prop where
  stream : ∃ u row, streamUuid = some u ∧ st.streamByUuid u = some row ∧ row.streamId = streamId
  subscription : subscriptionName = some name ∧ name ≠ ""
  holder : ∃ worker row, workerId = some worker ∧ worker ≠ "" ∧
    st.subscriptions.find? (streamId, name) = some row ∧ row.claimedBy = some worker
  cursor : ∃ n, newCursor = some n ∧ 0 ≤ n
  decisions : decisionsOf decisions = .ok ds

/-- The elements that reach the casts of `route_batch` are clean. -/
def CleanDecisions (st : Store) (streamUuid subscriptionName workerId : Option String)
    (newCursor : Option ℤ) (decisions : Option Json) : Prop :=
  ∀ streamId name ds,
    RouteReached st streamUuid subscriptionName workerId newCursor decisions streamId name ds →
    ∀ d ∈ ds, CleanDecision d

section Route

variable {st : Store} {streamUuid subscriptionName workerId : Option String} {newCursor : Option ℤ}
  {decisions : Option Json}

/-- The casts of a batch that the checks let through decide its outcome. -/
theorem RouteReached.documented_iff {ds : List Json}
    (h : RouteReached st streamUuid subscriptionName workerId newCursor decisions streamId name ds) :
    Documented routeBatchStates
        (routeBatch streamUuid subscriptionName workerId newCursor decisions st) ↔
      Documented routeBatchStates (ds.mapM (decisionRow streamId name)) := by
  obtain ⟨⟨u, stream, rfl, hstream, rfl⟩, ⟨rfl, hname⟩, ⟨worker, row, rfl, hworker, hrow, hholder⟩,
    ⟨n, rfl, hn⟩, hds⟩ := h
  obtain ⟨cursor, rfl⟩ := Int.eq_ofNat_of_zero_le hn
  have hcall : routeBatch (some u) (some name) (some worker) (some (cursor : ℤ)) decisions st =
      ds.mapM (decisionRow stream.streamId name) >>= fun items =>
        let row' := { row with lastSeen := max row.lastSeen cursor }
        let st' := (st.insertItems items).putSubscription row'
        pure ((st'.workItems.rows.length - st.workItems.rows.length, row'.lastSeen), st') := by
    simp only [routeBatch, notNull, notEmpty_of_ne hname, notEmpty_of_ne hworker,
      nonNegative_of_nat, hds, requireStream, hstream, requireSubscription, hrow, hholder, ok_bind,
      ne_eq, not_true_eq_false, if_false]
  rw [hcall, documented_bind_left]
  exact fun items => documented_ok _

/-- Every other error of `route_batch` is a documented one. -/
theorem documented_routeBatch :
    Documented routeBatchStates
        (routeBatch streamUuid subscriptionName workerId newCursor decisions st) ↔
      CleanDecisions st streamUuid subscriptionName workerId newCursor decisions := by
  constructor
  · intro h streamId name ds hreached
    exact (documented_decisions hreached.decisions).mp (hreached.documented_iff.mp h)
  · intro hclean
    rw [routeBatch, documented_bind_iff (documented_notNull (by decide))]
    intro u hu
    rw [documented_bind_iff (documented_notEmpty (by decide))]
    intro name hname
    rw [documented_bind_iff (documented_notEmpty (by decide))]
    intro worker hworker
    rw [documented_bind_iff (documented_nonNegative (by decide))]
    intro cursor hcursor
    rw [documented_bind_iff (documented_decisionsOf _)]
    intro ds hds
    rw [documented_bind_iff (documented_requireStream (by decide))]
    intro stream hstream
    rw [documented_bind_iff (documented_requireSubscription (by decide))]
    intro row hrow
    split_ifs with hholder
    · exact (documented_raise _ _).mpr (by decide)
    · refine (documented_bind_left fun items => documented_ok _).mpr ?_
      refine (documented_decisions hds).mpr (hclean stream.streamId name ds ⟨?_, ?_, ?_, ?_, hds⟩)
      · exact ⟨u, stream, notNull_ok hu, requireStream_ok hstream, rfl⟩
      · exact ⟨notEmpty_ok hname, ne_of_notEmpty_ok hname⟩
      · exact ⟨worker, row, notEmpty_ok hworker, ne_of_notEmpty_ok hworker,
          requireSubscription_ok hrow, not_not.mp hholder⟩
      · exact ⟨cursor, nonNegative_ok hcursor, Int.natCast_nonneg cursor⟩

end Route

end Decisions

/-! ## `append_to_stream` -/

/-- The SQLSTATEs that `append_to_stream` documents. -/
def appendStates : List SqlState := [.IS001, .IS002, .IS003, .IS004, .IS005, .invalidParameterValue]

section Append

variable {evt : Json} {events : List Json} {now : Timestamp}

theorem documented_validateAppend (a : AppendArgs) : Documented appendStates (validateAppend a) := by
  intro e h
  rcases validateAppend_sqlstate h with hstate | hstate
  · simp [hstate, appendStates]
  · simp [hstate, appendStates]

/-- The casts raise no documented error. -/
theorem newEvents_error {e : SqlError} (h : newEvents now events = .error e) :
    e.sqlstate ∉ appendStates := by
  rcases newEvents_sqlstate h with hstate | hstate
  · simp [hstate, appendStates]
  · simp [hstate, appendStates]

theorem exists_get?_of_hasKey {fields : List (String × Json)} {k : String}
    (h : (Json.obj fields).hasKey k = true) : ∃ v, (Json.obj fields).get? k = some v := by
  obtain ⟨f, hf, hk⟩ := List.any_eq_true.mp h
  have hfind : (fields.find? fun f => f.1 = k).isSome = true :=
    List.find?_isSome.mpr ⟨f, hf, hk⟩
  obtain ⟨g, hg⟩ := Option.isSome_iff_exists.mp hfind
  exact ⟨g.2, Option.map_eq_some_iff.mpr ⟨g, hg, rfl⟩⟩

/-- An element that the shape check lets through, the casts and the `not null` columns accept only
    when it is well formed. -/
theorem wellFormedEvent_of_ok {row : NewEventRow} {e : EventRow} (h : misshapen evt ≠ some true)
    (hrow : newEventRow evt = .ok row) (he : row.toEventRow now = .ok e) : WellFormedEvent evt := by
  simp only [misshapen, sqlOr_ne_true_iff] at h
  obtain ⟨-, -, hdata, htype, hid⟩ := h
  obtain ⟨id, hcast, hrow⟩ := bind_eq_ok.mp hrow
  obtain ⟨causation, hcausation, hrow⟩ := bind_eq_ok.mp hrow
  obtain ⟨correlation, hcorrelation, hrow⟩ := bind_eq_ok.mp hrow
  obtain rfl := Except.ok.inj hrow
  unfold NewEventRow.toEventRow at he
  split at he
  · rename_i u t hu ht
    dsimp only at hu ht
    obtain ⟨v, hv⟩ := get?_of_getText? ht
    obtain ⟨s, rfl⟩ := eq_str_of_typeof (typeof_of_typeofNe htype v hv)
    have hkey : ∃ s, evt.getText? "event_id" = some s ∧ uuidOfText s = some u := by
      rw [hu] at hcast
      unfold castUuid at hcast
      split at hcast
      · cases hcast
      · rename_i s hs
        split at hcast
        · rename_i u' hu'
          cases hcast
          exact ⟨s, hs, hu'⟩
        · cases hcast
    obtain ⟨s', hs', hu'⟩ := hkey
    obtain ⟨w, hw⟩ := get?_of_getText? hs'
    obtain ⟨s'', rfl⟩ := eq_str_of_typeof (typeof_of_typeofNe hid w hw)
    rw [getText?_of_str hw] at hs'
    obtain rfl := Option.some.inj hs'
    refine ⟨⟨s'', u, hw, hu'⟩, ⟨s, hv⟩, ?_, ⟨causation, hcausation⟩, ⟨correlation, hcorrelation⟩⟩
    cases evt with
    | obj fields => exact exists_get?_of_hasKey (by simpa using hdata)
    | _ => cases hv
  · cases he

theorem mem_eventsOf {items : Option Json} {es : { es : List Json // es ≠ [] }}
    (h : eventsOf items = .ok es) (hevt : evt ∈ es.val) : misshapen evt ≠ some true := by
  unfold eventsOf at h
  split at h
  · split_ifs at h with hnil hshape hid
    · cases h
    · cases h
    · cases h
    · obtain rfl := Except.ok.inj h
      simp only [List.any_eq_true, decide_eq_true_eq, not_exists, not_and] at hshape
      exact hshape evt hevt
  · cases h

/-- The rows of a checked batch can be built just when all its elements are well formed. -/
theorem documented_newEvents (h : ∀ evt ∈ events, misshapen evt ≠ some true) :
    Documented appendStates (newEvents now events) ↔ ∀ evt ∈ events, WellFormedEvent evt := by
  rw [documented_iff_ok fun e he => newEvents_error he]
  constructor
  · rintro ⟨es, hes⟩ evt hevt
    obtain ⟨rows, hrows, hes⟩ := bind_eq_ok.mp hes
    obtain ⟨row, hmem, hrow⟩ : ∃ row ∈ rows, newEventRow evt = .ok row :=
      exists_mem_of_mapM_ok hrows hevt
    obtain ⟨e, -, he⟩ := exists_mem_of_mapM_ok hes hmem
    exact wellFormedEvent_of_ok (h evt hevt) hrow he
  · intro hwf
    obtain ⟨es, hes, -⟩ := newEvents_ok hwf now
    exact ⟨es, hes⟩

theorem documented_checkExpected (log : List RecordedEvent) (u : String) (x : ExpectedVersion) :
    Documented appendStates (checkExpected log u x) := by
  unfold checkExpected
  split
  · exact documented_ok _
  · split_ifs
    · exact documented_ok _
    · simp [appendStates]
  · split_ifs
    · simp [appendStates, streamMissing]
    · exact documented_ok _
  · split_ifs
    · exact documented_ok _
    · simp [appendStates, streamMissingAt]
    · simp [appendStates]
    · exact documented_ok _

/-- The elements that reach the casts of `append_to_stream` are well formed. -/
def CleanEvents (st : Store) (a : AppendArgs) : Prop :=
  ∀ r, validateAppend a = .ok r → VersionOk st r.streamUuid r.expected →
    ∀ evt ∈ r.events, WellFormedEvent evt

theorem documented_append {db : Db} (hc : db.Consistent) (now : Timestamp) (a : AppendArgs) :
    Documented appendStates (db.append now a).1 ↔ CleanEvents db.store a := by
  have hcall : (db.append now a).1 = (appendCall now a db.store.log).map _ :=
    (hc.append_refines (now, a)).1
  rw [hcall, documented_map, appendCall, documented_bind_iff (documented_validateAppend a)]
  refine forall₂_congr fun r hr => ?_
  obtain ⟨-, -, hne, hev⟩ := validateAppend_ok hr
  have hlog : Documented appendStates (appendLog now r db.store.log) ↔
      (checkExpected db.store.log r.streamUuid r.expected = .ok () →
        ∀ evt ∈ r.events, WellFormedEvent evt) := by
    have hrows : Documented appendStates (newEvents now r.events >>= fun es =>
          if FreshIds db.store.log es then pure (recordBatch db.store.log r.streamUuid es)
          else throw EventsConstraint.eventsPkey.toError) ↔ ∀ evt ∈ r.events, WellFormedEvent evt := by
      rw [documented_bind_left, documented_newEvents fun evt hevt => mem_eventsOf hev hevt]
      intro es
      split_ifs
      · exact documented_ok _
      · exact (documented_error _).mpr (by decide)
    rw [appendLog, documented_bind_iff (documented_checkExpected _ _ _)]
    exact ⟨fun h hok => hrows.mp (h () hok), fun h _ hok => hrows.mpr (h hok)⟩
  rw [hlog]
  refine imp_congr_left ⟨fun hok => ?_, fun hversion => ?_⟩
  · by_contra hversion
    obtain ⟨message, herror⟩ := checkExpected_of_not_versionOk hc.store r.not_all hversion
    rw [herror] at hok
    cases hok
  · exact checkExpected_of_versionOk hc.store r.not_all hversion

end Append

/-! ## `claim_subscription` -/

/-- The SQLSTATEs that `claim_subscription` documents. -/
def claimSubscriptionStates : List SqlState := [.IS003, .invalidParameterValue]

/-- The text of an integer that `bigint` does not hold. -/
def OutOfRange (s : String) : Prop :=
  ∃ e, bigintOfText s = .error e ∧ e.sqlstate = .numericValueOutOfRange

/-- The text of `start_from`. -/
def startFrom (options : Option Json) : String :=
  (options.bind fun o => o.getText? "start_from").getD "origin"

/-- A `start_from` that reaches the cast of `claim_subscription` is in range. -/
def CleanStart (st : Store) (streamUuid subscriptionName workerId : Option String)
    (leaseSeconds : Option ℤ) (options : Option Json) : Prop :=
  ∀ u stream name worker secs, streamUuid = some u → subscriptionName = some name → name ≠ "" →
    workerId = some worker → worker ≠ "" → leaseSeconds = some secs → 0 < secs →
    st.streamByUuid u = some stream → st.subscriptions.find? (stream.streamId, name) = none →
    ¬ OutOfRange (startFrom options)

theorem bigintOfText_error {s : String} {e : SqlError} (h : bigintOfText s = .error e) :
    e.sqlstate = .invalidTextRepresentation ∨ e.sqlstate = .numericValueOutOfRange := by
  unfold bigintOfText at h
  dsimp only at h
  split at h
  · cases h
    exact Or.inl rfl
  · cases h
    exact Or.inr rfl
  · split_ifs at h
    all_goals cases h
    · exact Or.inl rfl
    · exact Or.inr rfl
    · exact Or.inr rfl

theorem documented_startCursor {s : String} {stream : StreamRow} :
    Documented claimSubscriptionStates (startCursor s stream) ↔ ¬ OutOfRange s := by
  have horigin : ¬ OutOfRange "origin" := by
    rintro ⟨e, he, hstate⟩
    cases he
    cases hstate
  have hcurrent : ¬ OutOfRange "current" := by
    rintro ⟨e, he, hstate⟩
    cases he
    cases hstate
  unfold startCursor
  split_ifs with ho hc
  · exact iff_of_true (documented_ok _) (ho ▸ horigin)
  · exact iff_of_true (documented_ok _) (hc ▸ hcurrent)
  · cases h : bigintOfText s with
    | ok n =>
      refine iff_of_true ?_ fun ⟨e, he, _⟩ => nomatch h.symm.trans he
      dsimp only
      split_ifs
      · exact (documented_raise _ _).mpr (by decide)
      · exact documented_ok _
    | error e =>
      dsimp only
      rcases bigintOfText_error h with hstate | hstate
      · rw [if_pos hstate]
        refine iff_of_true ((documented_raise _ _).mpr (by decide)) ?_
        rintro ⟨e', he', hstate'⟩
        obtain rfl := Except.error.inj (h.symm.trans he')
        rw [hstate] at hstate'
        cases hstate'
      · rw [if_neg (by rw [hstate]; decide), documented_error]
        refine iff_of_false (by rw [hstate]; decide) ?_
        exact fun hnot => hnot ⟨e, h, hstate⟩

section Claim

variable {now : Timestamp} {st : Store} {streamUuid subscriptionName workerId : Option String}
  {leaseSeconds : Option ℤ} {options : Option Json}

theorem documented_claimSubscription :
    Documented claimSubscriptionStates
        (claimSubscription now streamUuid subscriptionName workerId leaseSeconds options st) ↔
      CleanStart st streamUuid subscriptionName workerId leaseSeconds options := by
  constructor
  · rintro h u stream name worker secs rfl rfl hname rfl hworker rfl hsecs hstream hnone
    have hcall : claimSubscription now (some u) (some name) (some worker) (some secs) options st =
        startCursor (startFrom options) stream >>= fun initial =>
          let row := ⟨stream.streamId, name, initial, some worker, some (addSeconds now secs)⟩
          pure (⟨.claimed, initial, some worker, some (addSeconds now secs)⟩,
            st.putSubscription row) := by
      simp only [claimSubscription, notNull, notEmpty_of_ne hname, notEmpty_of_ne hworker,
        positive_of_pos hsecs, ok_bind, hstream, hnone, startFrom]
    rw [hcall] at h
    exact documented_startCursor.mp ((documented_bind_left fun initial => documented_ok _).mp h)
  · intro hclean
    rw [claimSubscription, documented_bind_iff (documented_notNull (by decide))]
    intro u hu
    rw [documented_bind_iff (documented_notEmpty (by decide))]
    intro name hname
    rw [documented_bind_iff (documented_notEmpty (by decide))]
    intro worker hworker
    rw [documented_bind_iff (documented_positive (by decide))]
    intro secs hsecs
    obtain ⟨hsecs, hpos⟩ := positive_ok hsecs
    dsimp only
    split
    · exact (documented_raise _ _).mpr (by decide)
    · rename_i stream hstream
      split
      · rename_i hnone
        refine (documented_bind_left fun initial => documented_ok _).mpr ?_
        exact documented_startCursor.mpr (hclean u stream name worker secs (notNull_ok hu)
          (notEmpty_ok hname) (ne_of_notEmpty_ok hname) (notEmpty_ok hworker)
          (ne_of_notEmpty_ok hworker) hsecs hpos hstream hnone)
      · split_ifs
        · exact documented_ok _
        · exact documented_ok _
        · exact documented_ok _

end Claim

/-! ## The calls -/

/-- A call of one of the three procedures. -/
inductive Procedure where
  | append (now : Timestamp) (a : AppendArgs)
  | routeBatch (streamUuid subscriptionName workerId : Option String) (newCursor : Option ℤ)
      (decisions : Option Json)
  | claimSubscription (now : Timestamp) (streamUuid subscriptionName workerId : Option String)
      (leaseSeconds : Option ℤ) (options : Option Json)

namespace Procedure

/-- What a result raises, and the tables after it: an error rolls the call back. -/
def outcome {α : Type} (db : Db) : Except SqlError (α × Store) → Option SqlError × Db
  | .ok (_, st) => (none, { db with store := st })
  | .error e => (some e, db)

/-- The error that the call raises, if any, and the database after it. -/
def run (db : Db) : Procedure → Option SqlError × Db
  | append now a =>
    (match (db.append now a).1 with
      | .ok _ => none
      | .error e => some e, (db.append now a).2)
  | routeBatch streamUuid subscriptionName workerId newCursor decisions =>
    outcome db
      (Instructed.routeBatch streamUuid subscriptionName workerId newCursor decisions db.store)
  | claimSubscription now streamUuid subscriptionName workerId leaseSeconds options =>
    outcome db (Instructed.claimSubscription now streamUuid subscriptionName workerId leaseSeconds
      options db.store)

/-- The SQLSTATEs that the procedure documents. -/
def documented : Procedure → List SqlState
  | append .. => appendStates
  | routeBatch .. => routeBatchStates
  | claimSubscription .. => claimSubscriptionStates

/-- What reaches a cast is accepted by it. -/
def Clean (st : Store) : Procedure → Prop
  | append _ a => CleanEvents st a
  | routeBatch streamUuid subscriptionName workerId newCursor decisions =>
    CleanDecisions st streamUuid subscriptionName workerId newCursor decisions
  | claimSubscription _ streamUuid subscriptionName workerId leaseSeconds options =>
    CleanStart st streamUuid subscriptionName workerId leaseSeconds options

end Procedure

/-- The call raises documented errors only, and one that it raises leaves the tables alone. -/
def ClosedErrors (p : Procedure) (db : Db) : Prop :=
  ∀ e, (p.run db).1 = some e → e.sqlstate ∈ p.documented ∧ (p.run db).2.store = db.store

theorem closedErrors_outcome {α : Type} {states : List SqlState} {db : Db}
    {x : Except SqlError (α × Store)} :
    (∀ e, (Procedure.outcome db x).1 = some e →
        e.sqlstate ∈ states ∧ (Procedure.outcome db x).2.store = db.store) ↔
      Documented states x := by
  cases x with
  | ok r => exact iff_of_true (fun e h => nomatch h) (documented_ok r)
  | error e =>
    rw [documented_error]
    constructor
    · intro h
      exact (h e rfl).1
    · rintro hstate e' he'
      obtain rfl := Option.some.inj he'
      exact ⟨hstate, rfl⟩

/-- **The error sets are closed for the clean calls, and for no others.** -/
theorem closedErrors_iff {db : Db} (hdb : db.Reachable) (p : Procedure) :
    ClosedErrors p db ↔ p.Clean db.store := by
  cases p with
  | append now a =>
    refine Iff.trans ?_ (documented_append hdb.consistent now a)
    constructor
    · intro h e he
      exact (h e (by simp only [Procedure.run, he])).1
    · intro h e he
      cases hres : (db.append now a).1 with
      | ok rows => simp only [Procedure.run, hres, reduceCtorEq] at he
      | error e' =>
        simp only [Procedure.run, hres] at he
        obtain rfl := Option.some.inj he
        exact ⟨h _ hres, Db.append_error hres⟩
  | routeBatch streamUuid subscriptionName workerId newCursor decisions =>
    exact closedErrors_outcome.trans documented_routeBatch
  | claimSubscription now streamUuid subscriptionName workerId leaseSeconds options =>
    exact closedErrors_outcome.trans documented_claimSubscription

/-- A database whose subscription `mailer` on `$all` is leased to the worker `w`. -/
def sampleLeased : Db :=
  { Db.install with
    store := Db.install.store.putSubscription ⟨0, "mailer", 0, some "w", some 100⟩ }

theorem sampleLeased_reachable : sampleLeased.Reachable :=
  .other .install ⟨rfl, rfl, rfl⟩

/-- A decision on a whole event. -/
def sampleDecision (n : ℤ) : Json := .obj [("partition_key", .str "p"), ("event_number", .int n)]

/-- A batch of two decisions by the holder of the lease: its elements are clean, and it succeeds. -/
theorem closedErrors_iff_sampleLeased :
    let batch : Procedure := .routeBatch (some "$all") (some "mailer") (some "w") (some 2)
      (some (.arr [sampleDecision 1, sampleDecision 2]))
    ClosedErrors batch sampleLeased ∧ (batch.run sampleLeased).1 = none ∧
      (batch.run sampleLeased).2.store.workItems.rows.length = 2 := by
  refine ⟨(closedErrors_iff sampleLeased_reachable _).mpr ?_, by decide +kernel, by decide +kernel⟩
  intro streamId name ds hreached d hd
  have hds : decisionsOf (some (.arr [sampleDecision 1, sampleDecision 2])) =
      .ok [sampleDecision 1, sampleDecision 2] := rfl
  obtain rfl := Except.ok.inj (hds.symm.trans hreached.decisions)
  rcases List.mem_pair.mp hd with rfl | rfl
  · exact ⟨⟨"p", rfl⟩, 1, rfl, by decide⟩
  · exact ⟨⟨"p", rfl⟩, 2, rfl, by decide⟩

theorem not_closedErrors {p : Procedure} {db : Db} {e : SqlError} (h : (p.run db).1 = some e)
    (hstate : e.sqlstate ∉ p.documented) : ¬ ClosedErrors p db :=
  fun hclosed => hstate (hclosed e h).1

/-- An event whose causation id is not a UUID. -/
def sampleCausation : Json :=
  .obj [("event_id", .str "00000000-0000-0000-0000-000000000001"), ("event_type", .str "opened"),
    ("data", .null), ("causation_id", .str "x")]

/-- An array that has the three keys as elements. -/
def sampleKeys : Json := .arr [.str "event_id", .str "event_type", .str "data"]

/-- A decision on half an event. -/
def sampleHalf : Json := .obj [("partition_key", .str "p"), ("event_number", .num ⟨15, 1⟩)]

/-- The options of a claim that starts behind the last `bigint`. -/
def sampleStart : Json := .obj [("start_from", .str "9223372036854775808")]

/-- **The error sets are not closed.** The casts of a causation id, of half an event number and of a
    large `start_from` raise errors of their own, and so does the `not null` column of an array that
    has the three keys. -/
theorem closedErrors_fails :
    ¬ ClosedErrors (.append 10 ⟨some "orders", some "any", none, some (.arr [sampleCausation])⟩)
        Db.install ∧
      ¬ ClosedErrors (.append 10 ⟨some "orders", some "any", none, some (.arr [sampleKeys])⟩)
        Db.install ∧
      (sampleLeased.Reachable ∧ ¬ ClosedErrors (.routeBatch (some "$all") (some "mailer") (some "w")
        (some 1) (some (.arr [sampleHalf]))) sampleLeased) ∧
      ¬ ClosedErrors (.claimSubscription 10 (some "$all") (some "mailer") (some "w") (some 60)
        (some sampleStart)) Db.install := by
  refine ⟨?_, ?_, ⟨sampleLeased_reachable, ?_⟩, ?_⟩
  · refine not_closedErrors
      (e := ⟨.invalidTextRepresentation, "invalid input syntax for type uuid"⟩) ?_ ?_
    · decide +kernel
    · decide
  · refine not_closedErrors
      (e := ⟨.notNullViolation, "null value in column of relation \"events\""⟩) ?_ ?_
    · decide +kernel
    · decide
  · refine not_closedErrors
      (e := ⟨.invalidTextRepresentation, "invalid input syntax for type bigint"⟩) ?_ ?_
    · decide +kernel
    · decide
  · refine not_closedErrors
      (e := ⟨.numericValueOutOfRange, "value is out of range for type bigint"⟩) ?_ ?_
    · decide +kernel
    · decide

end Instructed
