import Instructed.Consistency.Wait
import Instructed.Lib.System
import Mathlib.Order.Bounds.Basic

/-!
# What a wait waits for

`waitForProjection` keeps the refs that are still missing in a `Map` under `refKey`, which joins the two
names of a ref with `::`. Names may hold `::` themselves, and then two refs share a key and one of them
is never asked for.

* `Wait.receive`, `Wait.answer_eq`: the loop on an arbitrary answer of the predicate;
* `Polling`, `system`: the loop with any answers, and the refs that were answered caught up;
* `Missing`: what the map knows;
* `waitsForAll_iff`: **a wait waits for every ref just when no two refs share a key**, or when it is
  refused.
-/

namespace Instructed.Consistency

open Sql Routing Transition

/-- The loop goes on with the reply to its call, whatever the predicate answers. -/
def Wait.receive (w : Wait) (reply : Except Failure Bool) : Option Wait :=
  match w.stage with
  | .asking key _ rest _ =>
    match reply with
    | .ok true => some { w with
        remaining := w.remaining.filter fun e => e.1 ≠ key
        stage := .pass rest }
    | .ok false => some { w with stage := .pass rest }
    | .error (.raised e) =>
      if e.sqlstate = .IS020 then some { w with stage := .pass rest }
      else some { w with stage := .threw (.call (.raised e)) }
    | .error .connection => some { w with stage := .threw (.call .connection) }
  | _ => none

/-- The predicate's answer is one of them. -/
theorem Wait.answer_eq {w : Wait} {key : String} {ref : SubscriptionRef}
    {rest : List (String × SubscriptionRef)} {read : Store} (d : Delivery) (st : Store)
    (h : w.stage = .asking key ref rest read) :
    w.answer d st = w.receive (d.reply (isSubscriptionCaughtUp (some ref.stream) (some ref.name)
      (some w.target) read st)) := by
  obtain ⟨_, _, _, _, _, _, _⟩ := w
  subst h
  rfl

/-! ## The loop -/

/-- A wait, with the refs that were answered caught up and the targets of these questions. -/
structure Polling where
  wait : Wait
  answered : List (SubscriptionRef × ℕ)

/-- What happens next. -/
inductive PollOp where
  | ask (st : Store)
  | receive (reply : Except Failure Bool)
  | endPass (now : ℤ)

/-- The ref that the loop is asking for. -/
def Stage.ref? : Stage → Option SubscriptionRef
  | .asking _ ref _ _ => some ref
  | _ => none

def Stage.isReturned : Stage → Bool
  | .returned => true
  | _ => false

theorem Stage.eq_returned {stage : Stage} (h : stage.isReturned = true) : stage = .returned := by
  cases stage with
  | returned => rfl
  | _ => cases h

/-- What the reply adds to the answers. -/
def Polling.learn (p : Polling) : Except Failure Bool → List (SubscriptionRef × ℕ)
  | .ok true => (p.wait.stage.ref?.map fun ref => (ref, p.wait.target)).toList
  | _ => []

def Polling.step (p : Polling) : PollOp → Option Polling
  | .ask st => (p.wait.ask st).map fun wait => { p with wait := wait }
  | .receive reply => (p.wait.receive reply).map fun wait => ⟨wait, p.answered ++ p.learn reply⟩
  | .endPass now => (p.wait.endPass now).map fun wait => { p with wait := wait }

/-- A call of `waitForProjection`. -/
def polling (rows : List AppendedEvent) (subscriptions : List SubscriptionRef) (timeout : ℕ)
    (now : ℤ) : System Polling PollOp where
  init p := p = ⟨waitForProjection rows subscriptions timeout now, []⟩
  step := Polling.step

/-! ## The map -/

section Map

variable {m : List (String × SubscriptionRef)} {s : SubscriptionRef} {subs : List SubscriptionRef}
  {e : String × SubscriptionRef}

theorem mem_setRef : e ∈ setRef m s ↔ e = (refKey s, s) ∨ (e ∈ m ∧ e.1 ≠ refKey s) := by
  unfold setRef
  split_ifs with h
  · obtain ⟨x, hx, hk⟩ := List.mem_map.mp (List.contains_iff_mem.mp h)
    rw [List.mem_map]
    constructor
    · rintro ⟨y, hy, rfl⟩
      by_cases hy' : y.1 = refKey s
      · simp [hy']
      · simp [hy', hy]
    · rintro (rfl | ⟨he, hne⟩)
      · exact ⟨x, hx, by simp [hk]⟩
      · exact ⟨e, he, by simp [hne]⟩
  · have hnot : ∀ x ∈ m, x.1 ≠ refKey s := fun x hx hk =>
      h (List.contains_iff_mem.mpr (List.mem_map.mpr ⟨x, hx, hk⟩))
    rw [List.mem_append, List.mem_singleton]
    constructor
    · rintro (he | rfl)
      · exact Or.inr ⟨he, hnot e he⟩
      · exact Or.inl rfl
    · rintro (rfl | ⟨he, -⟩)
      · exact Or.inr rfl
      · exact Or.inl he

theorem map_fst_setRef : (setRef m s).map Prod.fst =
    if (m.map Prod.fst).contains (refKey s) then m.map Prod.fst
    else m.map Prod.fst ++ [refKey s] := by
  unfold setRef
  split_ifs with h
  · rw [List.map_map]
    refine List.map_congr_left fun x _ => ?_
    by_cases hx : x.1 = refKey s <;> simp [hx]
  · rw [List.map_append, List.map_singleton]

theorem nodup_setRef (h : (m.map Prod.fst).Nodup) : ((setRef m s).map Prod.fst).Nodup := by
  rw [map_fst_setRef]
  split_ifs with hc
  · exact h
  · rw [List.contains_iff_mem] at hc
    exact List.nodup_append.mpr ⟨h, List.nodup_singleton _, by
      rintro a ha b hb rfl
      exact hc (List.mem_singleton.mp hb ▸ ha)⟩

theorem nodup_foldl_setRef (h : (m.map Prod.fst).Nodup) :
    ((subs.foldl setRef m).map Prod.fst).Nodup := by
  induction subs generalizing m with
  | nil => exact h
  | cons s subs ih => exact ih (nodup_setRef h)

/-- An entry of the map was set for a ref of the list. -/
theorem mem_of_mem_foldl (h : e ∈ subs.foldl setRef m) :
    e ∈ m ∨ (e.2 ∈ subs ∧ e.1 = refKey e.2) := by
  induction subs generalizing m with
  | nil => exact Or.inl h
  | cons s subs ih =>
    rcases ih h with hm | ⟨hs, hk⟩
    · rcases mem_setRef.mp hm with rfl | ⟨hm, -⟩
      · exact Or.inr ⟨List.mem_cons_self, rfl⟩
      · exact Or.inl hm
    · exact Or.inr ⟨List.mem_cons_of_mem _ hs, hk⟩

theorem mem_fst_foldl {k : String} (h : k ∈ m.map Prod.fst ∨ k ∈ subs.map refKey) :
    k ∈ (subs.foldl setRef m).map Prod.fst := by
  induction subs generalizing m with
  | nil => exact h.resolve_right fun hnil => nomatch hnil
  | cons s subs ih =>
    rw [List.map_cons, List.mem_cons] at h
    apply ih
    rw [map_fst_setRef]
    rcases h with h | rfl | h
    · left
      split_ifs
      · exact h
      · exact List.mem_append_left _ h
    · left
      split_ifs with hc
      · exact List.contains_iff_mem.mp hc
      · exact List.mem_append_right _ (List.mem_singleton.mpr rfl)
    · exact Or.inr h

/-- The entries of the map before the first pass. -/
def entries (subs : List SubscriptionRef) : List (String × SubscriptionRef) := subs.foldl setRef []

theorem mem_entries (h : e ∈ entries subs) : e.2 ∈ subs ∧ e.1 = refKey e.2 :=
  (mem_of_mem_foldl h).resolve_left fun hnil => nomatch hnil

/-- Every ref of the list has an entry under its key. -/
theorem exists_entry (h : s ∈ subs) : ∃ e ∈ entries subs, refKey e.2 = refKey s := by
  have hk : refKey s ∈ (entries subs).map Prod.fst := mem_fst_foldl (Or.inr (List.mem_map_of_mem h))
  obtain ⟨e, he, heq⟩ := List.mem_map.mp hk
  exact ⟨e, he, (mem_entries he).2.symm.trans heq⟩

/-- Two entries have different keys. -/
theorem entry_eq {e' : String × SubscriptionRef} (he : e ∈ entries subs) (he' : e' ∈ entries subs)
    (h : refKey e.2 = refKey e'.2) : e = e' := by
  have hnodup : ((entries subs).map Prod.fst).Nodup := nodup_foldl_setRef List.nodup_nil
  refine List.inj_on_of_nodup_map hnodup he he' ?_
  rw [(mem_entries he).2, (mem_entries he').2, h]

end Map

/-! ## What is missing -/

section Missing

variable {rows : List AppendedEvent} {subs : List SubscriptionRef} {timeout : ℕ} {now : ℤ}
  {p p' : Polling} {op : PollOp}

/-- The call is refused: one of the refs is on a stream that nothing was appended to. -/
def Refused (rows : List AppendedEvent) (subs : List SubscriptionRef) : Prop :=
  ∃ s ∈ subs, crossStream (rows.map AppendedEvent.streamUuid).eraseDups s = true

/-- What the polling loop knows at each point. -/
def StageKnown (subs : List SubscriptionRef) (w : Wait) : Prop :=
  match w.stage with
  | .pass rest => ∀ e ∈ rest, e ∈ entries subs
  | .asking key ref rest _ => (key, ref) ∈ entries subs ∧ ∀ e ∈ rest, e ∈ entries subs
  | .returned => w.remaining = []
  | .threw e => e = timeoutError w.timeout w.remaining ∨ ∃ f, e = .call f

/-- The map holds the entries that were not answered caught up. -/
structure Missing (rows : List AppendedEvent) (subs : List SubscriptionRef) (p : Polling) : Prop where
  target : IsGreatest { n | ∃ r ∈ rows, r.eventNumber = n } p.wait.target
  answered : ∀ e ∈ entries subs, e ∈ p.wait.remaining ∨ (e.2, p.wait.target) ∈ p.answered
  remaining : ∀ e ∈ p.wait.remaining, e ∈ entries subs ∧ ∀ n, (e.2, n) ∉ p.answered
  stage : StageKnown subs p.wait

theorem isGreatest_target (row : AppendedEvent) (rows : List AppendedEvent) :
    IsGreatest { n | ∃ r ∈ row :: rows, r.eventNumber = n }
      (rows.foldl (fun m r => if r.eventNumber > m then r.eventNumber else m) row.eventNumber) := by
  obtain ⟨hle, hrows⟩ := le_foldl_target rows row.eventNumber
  constructor
  · rcases foldl_target_mem rows row.eventNumber with heq | ⟨r, hr, heq⟩
    · exact ⟨row, List.mem_cons_self, heq.symm⟩
    · exact ⟨r, List.mem_cons_of_mem _ hr, heq⟩
  · rintro n ⟨r, hr, rfl⟩
    rcases List.mem_cons.mp hr with rfl | hr
    · exact hle
    · exact hrows r hr

/-- The call begins. -/
theorem Missing.begin (hrows : rows ≠ []) (hsubs : subs ≠ []) (h : ¬ Refused rows subs) :
    Missing rows subs ⟨waitForProjection rows subs timeout now, []⟩ ∧
      (waitForProjection rows subs timeout now).stage = .pass (entries subs) ∧
        (waitForProjection rows subs timeout now).remaining = entries subs := by
  obtain ⟨row, rows, rfl⟩ := List.exists_cons_of_ne_nil hrows
  obtain ⟨s, ss, rfl⟩ := List.exists_cons_of_ne_nil hsubs
  have hfind : (s :: ss).find?
      (crossStream (((row :: rows).map AppendedEvent.streamUuid).eraseDups)) = none := by
    rw [List.find?_eq_none]
    exact fun x hx hcross => h ⟨x, hx, hcross⟩
  unfold waitForProjection
  dsimp only
  rw [hfind]
  refine ⟨⟨isGreatest_target row rows, fun e he => Or.inl he, fun e he => ⟨he, fun _ hn => ?_⟩,
    fun e he => he⟩, rfl, rfl⟩
  cases hn

theorem Missing.step (h : Missing rows subs p) (hstep : p.step op = some p') :
    Missing rows subs p' := by
  cases op with
  | ask st =>
    obtain ⟨w, hw, rfl⟩ := Option.map_eq_some_iff.mp hstep
    unfold Wait.ask at hw
    split at hw
    · rename_i key ref rest hstage
      obtain rfl := Option.some.inj hw
      have hknown := h.stage
      rw [StageKnown, hstage] at hknown
      exact ⟨h.target, h.answered, h.remaining, List.forall_mem_cons.mp hknown⟩
    · cases hw
  | receive reply =>
    obtain ⟨w, hw, rfl⟩ := Option.map_eq_some_iff.mp hstep
    -- Any other reply than `true` teaches nothing.
    have hkept : ∀ e ∈ entries subs,
        e ∈ p.wait.remaining ∨ (e.2, p.wait.target) ∈ p.answered ++ [] := by
      rw [List.append_nil]
      exact h.answered
    have hkept' : ∀ e ∈ p.wait.remaining, e ∈ entries subs ∧ ∀ n, (e.2, n) ∉ p.answered ++ [] := by
      rw [List.append_nil]
      exact h.remaining
    unfold Wait.receive at hw
    split at hw
    · rename_i key ref rest read hstage
      have hknown := h.stage
      rw [StageKnown, hstage] at hknown
      obtain ⟨hentry, hrest⟩ := hknown
      have hkey : key = refKey ref := (mem_entries hentry).2
      split at hw
      · obtain rfl := Option.some.inj hw
        have hlearn : p.learn (.ok true) = [(ref, p.wait.target)] := by
          rw [Polling.learn, hstage]
          rfl
        rw [hlearn]
        refine ⟨h.target, fun e he => ?_, fun e he => ?_, hrest⟩
        · rcases h.answered e he with hmem | hmem
          · by_cases heq : e.1 = key
            · right
              have hsame : e = (key, ref) :=
                entry_eq he hentry ((mem_entries he).2.symm.trans (heq.trans hkey))
              rw [hsame]
              exact List.mem_append_right _ (List.mem_singleton.mpr rfl)
            · exact Or.inl (List.mem_filter.mpr ⟨hmem, decide_eq_true heq⟩)
          · exact Or.inr (List.mem_append_left _ hmem)
        · obtain ⟨hmem, hne⟩ := List.mem_filter.mp he
          obtain ⟨he', hnot⟩ := h.remaining e hmem
          refine ⟨he', fun n hn => ?_⟩
          rcases List.mem_append.mp hn with hn | hn
          · exact hnot n hn
          · have href : e.2 = ref := (Prod.mk.inj (List.mem_singleton.mp hn)).1
            exact of_decide_eq_true hne (by rw [(mem_entries he').2, href, hkey])
      · obtain rfl := Option.some.inj hw
        exact ⟨h.target, hkept, hkept', hrest⟩
      · split_ifs at hw
        · obtain rfl := Option.some.inj hw
          exact ⟨h.target, hkept, hkept', hrest⟩
        · obtain rfl := Option.some.inj hw
          exact ⟨h.target, hkept, hkept', Or.inr ⟨_, rfl⟩⟩
      · obtain rfl := Option.some.inj hw
        exact ⟨h.target, hkept, hkept', Or.inr ⟨_, rfl⟩⟩
    · cases hw
  | endPass now =>
    obtain ⟨w, hw, rfl⟩ := Option.map_eq_some_iff.mp hstep
    unfold Wait.endPass at hw
    split at hw
    · split_ifs at hw with hnil
      · obtain rfl := Option.some.inj hw
        exact ⟨h.target, h.answered, h.remaining, List.isEmpty_iff.mp hnil⟩
      · obtain rfl := Option.some.inj hw
        exact ⟨h.target, h.answered, h.remaining, Or.inl rfl⟩
      · obtain rfl := Option.some.inj hw
        exact ⟨h.target, h.answered, h.remaining, fun e he => (h.remaining e he).1⟩
    · cases hw

/-- A call that has ended goes on no more. -/
theorem step_ended (h : p.wait.stage = .returned ∨ ∃ e, p.wait.stage = .threw e) :
    p.step op = none := by
  rcases h with h | ⟨e, h⟩
  all_goals
    cases op <;> simp [Polling.step, Wait.ask, Wait.receive, Wait.endPass, h]

/-- What the claimed property says of a call. -/
structure WaitsForAll (rows : List AppendedEvent) (subs : List SubscriptionRef) (p : Polling) :
    Prop where
  /-- When it has returned, every ref was answered caught up at the largest event number. -/
  returned : p.wait.stage = .returned → ∀ s ∈ subs, ∃ n,
    IsGreatest { n | ∃ r ∈ rows, r.eventNumber = n } n ∧ (s, n) ∈ p.answered
  /-- When it has timed out, it reports the refs that were never answered caught up. -/
  timedOut : ∀ message waitedMs missing, p.wait.stage = .threw (.timeout message waitedMs missing) →
    (∀ s ∈ subs, refKey s ∈ missing ↔ ∀ n, (s, n) ∉ p.answered) ∧
      ∀ k ∈ missing, ∃ s ∈ subs, refKey s = k

/-- With different keys, the map holds the refs themselves. -/
theorem Missing.waitsForAll (h : Missing rows subs p)
    (hkeys : ∀ s ∈ subs, ∀ s' ∈ subs, refKey s = refKey s' → s = s') : WaitsForAll rows subs p := by
  have hentry : ∀ s ∈ subs, ∃ e ∈ entries subs, e.2 = s := by
    intro s hs
    obtain ⟨e, he, hk⟩ := exists_entry hs
    exact ⟨e, he, hkeys _ (mem_entries he).1 s hs hk⟩
  constructor
  · intro hstage s hs
    obtain ⟨e, he, rfl⟩ := hentry s hs
    refine ⟨p.wait.target, h.target, (h.answered e he).resolve_left fun hmem => ?_⟩
    have hknown := h.stage
    rw [StageKnown, hstage] at hknown
    rw [hknown] at hmem
    cases hmem
  · intro message waitedMs missing hstage
    have hknown := h.stage
    rw [StageKnown, hstage] at hknown
    have hmissing : missing = p.wait.remaining.map fun e => refKey e.2 := by
      rcases hknown with heq | ⟨f, heq⟩
      · exact (WaitError.timeout.inj heq).2.2
      · cases heq
    subst hmissing
    refine ⟨fun s hs => ⟨fun hmem n => ?_, fun hnot => ?_⟩, fun k hk => ?_⟩
    · obtain ⟨e, he, hk⟩ := List.mem_map.mp hmem
      obtain ⟨hentries, hn⟩ := h.remaining e he
      exact hkeys _ (mem_entries hentries).1 s hs hk ▸ hn n
    · obtain ⟨e, he, rfl⟩ := hentry s hs
      exact List.mem_map.mpr ⟨e, (h.answered e he).resolve_right (hnot _), rfl⟩
    · obtain ⟨e, he, rfl⟩ := List.mem_map.mp hk
      exact ⟨e.2, (mem_entries (h.remaining e he).1).1, rfl⟩

end Missing

/-! ## Two refs with one key -/

section Collision

variable {rows : List AppendedEvent} {subs : List SubscriptionRef} {timeout : ℕ} {now : ℤ}
  {p p' : Polling}

/-- A pass on which every answer is true. -/
theorem pass_run (hp : Reachable (polling rows subs timeout now) p)
    {rest : List (String × SubscriptionRef)} (hstage : p.wait.stage = .pass rest) :
    ∃ p', Reachable (polling rows subs timeout now) p' ∧ p'.wait.stage = .pass [] ∧
      (∀ e ∈ p'.wait.remaining, e ∈ p.wait.remaining ∧ ∀ x ∈ rest, e.1 ≠ x.1) ∧
        ∀ a ∈ p'.answered, a ∈ p.answered ∨ ∃ x ∈ rest, x.2 = a.1 := by
  induction rest generalizing p with
  | nil => exact ⟨p, hp, hstage, fun e he => ⟨he, fun _ hx => nomatch hx⟩, fun a ha => Or.inl ha⟩
  | cons x rest ih =>
    obtain ⟨key, ref⟩ := x
    let q : Polling := { p with wait := { p.wait with
      stage := .asking key ref rest Db.install.store } }
    let r : Polling := ⟨{ p.wait with
      remaining := p.wait.remaining.filter fun e => e.1 ≠ key
      stage := .pass rest }, p.answered ++ [(ref, p.wait.target)]⟩
    have hask : (polling rows subs timeout now).step p (.ask Db.install.store) = some q := by
      show p.step (.ask Db.install.store) = some q
      rw [Polling.step, Wait.ask, hstage]
      rfl
    have hreceive : (polling rows subs timeout now).step q (.receive (.ok true)) = some r := rfl
    have hr : Reachable (polling rows subs timeout now) r :=
      .step (.step hp trivial hask) trivial hreceive
    obtain ⟨p', hp', hend, hremaining, hanswered⟩ := ih hr rfl
    refine ⟨p', hp', hend, fun e he => ?_, fun a ha => ?_⟩
    · obtain ⟨hmem, hne⟩ := hremaining e he
      obtain ⟨hmem, hkey⟩ := List.mem_filter.mp hmem
      exact ⟨hmem, List.forall_mem_cons.mpr ⟨of_decide_eq_true hkey, hne⟩⟩
    · rcases hanswered a ha with hmem | ⟨x, hx, heq⟩
      · rcases List.mem_append.mp hmem with hmem | hmem
        · exact Or.inl hmem
        · obtain rfl := List.mem_singleton.mp hmem
          exact Or.inr ⟨_, List.mem_cons_self, rfl⟩
      · exact Or.inr ⟨x, List.mem_cons_of_mem _ hx, heq⟩

/-- A call that is not refused may return, and then it has asked for the entries of the map. -/
theorem returns (hrows : rows ≠ []) (hsubs : subs ≠ []) (h : ¬ Refused rows subs) :
    ∃ p, Reachable (polling rows subs timeout now) p ∧ p.wait.stage = .returned ∧
      ∀ a ∈ p.answered, ∃ e ∈ entries subs, e.2 = a.1 := by
  have hbegin : Missing rows subs ⟨waitForProjection rows subs timeout now, []⟩ ∧
      (waitForProjection rows subs timeout now).stage = .pass (entries subs) ∧
        (waitForProjection rows subs timeout now).remaining = entries subs :=
    Missing.begin hrows hsubs h
  obtain ⟨-, hstage, hremaining⟩ := hbegin
  obtain ⟨p, hp, hend, hleft, hanswered⟩ := pass_run (.init rfl) hstage
  have hnil : p.wait.remaining = [] := by
    rw [List.eq_nil_iff_forall_not_mem]
    intro e he
    obtain ⟨hmem, hne⟩ := hleft e he
    exact hne e (hremaining ▸ hmem) rfl
  let q : Polling := { p with wait := { p.wait with remaining := [], stage := .returned } }
  have hstep : (polling rows subs timeout now).step p (.endPass 0) = some q := by
    show p.step (.endPass 0) = some q
    rw [Polling.step, Wait.endPass, hend, hnil]
    rfl
  refine ⟨q, .step hp trivial hstep, rfl, fun a ha => ?_⟩
  exact (hanswered a ha).resolve_left fun hn => nomatch hn

/-- Without refs, the call returns at once. -/
theorem ended_of_nil (h : subs = []) (hp : Reachable (polling rows subs timeout now) p) :
    p.wait.stage = .returned := by
  refine hp.invariant (P := fun p => p.wait.stage = .returned) ?_ fun q _ _ hq _ hstep => ?_
  · rintro _ rfl
    subst h
    unfold waitForProjection
    dsimp only
    split
    · rfl
    · rfl
    · contradiction
  · exact nomatch (step_ended (Or.inl hq)).symm.trans hstep

/-- A call that is refused throws at once. -/
theorem ended_of_refused (hrows : rows ≠ []) (h : Refused rows subs)
    (hp : Reachable (polling rows subs timeout now) p) :
    ∃ s streams, p.wait.stage = .threw (targetError s streams) := by
  refine hp.invariant (P := fun p => ∃ s streams, p.wait.stage = .threw (targetError s streams)) ?_
    fun q op _ hq _ hstep => ?_
  · rintro _ rfl
    obtain ⟨s, hs, hcross⟩ := h
    obtain ⟨row, rows, rfl⟩ := List.exists_cons_of_ne_nil hrows
    obtain ⟨s₀, ss, rfl⟩ := List.exists_cons_of_ne_nil (List.ne_nil_of_mem hs)
    unfold waitForProjection
    dsimp only
    cases hfind : (s₀ :: ss).find?
        (crossStream (((row :: rows).map AppendedEvent.streamUuid).eraseDups)) with
    | none => exact absurd hcross (List.find?_eq_none.mp hfind s hs)
    | some s' => exact ⟨s', _, rfl⟩
  · obtain ⟨s, streams, heq⟩ := hq
    have hnone : q.step op = none := step_ended (Or.inr ⟨_, heq⟩)
    exact nomatch hnone.symm.trans hstep

/-- **A wait waits for every ref just when no two refs share a key, or when it is refused.** -/
theorem waitsForAll_iff (rows : List AppendedEvent) (hrows : rows ≠ [])
    (subs : List SubscriptionRef) (timeout : ℕ) (now : ℤ) :
    (∀ p, Reachable (polling rows subs timeout now) p → WaitsForAll rows subs p) ↔
      Refused rows subs ∨ ∀ s ∈ subs, ∀ s' ∈ subs, refKey s = refKey s' → s = s' := by
  constructor
  · intro h
    by_cases hrefused : Refused rows subs
    · exact Or.inl hrefused
    · right
      intro s hs s' hs' hkey
      have hsubs : subs ≠ [] := List.ne_nil_of_mem hs
      obtain ⟨p, hp, hstage, hanswered⟩ := returns hrows hsubs hrefused
      have hentry : ∀ s ∈ subs, ∃ e ∈ entries subs, e.2 = s := by
        intro s hs
        obtain ⟨n, -, hmem⟩ := (h p hp).returned hstage s hs
        exact hanswered _ hmem
      obtain ⟨e, he, rfl⟩ := hentry s hs
      obtain ⟨e', he', rfl⟩ := hentry s' hs'
      rw [entry_eq he he' hkey]
  · intro h p hp
    by_cases hsubs : subs = []
    · have hended := ended_of_nil hsubs hp
      subst hsubs
      constructor
      · intro _ s hs
        cases hs
      · intro _ _ _ hstage
        rw [hended] at hstage
        cases hstage
    by_cases hrefused : Refused rows subs
    · obtain ⟨s, streams, hended⟩ := ended_of_refused hrows hrefused hp
      constructor
      · intro hstage
        rw [hended] at hstage
        cases hstage
      · intro _ _ _ hstage
        rw [hended] at hstage
        cases hstage
    · have hmissing : Missing rows subs p := by
        refine hp.invariant (P := Missing rows subs) ?_ fun _ _ _ hm _ hstep => hm.step hstep
        rintro _ rfl
        exact (Missing.begin hrows hsubs hrefused).1
      exact hmissing.waitsForAll (h.resolve_left hrefused)

/-- The wait of the example: an event was appended to each of two streams. -/
def sampleRows : List AppendedEvent :=
  [⟨⟨⟨List.replicate 32 ⟨10, by decide⟩, rfl⟩, 1, 1, 10⟩, "order"⟩,
    ⟨⟨⟨List.replicate 32 ⟨11, by decide⟩, rfl⟩, 1, 2, 20⟩, "order::late"⟩]

theorem waitsForAll_iff_sampleRows :
    (∀ p, Reachable (polling sampleRows [⟨"$all", "totals"⟩, ⟨"order", "totals"⟩] 5000 0) p →
      WaitsForAll sampleRows [⟨"$all", "totals"⟩, ⟨"order", "totals"⟩] p) ↔
        Refused sampleRows [⟨"$all", "totals"⟩, ⟨"order", "totals"⟩] ∨
          ∀ s ∈ [(⟨"$all", "totals"⟩ : SubscriptionRef), ⟨"order", "totals"⟩],
            ∀ s' ∈ [(⟨"$all", "totals"⟩ : SubscriptionRef), ⟨"order", "totals"⟩],
              refKey s = refKey s' → s = s' :=
  waitsForAll_iff sampleRows (by decide) _ 5000 0

/-- The refs `order` / `late::totals` and `order::late` / `totals` share the key
    `order::late::totals`. The call returns when the second is caught up. -/
theorem waitsForAll_fails : ∃ p,
    Reachable (polling sampleRows [⟨"order", "late::totals"⟩, ⟨"order::late", "totals"⟩] 5000 0) p ∧
      ¬ WaitsForAll sampleRows [⟨"order", "late::totals"⟩, ⟨"order::late", "totals"⟩] p := by
  let subs : List SubscriptionRef := [⟨"order", "late::totals"⟩, ⟨"order::late", "totals"⟩]
  have hrun : ((polling sampleRows subs 5000 0).run ⟨waitForProjection sampleRows subs 5000 0, []⟩
      [.ask Db.install.store, .receive (.ok true), .endPass 0]).map
        (fun p => (p.wait.stage.isReturned, p.answered.map Prod.fst)) =
      some (true, [⟨"order::late", "totals"⟩]) := by decide +kernel
  obtain ⟨p, hp, heq⟩ := Option.map_eq_some_iff.mp hrun
  obtain ⟨hstage, hanswered⟩ := Prod.mk.inj heq
  refine ⟨p, .run (.init rfl) hp, fun h => ?_⟩
  obtain ⟨n, -, hmem⟩ := h.returned (Stage.eq_returned hstage) _ List.mem_cons_self
  have hfst : (⟨"order", "late::totals"⟩ : SubscriptionRef) ∈ p.answered.map Prod.fst :=
    List.mem_map_of_mem hmem
  rw [hanswered] at hfst
  exact absurd hfst (by decide)

end Collision

end Instructed.Consistency
