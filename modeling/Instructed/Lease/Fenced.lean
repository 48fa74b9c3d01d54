import Instructed.Lease.Exclusive

/-!
# What a lease protects

* `Call.check`: the parameter checks of `release_subscription` and `route_batch`;
* `refused`: who lost the lease is refused, and changes nothing;
* `step_lastSeen`: a claim keeps the cursor of a row;
* `World.forget`, `Consults`: a world in which some clients have no `start_from`, and the steps that
  depend on it;
* `run_forget`: **clients that do not consult their `start_from` might as well have none**;
* `leases`: **a lease excludes the other workers, who lost it is refused, claims keep the cursor, and
  `start_from` is for the claim that creates the row.**
-/

namespace Instructed.Lease

open Sql Relational Transition History

/-! ## Who lost the lease -/

/-- The caller. -/
def Call.worker : Call → Option String
  | .release _ _ worker => worker
  | .routeBatch _ _ worker _ _ => worker
  | .delete .. => none

/-- The parameter checks. -/
def Call.check : Call → Except SqlError Unit
  | .release u name worker => do
    let _ ← notNull "release_subscription" "p_stream_uuid" u
    let _ ← notEmpty "release_subscription" "p_subscription_name" name
    let _ ← notEmpty "release_subscription" "p_worker_id" worker
  | .routeBatch u name worker cursor decisions => do
    let _ ← notNull "route_batch" "p_stream_uuid" u
    let _ ← notEmpty "route_batch" "p_subscription_name" name
    let _ ← notEmpty "route_batch" "p_worker_id" worker
    let _ ← nonNegative "route_batch" "p_new_cursor" cursor
    let _ ← decisionsOf decisions
  | .delete u name => do
    let _ ← notNull "delete_subscription" "p_stream_uuid" u
    let _ ← notEmpty "delete_subscription" "p_subscription_name" name

section Refused

variable {st : Store} {key : ℕ × String} {worker : String} {c : Call}

theorem keyOf_some {u name : Option String} (h : keyOf st u name = some key) :
    ∃ u' name' stream, u = some u' ∧ name = some name' ∧ st.streamByUuid u' = some stream ∧
      key = (stream.streamId, name') := by
  obtain ⟨u', rfl, h⟩ := Option.bind_eq_some_iff.mp h
  obtain ⟨name', rfl, h⟩ := Option.bind_eq_some_iff.mp h
  obtain ⟨stream, hstream, h⟩ := Option.bind_eq_some_iff.mp h
  cases h
  exact ⟨u', name', stream, rfl, rfl, hstream, rfl⟩

/-- The check of the lease, after the parameter checks. -/
theorem holder_refused {α : Type} {proc u name : String} {stream : StreamRow} {message : SubscriptionRow → String}
    {k : StreamRow → SubscriptionRow → Except SqlError α} (hstream : st.streamByUuid u = some stream)
    (hheld : ∀ row, st.subscriptions.find? (stream.streamId, name) = some row →
      row.claimedBy ≠ some worker) :
    ∃ e, (do
      let stream ← requireStream proc u st
      let row ← requireSubscription proc stream.streamId name u st
      if row.claimedBy ≠ some worker then raise .IS022 (message row) else k stream row) = .error e ∧
      e.sqlstate =
        if (st.subscriptions.find? (stream.streamId, name)).isSome then .IS022 else .IS020 := by
  simp only [requireStream, hstream, requireSubscription, bind, Except.bind]
  cases hrow : st.subscriptions.find? (stream.streamId, name) with
  | none => exact ⟨_, rfl, rfl⟩
  | some row =>
    dsimp only
    rw [if_pos (hheld row hrow)]
    exact ⟨_, rfl, rfl⟩

/-- A call of a worker that does not hold the lease of the row. -/
theorem refused (hkey : c.key st = some key) (hworker : c.worker = some worker)
    (hheld : ∀ row, st.subscriptions.find? key = some row → row.claimedBy ≠ some worker) :
    ∃ e, c.run st = .error e ∧ (c.check = .error e ∨ c.check = .ok () ∧
      e.sqlstate = if (st.subscriptions.find? key).isSome then .IS022 else .IS020) := by
  cases c with
  | release u name w =>
    obtain ⟨u, name, stream, rfl, rfl, hstream, rfl⟩ := keyOf_some hkey
    cases hworker
    simp only [Call.run, releaseSubscription, Call.check, notNull, bind, Except.bind]
    cases hname : notEmpty "release_subscription" "p_subscription_name" (some name) with
    | error e => exact ⟨e, rfl, Or.inl rfl⟩
    | ok _ =>
      obtain rfl := Option.some.inj (notEmpty_ok hname)
      cases hwork : notEmpty "release_subscription" "p_worker_id" (some worker) with
      | error e => exact ⟨e, rfl, Or.inl rfl⟩
      | ok _ =>
        obtain rfl := Option.some.inj (notEmpty_ok hwork)
        exact Exists.imp (fun e h => ⟨h.1, Or.inr ⟨rfl, h.2⟩⟩) (holder_refused hstream hheld)
  | routeBatch u name w cursor decisions =>
    obtain ⟨u, name, stream, rfl, rfl, hstream, rfl⟩ := keyOf_some hkey
    cases hworker
    suffices hroute : ∃ e, Instructed.routeBatch (some u) (some name) (some worker) cursor decisions st =
        .error e ∧ ((Call.routeBatch (some u) (some name) (some worker) cursor decisions).check =
          .error e ∨ (Call.routeBatch (some u) (some name) (some worker) cursor decisions).check =
            .ok () ∧ e.sqlstate =
              if (st.subscriptions.find? (stream.streamId, name)).isSome then .IS022 else .IS020) by
      obtain ⟨e, he, hrest⟩ := hroute
      refine ⟨e, ?_, hrest⟩
      rw [Call.run, he]
      rfl
    simp only [Instructed.routeBatch, Call.check, notNull, bind, Except.bind]
    cases hname : notEmpty "route_batch" "p_subscription_name" (some name) with
    | error e => exact ⟨e, rfl, Or.inl rfl⟩
    | ok _ =>
      obtain rfl := Option.some.inj (notEmpty_ok hname)
      cases hwork : notEmpty "route_batch" "p_worker_id" (some worker) with
      | error e => exact ⟨e, rfl, Or.inl rfl⟩
      | ok _ =>
        obtain rfl := Option.some.inj (notEmpty_ok hwork)
        cases hcursor : nonNegative "route_batch" "p_new_cursor" cursor with
        | error e => exact ⟨e, rfl, Or.inl rfl⟩
        | ok _ =>
          cases hds : decisionsOf decisions with
          | error e => exact ⟨e, rfl, Or.inl rfl⟩
          | ok _ => exact Exists.imp (fun e h => ⟨h.1, Or.inr ⟨rfl, h.2⟩⟩) (holder_refused hstream hheld)
  | delete u name => cases hworker

end Refused

variable {ι : Type} [DecidableEq ι]

section Cursor

variable {w w' : World ι} {o : Op ι} {i : ι}

theorem row_commitClaim [Fintype ι] (worker : String) (expires : Timestamp) (row : SubscriptionRow)
    (key : ℕ × String) : (w.commitClaim i worker expires row).row key =
      if row.pkey = key then some (lease row worker expires) else w.row key := by
  show (w.db.store.subscriptions.put (lease row worker expires)).find? key = _
  rw [Table.find?_put, pkey_lease]
  rfl

/-- The statements before the commit write nothing. -/
theorem runClaim_db [Fintype ι] {p : Phase} (h : w.runClaim i p = some w') : w'.db = w.db := by
  cases p with
  | resolve now c =>
    rw [World.runClaim] at h
    split at h <;> cases h <;> rfl
  | precheck now c streamId =>
    rw [World.runClaim] at h
    split at h
    · split_ifs at h <;> cases h <;> rfl
    · cases h
      rfl
  | start now c streamId =>
    rw [World.runClaim] at h
    split at h
    · cases h
      rfl
    · split at h <;> cases h <;> rfl
  | insert now c streamId initial =>
    rw [World.runClaim] at h
    split at h
    · cases h
      rfl
    · split_ifs at h
      cases h
      rfl
  | select now c streamId =>
    rw [World.runClaim] at h
    split at h
    · cases h
      rfl
    · split_ifs at h <;> cases h <;> rfl
  | update now c row =>
    rw [World.runClaim] at h
    split_ifs at h <;> cases h <;> rfl
  | _ => cases h

/-- **No statement of a claim changes the cursor of a row.** -/
theorem step_lastSeen [Fintype ι] (hs : Sound w) (h : step w o = some w') (ho : ∀ i c, o ≠ .call i c)
    {key : ℕ × String} {r : SubscriptionRow} (hr : w.row key = some r) :
    ∃ r', w'.row key = some r' ∧ r'.lastSeen = r.lastSeen := by
  have hsame : w'.db.store.subscriptions = w.db.store.subscriptions →
      ∃ r', w'.row key = some r' ∧ r'.lastSeen = r.lastSeen := fun htables =>
    ⟨r, (congrArg (fun t => Table.find? t key) htables).trans hr, rfl⟩
  cases o with
  | tick t =>
    simp only [Lease.step] at h
    split_ifs at h
    cases h
    exact hsame rfl
  | append now a =>
    cases h
    exact hsame (w.db.append_tables now a).1
  | claim i u name worker secs options =>
    simp only [Lease.step] at h
    split at h
    · split at h <;> cases h <;> exact hsame rfl
    · cases h
  | run i => exact hsame (congrArg (fun db => db.store.subscriptions) (runClaim_db h))
  | skip i =>
    simp only [Lease.step] at h
    split at h <;> cases h
    exact hsame rfl
  | commit i =>
    simp only [Lease.step] at h
    split at h
    · rename_i now worker expires row hphase
      cases h
      rw [row_commitClaim]
      split_ifs with hkey
      · -- The row that is written is the one that was locked.
        have hknows := hs.knows i
        rw [hphase] at hknows
        refine ⟨_, rfl, ?_⟩
        rcases hknows with hnone | ⟨hsome, -⟩
        · rw [hkey, hr] at hnone
          cases hnone
        · rw [hkey, hr] at hsome
          show row.lastSeen = r.lastSeen
          rw [Option.some.inj hsome]
      · exact ⟨r, hr, rfl⟩
    · cases h
  | lock i key =>
    simp only [Lease.step] at h
    split at h
    · split_ifs at h
      cases h
      exact hsame rfl
    · cases h
  | call i c => exact absurd rfl (ho i c)
  | abort i =>
    cases h
    exact hsame rfl

end Cursor

/-! ## `start_from` -/

/-- The claim without options. -/
def ClaimCall.forget (c : ClaimCall) : ClaimCall := { c with startFrom := "origin" }

def Phase.forget : Phase → Phase
  | .resolve now c => .resolve now c.forget
  | .precheck now c streamId => .precheck now c.forget streamId
  | .start now c streamId => .start now c.forget streamId
  | .insert now c streamId _ => .insert now c.forget streamId 0
  | .select now c streamId => .select now c.forget streamId
  | .update now c row => .update now c.forget row
  | p => p

/-- The claim, without options where the client is one of those asked about. -/
def ClaimCall.forgetIf (b : Bool) (c : ClaimCall) : ClaimCall := if b then c.forget else c

/-- The phase of a client, without options where the client is one of those asked about. -/
def Phase.forgetIf (b : Bool) (p : Phase) : Phase := if b then p.forget else p

/-- The world as if no claim of the clients `s` had options. -/
def World.forget (s : ι → Bool) (w : World ι) : World ι :=
  { w with phase := fun i => (w.phase i).forgetIf (s i) }

def Op.forget (s : ι → Bool) : Op ι → Op ι
  | .claim i u name worker secs options =>
    .claim i u name worker secs (if s i then none else options)
  | o => o

/-- The step depends on `start_from`: it is malformed where it is resolved, or the row is created. -/
def Consults [Fintype ι] (w : World ι) : Op ι → Prop
  | .run i =>
    match w.phase i with
    | .start _ c streamId => ∃ stream e, w.db.store.streams.find? streamId = some stream ∧
        startCursor c.startFrom stream = .error e
    | .insert _ c streamId _ => w.row (streamId, c.subscriptionName) = none ∧
        ¬ w.Locked i (streamId, c.subscriptionName)
    | _ => False
  | _ => False

/-- No client of `s` depends on its `start_from` in this step. -/
def Spares [Fintype ι] (s : ι → Bool) (w : World ι) (o : Op ι) : Prop :=
  ∀ i, s i → o = .run i → ¬ Consults w o

section Forget

variable [Fintype ι] {s : ι → Bool} {w w' : World ι} {o : Op ι} {i : ι}

@[simp] theorem ClaimCall.forgetIf_true (c : ClaimCall) : c.forgetIf true = c.forget := rfl

@[simp] theorem ClaimCall.forgetIf_false (c : ClaimCall) : c.forgetIf false = c := rfl

@[simp] theorem ClaimCall.streamUuid_forgetIf (b : Bool) (c : ClaimCall) :
    (c.forgetIf b).streamUuid = c.streamUuid := by
  cases b <;> rfl

@[simp] theorem ClaimCall.subscriptionName_forgetIf (b : Bool) (c : ClaimCall) :
    (c.forgetIf b).subscriptionName = c.subscriptionName := by
  cases b <;> rfl

@[simp] theorem ClaimCall.worker_forgetIf (b : Bool) (c : ClaimCall) :
    (c.forgetIf b).worker = c.worker := by
  cases b <;> rfl

@[simp] theorem ClaimCall.secs_forgetIf (b : Bool) (c : ClaimCall) : (c.forgetIf b).secs = c.secs := by
  cases b <;> rfl

@[simp] theorem Phase.forgetIf_resolve (b : Bool) (now : Timestamp) (c : ClaimCall) :
    (Phase.resolve now c).forgetIf b = .resolve now (c.forgetIf b) := by
  cases b <;> rfl

@[simp] theorem Phase.forgetIf_precheck (b : Bool) (now : Timestamp) (c : ClaimCall) (streamId : ℕ) :
    (Phase.precheck now c streamId).forgetIf b = .precheck now (c.forgetIf b) streamId := by
  cases b <;> rfl

@[simp] theorem Phase.forgetIf_start (b : Bool) (now : Timestamp) (c : ClaimCall) (streamId : ℕ) :
    (Phase.start now c streamId).forgetIf b = .start now (c.forgetIf b) streamId := by
  cases b <;> rfl

@[simp] theorem Phase.forgetIf_insert (b : Bool) (now : Timestamp) (c : ClaimCall) (streamId : ℕ)
    (initial : ℕ) : (Phase.insert now c streamId initial).forgetIf b =
      .insert now (c.forgetIf b) streamId (if b then 0 else initial) := by
  cases b <;> rfl

@[simp] theorem Phase.forgetIf_select (b : Bool) (now : Timestamp) (c : ClaimCall) (streamId : ℕ) :
    (Phase.select now c streamId).forgetIf b = .select now (c.forgetIf b) streamId := by
  cases b <;> rfl

@[simp] theorem Phase.forgetIf_update (b : Bool) (now : Timestamp) (c : ClaimCall)
    (row : SubscriptionRow) : (Phase.update now c row).forgetIf b = .update now (c.forgetIf b) row := by
  cases b <;> rfl

@[simp] theorem Phase.forgetIf_claimed (b : Bool) (now : Timestamp) (worker : String)
    (expires : Timestamp) (row : SubscriptionRow) :
    (Phase.claimed now worker expires row).forgetIf b = .claimed now worker expires row := by
  cases b <;> rfl

@[simp] theorem Phase.forgetIf_idle (b : Bool) : Phase.idle.forgetIf b = .idle := by
  cases b <;> rfl

@[simp] theorem Phase.forgetIf_holds (b : Bool) (key : ℕ × String) :
    (Phase.holds key).forgetIf b = .holds key := by
  cases b <;> rfl

omit [DecidableEq ι] [Fintype ι] in
@[simp] theorem Phase.locks_forgetIf (b : Bool) (p : Phase) : (p.forgetIf b).locks = p.locks := by
  cases b
  · rfl
  · cases p <;> rfl

omit [DecidableEq ι] [Fintype ι] in
theorem locked_forget (s : ι → Bool) (w : World ι) (i : ι) (key : ℕ × String) :
    (w.forget s).Locked i key ↔ w.Locked i key := by
  simp [World.Locked, World.forget]

omit [Fintype ι] in
theorem forget_set (s : ι → Bool) (w : World ι) (i : ι) (p : Phase) :
    (w.set i p).forget s = (w.forget s).set i (p.forgetIf (s i)) := by
  unfold World.set World.forget
  congr 1
  funext j
  simp only [Function.update_apply]
  split_ifs with hj
  · rw [hj]
  · rfl

omit [Fintype ι] in
theorem forget_commitClaim (s : ι → Bool) (w : World ι) (i : ι) (worker : String) (expires : Timestamp)
    (row : SubscriptionRow) : (w.commitClaim i worker expires row).forget s =
      (w.forget s).commitClaim i worker expires row := by
  have hphase := congrArg World.phase (forget_set s w i .idle)
  rw [Phase.forgetIf_idle] at hphase
  exact congrArg (fun phase => ({ w.commitClaim i worker expires row with phase := phase } : World ι))
    hphase

omit [Fintype ι] in
theorem forget_call (s : ι → Bool) (w : World ι) (i : ι) (c : Call) :
    (w.call i c).forget s = (w.forget s).call i c := by
  have hset := forget_set s w i .idle
  rw [Phase.forgetIf_idle] at hset
  have hphase := congrArg World.phase hset
  have hdb : (w.forget s).db = w.db := rfl
  simp only [World.call, hdb]
  cases c.run w.db.store with
  | error e => exact hset
  | ok st =>
    exact congrArg (fun phase => (⟨w.clock, { w.db with store := st }, phase, w.history ++
      ((c.event w.db.store).map (Entry.mk w.clock)).toList⟩ : World ι)) hphase

/-- The next statement of a claim: the same branch is taken. -/
theorem forget_runClaim (hno : s i → ¬ Consults w (.run i)) :
    (w.runClaim i (w.phase i)).map (World.forget s) =
      (w.forget s).runClaim i ((w.phase i).forgetIf (s i)) := by
  have hlocked := locked_forget s w i
  have hrow : ∀ key, (w.forget s).row key = w.row key := fun _ => rfl
  have hdb : (w.forget s).db = w.db := rfl
  cases hphase : w.phase i with
  | resolve now c =>
    simp only [Phase.forgetIf_resolve, World.runClaim, ClaimCall.streamUuid_forgetIf, hdb]
    cases w.db.store.streamByUuid c.streamUuid <;> simp [forget_set]
  | precheck now c streamId =>
    simp only [Phase.forgetIf_precheck, World.runClaim, ClaimCall.subscriptionName_forgetIf,
      ClaimCall.worker_forgetIf, hrow]
    cases w.row (streamId, c.subscriptionName) with
    | none => simp [forget_set]
    | some row =>
      dsimp only
      split_ifs <;> simp [forget_set]
  | start now c streamId =>
    simp only [Phase.forgetIf_start, World.runClaim, hdb]
    cases hstream : w.db.store.streams.find? streamId with
    | none => simp [forget_set]
    | some stream =>
      dsimp only
      cases hs : s i with
      | false =>
        rw [ClaimCall.forgetIf_false]
        cases startCursor c.startFrom stream <;> simp [forget_set, hs]
      | true =>
        rw [ClaimCall.forgetIf_true]
        cases hstart : startCursor c.startFrom stream with
        | error e =>
          refine absurd ?_ (hno hs)
          simp only [Consults, hphase]
          exact ⟨stream, e, hstream, hstart⟩
        | ok initial => simp [ClaimCall.forget, startCursor, forget_set, hs]
  | insert now c streamId initial =>
    simp only [Phase.forgetIf_insert, World.runClaim, ClaimCall.subscriptionName_forgetIf, hrow, hlocked]
    cases hnone : w.row (streamId, c.subscriptionName) with
    | some row => simp [forget_set]
    | none =>
      dsimp only
      split_ifs with hlock hs
      · rfl
      · refine absurd ?_ (hno hs)
        simp only [Consults, hphase]
        exact ⟨hnone, hlock⟩
      · simp [forget_set]
  | select now c streamId =>
    simp only [Phase.forgetIf_select, World.runClaim, ClaimCall.subscriptionName_forgetIf, hrow, hlocked]
    cases w.row (streamId, c.subscriptionName) with
    | none => simp [forget_set]
    | some row =>
      dsimp only
      split_ifs <;> simp [forget_set]
  | update now c row =>
    simp only [Phase.forgetIf_update, World.runClaim, ClaimCall.worker_forgetIf, ClaimCall.secs_forgetIf]
    split_ifs <;> simp [forget_set]
  | idle => simp [World.runClaim]
  | claimed now worker expires row => simp [World.runClaim]
  | holds key => simp [World.runClaim]

/-- The checks do not look at the options. -/
theorem checkClaim_forgetIf (b : Bool) (u name worker : Option String) (secs : Option ℤ)
    (options : Option Json) : checkClaim u name worker secs (if b then none else options) =
      (checkClaim u name worker secs options).map (ClaimCall.forgetIf b) := by
  simp only [checkClaim, bind, Except.bind]
  cases notNull "claim_subscription" "p_stream_uuid" u with
  | error e => rfl
  | ok u =>
    cases notEmpty "claim_subscription" "p_subscription_name" name with
    | error e => rfl
    | ok name =>
      cases notEmpty "claim_subscription" "p_worker_id" worker with
      | error e => rfl
      | ok worker =>
        cases positive "claim_subscription" "p_lease_seconds" secs with
        | error e => rfl
        | ok secs => cases b <;> rfl

/-- **A step in which no client of `s` consults its `start_from` goes as if they had no options.** -/
theorem forget_step (hno : Spares s w o) :
    (step w o).map (World.forget s) = step (w.forget s) (o.forget s) := by
  have hlocked := locked_forget s w
  have hrow : ∀ key, (w.forget s).row key = w.row key := fun _ => rfl
  have hphase : ∀ i, (w.forget s).phase i = (w.phase i).forgetIf (s i) := fun _ => rfl
  cases o with
  | tick t =>
    simp only [Lease.step, Op.forget]
    show Option.map _ (if w.clock ≤ t then _ else _) = if w.clock ≤ t then _ else _
    split_ifs <;> rfl
  | append now a => rfl
  | claim i u name worker secs options =>
    simp only [Lease.step, Op.forget, checkClaim_forgetIf]
    rw [hphase i]
    cases w.phase i with
    | idle =>
      rw [Phase.forgetIf_idle]
      cases checkClaim u name worker secs options with
      | error e => rfl
      | ok c =>
        show some ((w.set i (.resolve w.clock c)).forget s) =
          some ((w.forget s).set i (.resolve w.clock (c.forgetIf (s i))))
        rw [forget_set, Phase.forgetIf_resolve]
    | _ => simp
  | run i => exact forget_runClaim fun hs => hno i hs rfl
  | skip i =>
    simp only [Lease.step, Op.forget]
    rw [hphase i]
    cases w.phase i <;> simp [forget_set]
  | commit i =>
    simp only [Lease.step, Op.forget]
    rw [hphase i]
    cases w.phase i with
    | claimed now worker expires row =>
      rw [Phase.forgetIf_claimed]
      exact congrArg some (forget_commitClaim s w i worker expires row)
    | _ => simp
  | lock i key =>
    simp only [Lease.step, Op.forget, hlocked, hrow]
    rw [hphase i]
    cases w.phase i with
    | idle =>
      rw [Phase.forgetIf_idle]
      dsimp only
      split_ifs <;> simp [forget_set]
    | _ => simp
  | call i c =>
    simp only [Lease.step, Op.forget, hlocked]
    rw [hphase i]
    have hcall : Option.map (World.forget s) (if ∃ key ∈ c.key w.db.store, w.Locked i key then none
        else some (w.call i c)) = if ∃ key ∈ c.key w.db.store, w.Locked i key then none
          else some ((w.forget s).call i c) := by
      split_ifs
      · rfl
      · exact congrArg some (forget_call s w i c)
    cases w.phase i with
    | idle =>
      rw [Phase.forgetIf_idle]
      exact hcall
    | holds key =>
      rw [Phase.forgetIf_holds]
      exact hcall
    | _ => simp
  | abort i =>
    simp only [Lease.step, Op.forget]
    simp [forget_set]

/-- **A run in which no client of `s` consults its `start_from` goes as if they had no options.** -/
theorem run_forget {ops : List (Op ι)} (hno : (system ι).Along (Spares s) w ops)
    (h : (system ι).run w ops = some w') :
    (system ι).run (w.forget s) (ops.map (Op.forget s)) = some (w'.forget s) := by
  induction ops generalizing w with
  | nil =>
    cases h
    rfl
  | cons o ops ih =>
    obtain ⟨v, hv, h⟩ := System.run_cons_eq_some.mp h
    have hstep : step (w.forget s) (o.forget s) = some (v.forget s) := by
      rw [← forget_step hno.1, show step w o = some v from hv]
      rfl
    exact System.run_cons_eq_some.mpr ⟨v.forget s, hstep, ih (hno.2 v hv) h⟩

end Forget

/-! ## Leases -/

/-- What the leases of a world guarantee. -/
structure Leases [Fintype ι] (w : World ι) : Prop where
  /-- A lease excludes the other workers. -/
  exclusive : Exclusive w.history
  /-- Who was superseded is refused, and changes nothing. -/
  superseded : ∀ worker key, Superseded w.history worker key → ∀ c : Call, c.worker = some worker →
    c.key w.db.store = some key →
      (∃ e, c.run w.db.store = .error e ∧ (c.check = .error e ∨ c.check = .ok () ∧
        e.sqlstate = if (w.row key).isSome then .IS022 else .IS020)) ∧
      ∀ i, w.call i c = w.set i .idle
  /-- A claim keeps the cursor of a row that exists. -/
  lastSeen : ∀ o w', step w o = some w' → (∀ i c, o ≠ .call i c) → ∀ key r, w.row key = some r →
    ∃ r', w'.row key = some r' ∧ r'.lastSeen = r.lastSeen
  /-- From here on, the clients `s` might as well have no options, as long as none of them resolves a
  malformed `start_from` or creates a row, whatever rows there are and whoever else creates some. -/
  startFrom : ∀ s ops w', (system ι).run w ops = some w' → (system ι).Along (Spares s) w ops →
    (system ι).run (w.forget s) (ops.map (Op.forget s)) = some (w'.forget s)

/-- The statements of a claim by `worker`, up to its commit. -/
def sampleClaim (i : Bool) (worker : String) (statements : ℕ) : List (Op Bool) :=
  .claim i (some "$all") (some "orders") (some worker) (some 1) none ::
    (List.replicate statements (.run i) ++ [.commit i])

/-- `v` takes the expired lease of `w`, and the subscription is deleted. -/
def sampleTakeover : List (Op Bool) :=
  sampleClaim true "w" 4 ++ [.tick 2000000] ++ sampleClaim false "v" 4 ++
    [.call false (.delete (some "$all") (some "orders"))]

end Instructed.Lease
