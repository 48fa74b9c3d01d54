import Instructed.Consistency.Complete
import Instructed.Health.Contiguous
import Instructed.Queue.ForeignKeys

/-!
# The health report

`tools/instructedctl/src/core/health.ts`: `checkHealth` runs four queries, one after the other. The
procedures run between them, so that each query looks at a store of its own.

* `countCheck`: a check that counts rows;
* `checkHealth`: the report;
* `claim_expired`: a claim of a subscription whose lease has run out;
* `checkHealth_exact`: **whatever the procedures did, no check fails but that of the leases**, and each
  subscription that it counts goes to the next worker that asks.
-/

namespace Instructed.Health

open Sql Relational Transition Queue Double

/-! ## The checks -/

structure HealthReport where
  ok : Bool
  checks : List HealthCheck
  deriving DecidableEq

/-- A check that complains of `count` rows; `found` ends its detail. -/
def countCheck (name found : String) (count : ℕ) : HealthCheck :=
  let n := number count
  { name := name
    ok := decide (n = 0)
    detail := if n = 0 then "none" else toString n ++ found }

def noOrphanedStreamEvents (st : Store) : HealthCheck :=
  countCheck "no orphaned stream_events" " stream_events rows with no event"
    (st.streamEvents.rows.countP fun se => (st.events.find? se.eventId).isNone)

/-- `claimed_by is not null and claim_expires_at < now()`. -/
def expiredLease (now : Timestamp) (s : SubscriptionRow) : Bool :=
  s.claimedBy.isSome && s.claimExpiresAt.any (· < now)

def noExpiredLeaseZombies (now : Timestamp) (st : Store) : HealthCheck :=
  countCheck "no expired-lease zombies" " subscription(s) claimed past lease expiry (dead worker?)"
    (st.subscriptions.rows.countP (expiredLease now))

def noOrphanedWorkItems (st : Store) : HealthCheck :=
  countCheck "no orphaned work items" " work item(s) with no subscription"
    (st.workItems.rows.countP fun wi => (st.subscriptions.find? wi.subscription).isNone)

/-- `checkHealth`; its queries look at the stores `st₁`, …, `st₄`. -/
def checkHealth (now : Timestamp) (st₁ st₂ st₃ st₄ : Store) : HealthReport :=
  let checks := [allContiguous (Store.allVersions st₁), noOrphanedStreamEvents st₂,
    noExpiredLeaseZombies now st₃, noOrphanedWorkItems st₄]
  { ok := checks.all (·.ok), checks := checks }

/-- A count is rounded, but never to zero. -/
theorem countCheck_ok_iff {α : Type} {name found : String} {rows : List α} {p : α → Bool} :
    (countCheck name found (rows.countP p)).ok = true ↔ ∀ r ∈ rows, p r = false := by
  show decide (number (rows.countP p : ℕ) = 0) = true ↔ _
  rw [decide_eq_true_iff, number_eq_zero_iff, List.countP_eq_zero]
  simp only [Bool.not_eq_true]

section Store

variable {st : Store} {row : SubscriptionRow} {now : Timestamp}

theorem noOrphanedStreamEvents_of_consistent (hc : st.Consistent) :
    (noOrphanedStreamEvents st).ok = true := by
  apply countCheck_ok_iff.mpr
  intro se hse
  obtain ⟨e, he⟩ := (Store.LinkConstraints.of_consistent hc).event se hse
  rw [he]
  rfl

theorem noOrphanedWorkItems_of_referenced (h : Referenced st) : (noOrphanedWorkItems st).ok = true := by
  apply countCheck_ok_iff.mpr
  intro wi hwi
  obtain ⟨row, hrow, hkey⟩ := h wi hwi
  rw [Table.find?_of_mem hrow hkey]
  rfl

theorem noExpiredLeaseZombies_iff : (noExpiredLeaseZombies now st).ok = true ↔
    ∀ row ∈ st.subscriptions.rows, expiredLease now row = false := countCheck_ok_iff

theorem expiredLease_iff : expiredLease now row = true ↔
    ∃ holder expires, row.claimedBy = some holder ∧ row.claimExpiresAt = some expires ∧ expires < now := by
  simp [expiredLease, Option.isSome_iff_exists, Option.any_eq_true]

/-! ## The subscriptions that are counted -/

/-- A lease that has run out does not keep another worker from the subscription, which goes on from its
    cursor. -/
theorem claim_expired {stream : StreamRow} {worker : String} {later : Timestamp} {secs : ℤ}
    (hstream : st.streamByUuid stream.streamUuid = some stream) (hid : stream.streamId = row.streamId)
    (hrow : row ∈ st.subscriptions.rows) (hname : row.subscriptionName ≠ "")
    (hexpired : expiredLease now row = true) (hlater : now ≤ later) (hworker : worker ≠ "")
    (hsecs : 0 < secs) (options : Option Json) :
    claimSubscription later (some stream.streamUuid) (some row.subscriptionName) (some worker) (some secs)
        options st =
      .ok (⟨.claimed, row.lastSeen, some worker, some (addSeconds later secs)⟩,
        st.putSubscription
          { row with claimedBy := some worker, claimExpiresAt := some (addSeconds later secs) }) := by
  obtain ⟨holder, expires, hholder, hexpires, hlt⟩ := expiredLease_iff.mp hexpired
  have hfind : st.subscriptions.find? (stream.streamId, row.subscriptionName) = some row := by
    apply Table.find?_of_mem hrow
    rw [hid]
    rfl
  have hpast : expires ≤ later := hlt.le.trans hlater
  have hheld : row.heldByOther worker later = false := by
    simp [SubscriptionRow.heldByOther, hholder, hexpires, hpast]
  have hfree : row.claimable worker later = true := by
    simp [SubscriptionRow.claimable, hholder, hexpires, hpast]
  simp only [claimSubscription, notNull, notEmpty_of_ne hname, notEmpty_of_ne hworker,
    positive_of_pos hsecs, hstream, hfind, hheld, hfree, bind, Except.bind, pure, Except.pure]
  rfl

end Store

/-! ## The report -/

section Worlds

variable {κ : Type} [DecidableEq κ] {w w₁ w₂ w₃ w₄ : World κ}

theorem names_of_lifecycle (hw : Reachable lifecycle w) : Consistency.NamesOk w.db.store := by
  refine hw.invariant (P := fun v => Consistency.NamesOk v.db.store) ?_ fun v a v' hok _ hs => ?_
  · rintro _ rfl row hr
    cases hr
  · cases a with
    | op o => exact Consistency.names_step hs hok
    | deleteSubscription u name =>
      obtain rfl := Option.some.inj hs
      cases hd : Instructed.deleteSubscription u name v.db.store with
      | error e => exact hok
      | ok st =>
        obtain ⟨_, _, _, _, -, -, -, -, rfl⟩ := deleteSubscription_ok hd
        exact fun row hr => hok row (Table.mem_deleteWhere.mp hr).1

/-- **Only dead workers spoil the report.** The queries may look at any states that the procedures reach.
    No check but that of the leases fails, and each subscription that it counts is granted to whoever
    claims it then or later. -/
theorem checkHealth_exact (h₁ : Reachable lifecycle w₁) (h₂ : Reachable lifecycle w₂)
    (h₃ : Reachable lifecycle w₃) (h₄ : Reachable lifecycle w₄) (now : Timestamp) :
    ((checkHealth now w₁.db.store w₂.db.store w₃.db.store w₄.db.store).ok = true ↔
        ∀ row ∈ w₃.db.store.subscriptions.rows, expiredLease now row = false) ∧
      (∀ check ∈ (checkHealth now w₁.db.store w₂.db.store w₃.db.store w₄.db.store).checks,
        check.ok = false → check = noExpiredLeaseZombies now w₃.db.store) ∧
      ∀ row ∈ w₃.db.store.subscriptions.rows, expiredLease now row = true →
        ∃ stream, w₃.db.store.streamByUuid stream.streamUuid = some stream ∧
          stream.streamId = row.streamId ∧
          ∀ later worker secs options, now ≤ later → worker ≠ "" → 0 < secs →
            claimSubscription later (some stream.streamUuid) (some row.subscriptionName) (some worker)
                (some secs) options w₃.db.store =
              .ok (⟨.claimed, row.lastSeen, some worker, some (addSeconds later secs)⟩,
                w₃.db.store.putSubscription { row with
                  claimedBy := some worker, claimExpiresAt := some (addSeconds later secs) }) := by
  have hall : (allContiguous (Store.allVersions w₁.db.store)).ok = true :=
    allContiguous_of_consistent (Rooted.of_reachable h₁).consistent.store
  have hevents : (noOrphanedStreamEvents w₂.db.store).ok = true :=
    noOrphanedStreamEvents_of_consistent (Rooted.of_reachable h₂).consistent.store
  have hitems : (noOrphanedWorkItems w₄.db.store).ok = true :=
    noOrphanedWorkItems_of_referenced (Referenced.of_reachable h₄)
  refine ⟨?_, ?_, ?_⟩
  · rw [← noExpiredLeaseZombies_iff]
    simp [checkHealth, hall, hevents, hitems]
  · intro check hcheck hfails
    simp only [checkHealth, List.mem_cons, List.not_mem_nil, or_false] at hcheck
    rcases hcheck with rfl | rfl | rfl | rfl
    · simp [hall] at hfails
    · simp [hevents] at hfails
    · rfl
    · simp [hitems] at hfails
  · intro row hrow hexpired
    have hrooted := Rooted.of_reachable h₃
    obtain ⟨stream, hstream, hid⟩ := hrooted.store.subscriptions row hrow
    refine ⟨stream, hrooted.consistent.store.streamByUuid_of_mem hstream, hid, ?_⟩
    intro later worker secs options hlater hworker hsecs
    exact claim_expired (hrooted.consistent.store.streamByUuid_of_mem hstream) hid hrow
      (names_of_lifecycle h₃ row hrow) hexpired hlater hworker hsecs options

/-- A worker claims for five seconds, and is not heard of again. -/
def sampleDead : List (Act ℕ) :=
  [.op (.call (.claimSubscription 0 (some "$all") (some "orders") (some "a") (some 5) none))]

theorem checkHealth_exact_sampleDead : ∃ w : World ℕ,
    lifecycle.run World.install sampleDead = some w ∧
      (checkHealth 6000000 w.db.store w.db.store w.db.store w.db.store).ok = false ∧
      ∃ row ∈ w.db.store.subscriptions.rows, ∃ stream,
        w.db.store.streamByUuid stream.streamUuid = some stream ∧
          claimSubscription 7000000 (some stream.streamUuid) (some row.subscriptionName) (some "b")
              (some 30) none w.db.store =
            .ok (⟨.claimed, row.lastSeen, some "b", some 37000000⟩, w.db.store.putSubscription
              { row with claimedBy := some "b", claimExpiresAt := some 37000000 }) := by
  have hrun : ((lifecycle.run (World.install : World ℕ) sampleDead).bind fun w =>
      w.db.store.subscriptions.rows.find? (expiredLease 6000000)).isSome = true := by
    decide +kernel
  obtain ⟨row, hrun⟩ := Option.isSome_iff_exists.mp hrun
  obtain ⟨w, hw, hfound⟩ := Option.bind_eq_some_iff.mp hrun
  have hreach : Reachable lifecycle w := Reachable.run (.init rfl) hw
  have hrow : row ∈ w.db.store.subscriptions.rows := List.mem_of_find?_eq_some hfound
  have hexpired : expiredLease 6000000 row = true := List.find?_some hfound
  obtain ⟨hok, -, hgranted⟩ := checkHealth_exact hreach hreach hreach hreach 6000000
  obtain ⟨stream, hstream, -, hclaim⟩ := hgranted row hrow hexpired
  refine ⟨w, hw, ?_, row, hrow, stream, hstream, hclaim 7000000 "b" 30 none ?_ ?_ ?_⟩
  · rw [← Bool.not_eq_true, hok]
    intro hnone
    rw [hnone row hrow] at hexpired
    cases hexpired
  · decide
  · decide
  · omega

end Worlds

end Instructed.Health
