import Instructed.Lease.Model
import Instructed.Lib.History

/-!
# One holder at a time

The committed rows are what the history says they are, and every entry of the history is justified by
the entries before it: a claim finds no lease, its own, or one that has expired.

* `status`, `Agrees`: the lease of a row after a history;
* `Permits`: what a lease must be for an entry to be committed;
* `Exclusive`, `exclusive_of_justified`: a lease excludes the other workers;
* `Superseded`: another worker has taken the row over;
* `Sound`, `sound_of_reachable`: the invariant.
-/

namespace Instructed.Lease

open Sql Relational Transition History

/-! ## Histories -/

/-- The row that the event is about. -/
def Event.key : Event → ℕ × String
  | .claimed _ key _ => key
  | .released _ key => key
  | .deleted key => key

/-- The lease after the event; `none` when there is no row, `some none` when it is free. -/
def Event.status : Event → Option (Option (String × Timestamp))
  | .claimed worker _ expires => some (some (worker, expires))
  | .released _ _ => some none
  | .deleted _ => none

/-- The lease of the row after the history. -/
def status (key : ℕ × String) (h : List Entry) : Option (Option (String × Timestamp)) :=
  h.foldl (fun s x => if x.event.key = key then x.event.status else s) none

/-- What the lease must be when the entry is committed. -/
def Permits (h : List Entry) (x : Entry) : Prop :=
  match x.event with
  | .claimed worker key _ => ∀ holder expires, status key h = some (some (holder, expires)) →
      holder = worker ∨ expires ≤ x.time
  | .released worker key => ∃ expires, status key h = some (some (worker, expires))
  | .deleted _ => True

section Histories

variable {h h' pre mid : List Entry} {x : Entry} {key : ℕ × String} {worker : String}
  {time expires : Timestamp}

@[simp] theorem status_nil : status key [] = none := rfl

theorem status_snoc : status key (h ++ [x]) =
    if x.event.key = key then x.event.status else status key h := by
  simp [status]

/-- The event neither ends nor renews the lease of `worker`. -/
def Keeps (worker : String) (key : ℕ × String) (x : Entry) : Prop :=
  x.event ≠ .released worker key ∧ x.event ≠ .deleted key ∧
    ∀ expires, x.event ≠ .claimed worker key expires

/-- From a claim on, until it expires, no other worker claims the row, unless the lease was released or
    the row deleted. -/
def Exclusive (h : List Entry) : Prop :=
  ∀ pre mid post worker holder key expires expires' time time',
    h = pre ++ ⟨time, .claimed worker key expires⟩ :: mid ++
      ⟨time', .claimed holder key expires'⟩ :: post →
    holder ≠ worker → (∀ x ∈ mid, Keeps worker key x) → expires ≤ time'

/-- Another worker has claimed the row, and `worker` has not since. -/
def Superseded (h : List Entry) (worker : String) (key : ℕ × String) : Prop :=
  ∃ pre post time holder expires, h = pre ++ ⟨time, .claimed holder key expires⟩ :: post ∧
    holder ≠ worker ∧ ∀ x ∈ post, ∀ expires, x.event ≠ .claimed worker key expires

/-- While nobody else claims the row, a lease that is not ended stays. -/
theorem status_of_keeps (hj : Justified Permits (pre ++ ⟨time, .claimed worker key expires⟩ :: mid))
    (hkeeps : ∀ x ∈ mid, Keeps worker key x)
    (hnone : ∀ x ∈ mid, ∀ holder expires, x.event ≠ .claimed holder key expires) :
    status key (pre ++ ⟨time, .claimed worker key expires⟩ :: mid) =
      some (some (worker, expires)) := by
  induction mid using List.reverseRecOn with
  | nil =>
    rw [status_snoc]
    exact if_pos rfl
  | append_singleton mid y ih =>
    have hassoc : pre ++ ⟨time, .claimed worker key expires⟩ :: (mid ++ [y]) =
        (pre ++ ⟨time, .claimed worker key expires⟩ :: mid) ++ [y] := by simp
    rw [hassoc] at hj ⊢
    have hbefore := ih (Justified.append_iff.mp hj).1
      (fun z hz => hkeeps z (List.mem_append_left _ hz))
      (fun z hz => hnone z (List.mem_append_left _ hz))
    rw [status_snoc]
    split_ifs with hkey
    · have hpermits := hj _ y [] rfl
      obtain ⟨hrel, hdel, -⟩ := hkeeps y (by simp)
      have hclaim := hnone y (by simp)
      unfold Permits at hpermits
      cases hevent : y.event with
      | claimed holder k e =>
        rw [hevent] at hkey
        obtain rfl : k = key := hkey
        exact absurd hevent (hclaim holder e)
      | released holder k =>
        rw [hevent] at hkey hpermits
        obtain rfl : k = key := hkey
        obtain ⟨e, he⟩ := hpermits
        rw [hbefore] at he
        obtain ⟨rfl, -⟩ := Prod.mk.inj (Option.some.inj (Option.some.inj he))
        exact absurd hevent hrel
      | deleted k =>
        rw [hevent] at hkey
        obtain rfl : k = key := hkey
        exact absurd hevent hdel
    · exact hbefore

/-- In a history that is justified, and whose times do not decrease, a lease excludes the others. -/
theorem exclusive_of_justified (hj : Justified Permits h)
    (hsorted : h.Pairwise fun x y => x.time ≤ y.time) : Exclusive h := by
  intro pre mid post worker holder key expires expires' time time' heq hne hkeeps
  -- The first other worker that claims the row decides: induction on what lies between the claims.
  induction hn : mid.length using Nat.strong_induction_on generalizing mid post holder expires' time'
    with
  | _ n ih =>
    subst hn
    by_cases hother : ∃ y ∈ mid, ∃ holder expires, y.event = .claimed holder key expires
    · obtain ⟨⟨t, event⟩, hy, holder₁, expires₁, hevent⟩ := hother
      obtain rfl : event = .claimed holder₁ key expires₁ := hevent
      obtain ⟨mid₁, mid₂, rfl⟩ := List.append_of_mem hy
      have hne₁ : holder₁ ≠ worker := by
        rintro rfl
        exact (hkeeps _ hy).2.2 expires₁ rfl
      have hle := ih mid₁.length (by simp) mid₁
        (mid₂ ++ ⟨time', .claimed holder key expires'⟩ :: post) holder₁ expires₁ t
        (by rw [heq]; simp) hne₁ (fun x hx => hkeeps x (by simp [hx])) rfl
      have htime : t ≤ time' := by
        rw [heq, List.pairwise_append] at hsorted
        exact hsorted.2.2 ⟨t, .claimed holder₁ key expires₁⟩ (by simp)
          ⟨time', .claimed holder key expires'⟩ (by simp)
      exact hle.trans htime
    · have hnone : ∀ y ∈ mid, ∀ holder expires, y.event ≠ .claimed holder key expires :=
        fun y hy holder expires hevent => hother ⟨y, hy, holder, expires, hevent⟩
      have hbefore : Justified Permits (pre ++ ⟨time, .claimed worker key expires⟩ :: mid) := by
        rw [heq] at hj
        exact (Justified.append_iff.mp hj).1
      have hpermits := hj _ _ _ heq
      have hstatus := status_of_keeps hbefore hkeeps hnone
      rcases hpermits worker expires hstatus with rfl | hle
      · exact absurd rfl hne
      · exact hle

/-- Who was superseded has no lease. -/
theorem Superseded.status_ne (hs : Superseded h worker key) (e : Timestamp) :
    status key h ≠ some (some (worker, e)) := by
  obtain ⟨pre, post, time, holder, expires, rfl, hne, hpost⟩ := hs
  induction post using List.reverseRecOn with
  | nil =>
    have hlast : status key (pre ++ [⟨time, .claimed holder key expires⟩]) =
        some (some (holder, expires)) := by
      rw [status_snoc]
      exact if_pos rfl
    rw [hlast]
    intro heq
    obtain ⟨rfl, -⟩ := Prod.mk.inj (Option.some.inj (Option.some.inj heq))
    exact hne rfl
  | append_singleton post y ih =>
    have hassoc : pre ++ ⟨time, .claimed holder key expires⟩ :: (post ++ [y]) =
        (pre ++ ⟨time, .claimed holder key expires⟩ :: post) ++ [y] := by simp
    rw [hassoc, status_snoc]
    split_ifs with hkey
    · intro heq
      cases hevent : y.event with
      | claimed x k e' =>
        rw [hevent] at hkey heq
        obtain rfl : k = key := hkey
        obtain ⟨rfl, rfl⟩ := Prod.mk.inj (Option.some.inj (Option.some.inj heq))
        exact hpost y (by simp) e' hevent
      | released x k =>
        rw [hevent] at heq
        cases Option.some.inj heq
      | deleted k =>
        rw [hevent] at heq
        cases heq
    · exact ih fun x hx => hpost x (List.mem_append_left _ hx)

end Histories

/-! ## The invariant -/

/-- `now()` of the session's claim. -/
def Phase.now : Phase → Option Timestamp
  | .resolve now _ | .precheck now _ _ | .start now _ _ | .insert now _ _ _ | .select now _ _
  | .update now _ _ | .claimed now _ _ _ => some now
  | .idle | .holds _ => none

/-- The columns of a lease, after a history. -/
def columns (s : Option (String × Timestamp)) : Option String × Option Timestamp :=
  (s.map Prod.fst, s.map Prod.snd)

/-- What a session knows about the row that it has locked. -/
def Knows (row : ℕ × String → Option SubscriptionRow) : Phase → Prop
  | .update _ _ r => row r.pkey = some r
  | .claimed now worker _ r => row r.pkey = none ∨ row r.pkey = some r ∧ r.claimable worker now = true
  | _ => True

/-- The committed rows are what the history says. -/
def Agrees (row : ℕ × String → Option SubscriptionRow) (h : List Entry) : Prop :=
  ∀ key, (row key).map (fun r => (r.claimedBy, r.claimExpiresAt)) = (status key h).map columns

variable {ι : Type}

/-- What holds of every reachable world. -/
structure Sound (w : World ι) : Prop where
  now : ∀ i, ∀ now ∈ (w.phase i).now, now ≤ w.clock
  alone : ∀ i key, (w.phase i).locks = some key → ¬ w.Locked i key
  knows : ∀ i, Knows w.row (w.phase i)
  agrees : Agrees w.row w.history
  justified : Justified Permits w.history
  sorted : w.history.Pairwise fun x y => x.time ≤ y.time
  past : ∀ x ∈ w.history, x.time ≤ w.clock

theorem install_sound : Sound (World.install ι) where
  now i now h := by cases h
  alone i key h := by cases h
  knows i := trivial
  agrees key := rfl
  justified := .nil
  sorted := .nil
  past x h := by cases h

/-- The lease in the history is the one in the row. -/
theorem Agrees.exists_row {row : ℕ × String → Option SubscriptionRow} {h : List Entry}
    {key : ℕ × String} {worker : String} {expires : Timestamp} (ha : Agrees row h)
    (hs : status key h = some (some (worker, expires))) :
    ∃ r, row key = some r ∧ r.claimedBy = some worker ∧ r.claimExpiresAt = some expires := by
  have hkey := ha key
  rw [hs] at hkey
  obtain ⟨r, hr, hcolumns⟩ := Option.map_eq_some_iff.mp hkey
  obtain ⟨hholder, hexpires⟩ := Prod.mk.inj hcolumns
  exact ⟨r, hr, hholder, hexpires⟩

theorem Agrees.exists_status {row : ℕ × String → Option SubscriptionRow} {h : List Entry}
    {key : ℕ × String} {r : SubscriptionRow} {worker : String} (ha : Agrees row h)
    (hr : row key = some r) (hholder : r.claimedBy = some worker) :
    ∃ expires, status key h = some (some (worker, expires)) := by
  have hkey := ha key
  rw [hr] at hkey
  obtain ⟨s, hs, hcolumns⟩ := Option.map_eq_some_iff.mp hkey.symm
  have hfst : s.map Prod.fst = some worker := (congrArg Prod.fst hcolumns).trans hholder
  obtain ⟨⟨_, expires⟩, rfl, rfl⟩ := Option.map_eq_some_iff.mp hfst
  exact ⟨expires, hs⟩

/-- One row was written, as the last entry says. -/
theorem Agrees.snoc {row row' : ℕ × String → Option SubscriptionRow} {h : List Entry} {x : Entry}
    (ha : Agrees row h) (hother : ∀ key, key ≠ x.event.key → row' key = row key)
    (hself : (row' x.event.key).map (fun r => (r.claimedBy, r.claimExpiresAt)) =
      x.event.status.map columns) : Agrees row' (h ++ [x]) := by
  intro key
  rw [status_snoc]
  split_ifs with hkey
  · rw [← hkey]
    exact hself
  · rw [hother key fun heq => hkey heq.symm]
    exact ha key

section Steps

variable [DecidableEq ι] {w w' : World ι} {i : ι}

/-- Writing a row does not concern a session that has locked another. -/
theorem Knows.congr {row row' : ℕ × String → Option SubscriptionRow} {p : Phase} (h : Knows row p)
    (heq : ∀ key, p.locks = some key → row' key = row key) : Knows row' p := by
  cases p with
  | update now c r => exact (heq _ rfl).trans h
  | claimed now worker expires r =>
    have hrow : row' r.pkey = row r.pkey := heq r.pkey rfl
    simp only [Knows, hrow] at h ⊢
    exact h
  | _ => exact trivial

/-- A session goes on, with the lock it has, with none, or with one that no other session has. -/
theorem Sound.set (hs : Sound w) {p : Phase} (hnow : ∀ now ∈ p.now, now ≤ w.clock)
    (hlock : ∀ key, p.locks = some key → ¬ w.Locked i key) (hknows : Knows w.row p) :
    Sound (w.set i p) := by
  have hphase : ∀ j, j ≠ i → (w.set i p).phase j = w.phase j := fun j hj =>
    Function.update_of_ne hj _ _
  have hself : (w.set i p).phase i = p := Function.update_self ..
  refine ⟨fun j => ?_, fun j key hj => ?_, fun j => ?_, hs.agrees, hs.justified, hs.sorted, hs.past⟩
  · by_cases hji : j = i
    · subst hji
      rwa [hself]
    · rw [hphase j hji]
      exact hs.now j
  · rintro ⟨k, hkj, hk⟩
    by_cases hji : j = i
    · subst hji
      rw [hself] at hj
      rw [hphase k hkj] at hk
      exact hlock key hj ⟨k, hkj, hk⟩
    · rw [hphase j hji] at hj
      by_cases hki : k = i
      · subst hki
        rw [hself] at hk
        exact hlock key hk ⟨j, hji, hj⟩
      · rw [hphase k hki] at hk
        exact hs.alone j key hj ⟨k, hkj, hk⟩
  · by_cases hji : j = i
    · subst hji
      rwa [hself]
    · rw [hphase j hji]
      exact hs.knows j

theorem Sound.idle (hs : Sound w) : Sound (w.set i .idle) :=
  hs.set (fun _ h => by cases h) (fun _ h => by cases h) trivial

/-- A transaction commits: it has written rows that no other session had locked. -/
theorem Sound.commit (hs : Sound w) {db : Db} {es : List Entry}
    (hrows : ∀ key, w.Locked i key → db.store.subscriptions.find? key = w.row key)
    (hagrees : Agrees (fun key => db.store.subscriptions.find? key) (w.history ++ es))
    (hjustified : Justified Permits (w.history ++ es)) (hsorted : es.Pairwise fun x y => x.time ≤ y.time)
    (htime : ∀ x ∈ es, x.time = w.clock) :
    Sound { w.set i .idle with db := db, history := w.history ++ es } := by
  have hidle := hs.idle (i := i)
  refine ⟨hidle.now, hidle.alone, fun j => ?_, hagrees, hjustified, ?_, ?_⟩
  · by_cases hji : j = i
    · subst hji
      show Knows _ (Function.update w.phase j .idle j)
      rw [Function.update_self]
      exact trivial
    · show Knows _ (Function.update w.phase i .idle j)
      rw [Function.update_of_ne hji]
      exact (hs.knows j).congr fun key hkey => hrows key ⟨j, hji, hkey⟩
  · refine List.pairwise_append.mpr ⟨hs.sorted, hsorted, fun x hx y hy => ?_⟩
    exact (hs.past x hx).trans (htime y hy).ge
  · intro x hx
    rcases List.mem_append.mp hx with hx | hx
    · exact hs.past x hx
    · exact (htime x hx).le

theorem Sound.commitClaim [Fintype ι] (hs : Sound w) {now expires : Timestamp} {worker : String}
    {row : SubscriptionRow} (hphase : w.phase i = .claimed now worker expires row) :
    Sound (w.commitClaim i worker expires row) := by
  have hknows := hs.knows i
  have hnow := hs.now i
  have halone := hs.alone i row.pkey
  rw [hphase] at hknows hnow halone
  have hput : ∀ key, key ≠ row.pkey →
      (w.db.store.putSubscription (lease row worker expires)).subscriptions.find? key = w.row key := by
    intro key hkey
    simp only [Store.putSubscription, Table.find?_put, pkey_lease]
    exact if_neg hkey.symm
  refine hs.commit (fun key hlocked => hput key ?_) (hs.agrees.snoc hput ?_)
    (hs.justified.snoc ?_) (List.pairwise_singleton _ _) (by simp)
  · rintro rfl
    exact halone rfl hlocked
  · simp only [Event.key, Store.putSubscription, Table.find?_put, pkey_lease, if_true]
    rfl
  · -- The lease found was free, the worker's own, or expired by the time of `now()`.
    intro holder expires' hstatus
    obtain ⟨r, hr, hholder, hexpires⟩ := hs.agrees.exists_row hstatus
    have hr' : w.row row.pkey = some r := hr
    rcases hknows with hnone | ⟨hsome, hclaimable⟩
    · rw [hnone] at hr'
      cases hr'
    · obtain rfl := Option.some.inj (hsome.symm.trans hr')
      simp only [SubscriptionRow.claimable, hholder, hexpires, Bool.decide_or, Bool.or_eq_true,
        decide_eq_true_eq] at hclaimable
      rcases hclaimable with hle | heq
      · exact Or.inr (hle.trans (hnow now rfl))
      · exact Or.inl heq

theorem keyOf_eq {st : Store} {u : String} (name : String) {stream : StreamRow}
    (h : st.streamByUuid u = some stream) :
    keyOf st (some u) (some name) = some (stream.streamId, name) := by
  simp [keyOf, h]

theorem Sound.release (hs : Sound w) {u name worker : Option String} {st : Store}
    (hrun : releaseSubscription u name worker w.db.store = .ok st)
    (hfree : ∀ key ∈ keyOf w.db.store u name, ¬ w.Locked i key) :
    Sound { w.set i .idle with
      db := { w.db with store := st }
      history := w.history ++
        (((Call.release u name worker).event w.db.store).map (Entry.mk w.clock)).toList } := by
  obtain ⟨u, name, worker, stream, row, rfl, rfl, rfl, hstream, hrow, hholder, rfl⟩ :=
    releaseSubscription_ok hrun
  have hkey := keyOf_eq name hstream
  have hpkey : row.pkey = (stream.streamId, name) := Table.key_of_find? hrow
  have hevent : (Call.release (some u) (some name) (some worker)).event w.db.store =
      some (.released worker (stream.streamId, name)) := by
    simp [Call.event, hkey]
  have hput : ∀ key, key ≠ (stream.streamId, name) → (w.db.store.putSubscription { row with
      claimedBy := none, claimExpiresAt := none }).subscriptions.find? key = w.row key := by
    intro key hkey
    rw [← hpkey] at hkey
    simp only [Store.putSubscription, Table.find?_put]
    exact if_neg hkey.symm
  rw [hevent]
  refine hs.commit (fun key hlocked => hput key ?_) (hs.agrees.snoc hput ?_)
    (hs.justified.snoc (hs.agrees.exists_status hrow hholder)) (List.pairwise_singleton _ _)
    (by simp)
  · rintro rfl
    exact hfree _ hkey hlocked
  · simp only [Event.key, ← hpkey, Store.putSubscription, Table.find?_put]
    exact congrArg _ (if_pos rfl)

theorem Sound.routeBatch (hs : Sound w) {u name worker : Option String} {cursor : Option ℤ}
    {decisions : Option Json} {r : ℕ × ℕ} {st : Store}
    (hrun : Instructed.routeBatch u name worker cursor decisions w.db.store = .ok (r, st))
    (hfree : ∀ key ∈ keyOf w.db.store u name, ¬ w.Locked i key) :
    Sound { w.set i .idle with
      db := { w.db with store := st }
      history := w.history ++ [] } := by
  obtain ⟨u, name, worker, cursor, ds, stream, row, items, rfl, rfl, rfl, rfl, -, hstream, hrow,
    -, -, -, rfl⟩ := routeBatch_ok hrun
  have hkey := keyOf_eq name hstream
  have hpkey : row.pkey = (stream.streamId, name) := Table.key_of_find? hrow
  have hput : ∀ key, key ≠ (stream.streamId, name) →
      ((w.db.store.insertItems items).putSubscription { row with
        lastSeen := max row.lastSeen cursor }).subscriptions.find? key = w.row key := by
    intro key hkey
    rw [← hpkey] at hkey
    simp only [Store.putSubscription, Store.insertItems, Table.find?_put]
    exact if_neg hkey.symm
  refine hs.commit (fun key hlocked => hput key ?_) (fun key => ?_)
    ((List.append_nil w.history).symm ▸ hs.justified) .nil (fun x hx => by cases hx)
  · rintro rfl
    exact hfree _ hkey hlocked
  · rw [List.append_nil, ← hs.agrees key]
    by_cases hk : key = (stream.streamId, name)
    · -- The lease of the row is not written.
      have hself : ((w.db.store.insertItems items).putSubscription { row with
          lastSeen := max row.lastSeen cursor }).subscriptions.find? key =
          some { row with lastSeen := max row.lastSeen cursor } := by
        rw [hk, ← hpkey]
        simp only [Store.putSubscription, Table.find?_put]
        exact if_pos rfl
      have hrow' : w.row key = some row := hk ▸ hrow
      show ((_ : Store).subscriptions.find? key).map _ = (w.row key).map _
      rw [hself, hrow']
      rfl
    · exact congrArg _ (hput key hk)

theorem Sound.delete (hs : Sound w) {u name : Option String} {st : Store}
    (hrun : deleteSubscription u name w.db.store = .ok st)
    (hfree : ∀ key ∈ keyOf w.db.store u name, ¬ w.Locked i key) :
    Sound { w.set i .idle with
      db := { w.db with store := st }
      history := w.history ++
        (((Call.delete u name).event w.db.store).map (Entry.mk w.clock)).toList } := by
  obtain ⟨u, name, stream, row, rfl, rfl, hstream, hrow, rfl⟩ := deleteSubscription_ok hrun
  have hkey := keyOf_eq name hstream
  have hevent : (Call.delete (some u) (some name)).event w.db.store =
      some (.deleted (stream.streamId, name)) := by
    simp [Call.event, hkey]
  have hdel : ∀ key, key ≠ (stream.streamId, name) →
      (w.db.store.subscriptions.deleteWhere fun s =>
        decide (s.pkey = (stream.streamId, name))).find? key = w.row key := by
    intro key hne
    rw [Table.find?_deleteWhere]
    show _ = w.db.store.subscriptions.find? key
    cases hr : w.db.store.subscriptions.find? key with
    | none => rfl
    | some r =>
      have hrkey : r.pkey = key := Table.key_of_find? hr
      simp [hrkey, hne]
  rw [hevent]
  refine hs.commit (fun key hlocked => hdel key ?_) (hs.agrees.snoc hdel ?_)
    (hs.justified.snoc trivial) (List.pairwise_singleton _ _) (by simp)
  · rintro rfl
    exact hfree _ hkey hlocked
  · simp only [Event.key, Table.find?_deleteWhere, hrow, Option.filter_some]
    rw [show row.pkey = (stream.streamId, name) from Table.key_of_find? hrow]
    simp [Event.status]

theorem Sound.call [Fintype ι] (hs : Sound w) {c : Call}
    (hfree : ¬ ∃ key ∈ c.key w.db.store, w.Locked i key) : Sound (w.call i c) := by
  have hfree' : ∀ key ∈ c.key w.db.store, ¬ w.Locked i key := fun key hkey hlocked =>
    hfree ⟨key, hkey, hlocked⟩
  unfold World.call
  cases hrun : c.run w.db.store with
  | error e => exact hs.idle
  | ok st =>
    cases c with
    | release u name worker => exact hs.release hrun hfree'
    | routeBatch u name worker cursor decisions =>
      obtain ⟨⟨r, st'⟩, hroute, rfl⟩ := map_eq_ok.mp hrun
      exact hs.routeBatch hroute hfree'
    | delete u name => exact hs.delete hrun hfree'

/-- The next statement of a claim. -/
theorem Sound.runClaim [Fintype ι] (hs : Sound w) (h : w.runClaim i (w.phase i) = some w') :
    Sound w' := by
  have hnow := hs.now i
  have hknows := hs.knows i
  have halone := hs.alone i
  cases hphase : w.phase i with
  | resolve now c =>
    rw [hphase] at h hnow
    simp only [World.runClaim] at h
    split at h <;> cases h
    · exact hs.idle
    · exact hs.set hnow (fun _ hkey => by cases hkey) trivial
  | precheck now c streamId =>
    rw [hphase] at h hnow
    simp only [World.runClaim] at h
    split at h
    · split_ifs at h <;> cases h
      · exact hs.idle
      · exact hs.set hnow (fun _ hkey => by cases hkey) trivial
    · cases h
      exact hs.set hnow (fun _ hkey => by cases hkey) trivial
  | start now c streamId =>
    rw [hphase] at h hnow
    simp only [World.runClaim] at h
    split at h
    · cases h
      exact hs.idle
    · split at h <;> cases h
      · exact hs.set hnow (fun _ hkey => by cases hkey) trivial
      · exact hs.idle
  | insert now c streamId initial =>
    rw [hphase] at h hnow
    simp only [World.runClaim] at h
    split at h
    · cases h
      exact hs.set hnow (fun _ hkey => by cases hkey) trivial
    · rename_i hnone
      split_ifs at h with hlocked
      cases h
      refine hs.set hnow (fun key hkey => ?_) (Or.inl hnone)
      obtain rfl := Option.some.inj hkey
      exact hlocked
  | select now c streamId =>
    rw [hphase] at h hnow
    simp only [World.runClaim] at h
    split at h
    · cases h
      exact hs.idle
    · rename_i row hrow
      have hpkey : row.pkey = (streamId, c.subscriptionName) := Table.key_of_find? hrow
      split_ifs at h with hlocked <;> cases h
      · exact hs.idle
      · refine hs.set hnow (fun key hkey => ?_) ?_
        · obtain rfl := Option.some.inj hkey
          rwa [hpkey]
        · show w.row row.pkey = some row
          rw [hpkey, hrow]
  | update now c row =>
    rw [hphase] at h hnow hknows halone
    simp only [World.runClaim] at h
    split_ifs at h with hclaimable <;> cases h
    · exact hs.set hnow halone (Or.inr ⟨hknows, hclaimable⟩)
    · exact hs.idle
  | _ =>
    rw [hphase] at h
    cases h

theorem Sound.step [Fintype ι] (hs : Sound w) {o : Op ι} (h : step w o = some w') : Sound w' := by
  cases o with
  | tick t =>
    simp only [Lease.step] at h
    split_ifs at h with hle
    cases h
    exact ⟨fun j now hnow => (hs.now j now hnow).trans hle, hs.alone, hs.knows, hs.agrees, hs.justified,
      hs.sorted, fun x hx => (hs.past x hx).trans hle⟩
  | append now a =>
    cases h
    have htables := (w.db.append_tables now a).1
    have hrow : ∀ key, (w.db.append now a).2.store.subscriptions.find? key = w.row key := fun key =>
      congrArg (fun t => Table.find? t key) htables
    exact ⟨hs.now, hs.alone, fun j => (hs.knows j).congr fun key _ => hrow key,
      fun key => (congrArg _ (hrow key)).trans (hs.agrees key), hs.justified, hs.sorted, hs.past⟩
  | claim i u name worker secs options =>
    simp only [Lease.step] at h
    split at h
    · split at h <;> cases h
      · exact hs.set (fun now hnow => by cases hnow; exact le_rfl) (fun _ hkey => by cases hkey) trivial
      · exact hs
    · cases h
  | run i => exact hs.runClaim h
  | skip i =>
    simp only [Lease.step] at h
    split at h <;> cases h
    exact hs.idle
  | commit i =>
    simp only [Lease.step] at h
    split at h
    · rename_i hphase
      cases h
      exact hs.commitClaim hphase
    · cases h
  | lock i key =>
    simp only [Lease.step] at h
    split at h
    · split_ifs at h with hfree
      cases h
      refine hs.set (fun _ hnow => by cases hnow) (fun k hk => ?_) trivial
      obtain rfl := Option.some.inj hk
      exact fun hlocked => hfree (Or.inl hlocked)
    · cases h
  | call i c =>
    simp only [Lease.step] at h
    split at h
    · split_ifs at h with hfree
      cases h
      exact hs.call hfree
    · split_ifs at h with hfree
      cases h
      exact hs.call hfree
    · cases h
  | abort i =>
    cases h
    exact hs.idle

theorem sound_of_reachable [Fintype ι] (h : Reachable (system ι) w) : Sound w :=
  h.invariant (fun s hs => by
    obtain rfl : s = World.install ι := hs
    exact install_sound) fun _ _ _ hs _ hstep => hs.step hstep

end Steps

end Instructed.Lease
