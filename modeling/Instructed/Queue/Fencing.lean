import Instructed.Lib.History
import Instructed.Queue.Errors
import Instructed.Queue.Invariant

/-!
# Work items are fenced

Who holds a row is what its history says: the worker of the last claim, unless something happened to
the row since (`holder`, `Tracked`). A call by anybody else is refused, whatever the caller did before.

* `lost_call`, `unchecked_call`: a call for a row that its caller has lost raises IS030, unless its
  parameters are refused before;
* `Unsettled`, `SettledInv`: a row that waits for its terminal transition was inserted, and has not been
  completed or failed since;
* `workItem_fenced`: **no effect of a lost claim, an insertion between two terminal transitions of a row,
  and no PM snapshot by a worker that does not hold the row.**
-/

namespace Instructed.Queue

open Sql Relational Transition History

/-! ## The history of a row -/

/-- The row that the event is about. -/
def Event.key : Event → Key
  | .inserted key | .claimed _ key | .completed _ key | .failed _ key | .removed key => key

/-- Who holds the row after the event. -/
def Event.holder : Event → Option String
  | .claimed worker _ => some worker
  | _ => none

/-- The row left the queue: its worker completed or failed it. -/
def Event.terminal : Event → Bool
  | .completed _ _ | .failed _ _ => true
  | _ => false

/-- Who holds the row `key`, by its history. -/
def holder (key : Key) (events : List Event) : Option String :=
  (events.filter fun e => e.key = key).getLast?.bind Event.holder

/-- How often the row `key` was inserted. -/
def insertions (key : Key) (events : List Event) : ℕ := events.count (.inserted key)

/-- How often the row `key` was completed or failed. -/
def terminations (key : Key) (events : List Event) : ℕ :=
  events.countP fun e => e.terminal ∧ e.key = key

section History

variable {key : Key} {worker : String} {events es pre post : List Event} {e : Event}

@[simp] theorem holder_nil : holder key [] = none := rfl

theorem holder_append_of_ne (h : ∀ e ∈ es, e.key ≠ key) :
    holder key (events ++ es) = holder key events := by
  have hnil : (es.filter fun e => e.key = key) = [] :=
    List.filter_eq_nil_iff.mpr fun e he => by simpa using h e he
  simp [holder, List.filter_append, hnil]

theorem holder_concat (h : e.key = key) : holder key (events ++ [e]) = e.holder := by
  simp [holder, List.filter_append, h]

/-- A row that was just inserted is not held. -/
theorem holder_append_eq_none {keys : List Key} (h : key ∈ keys) :
    holder key (events ++ keys.map .inserted) = none := by
  have hmem : Event.inserted key ∈ (keys.map Event.inserted).filter fun e => e.key = key :=
    List.mem_filter.mpr ⟨List.mem_map_of_mem h, decide_eq_true rfl⟩
  rw [holder, List.filter_append, List.getLast?_append_of_ne_nil _ (List.ne_nil_of_mem hmem)]
  rw [Option.bind_eq_none_iff]
  intro e he
  obtain ⟨_, -, rfl⟩ := List.mem_map.mp (List.mem_filter.mp (List.mem_of_getLast? he)).1
  rfl

theorem Event.eq_claimed (hkey : e.key = key) (h : e.holder = some worker) :
    e = .claimed worker key := by
  cases e with
  | claimed other key' =>
    obtain rfl := hkey
    obtain rfl := Option.some.inj h
    rfl
  | _ => cases h

/-- A worker that lost the row and has not claimed it since does not hold it. -/
theorem holder_ne_of_lost (hkey : e.key = key) (hlost : e.holder ≠ some worker)
    (hpost : .claimed worker key ∉ post) : holder key (pre ++ e :: post) ≠ some worker := by
  intro h
  obtain ⟨last, hlast, hholder⟩ := Option.bind_eq_some_iff.mp h
  rw [List.filter_append, List.filter_cons_of_pos (by simpa using hkey),
    List.getLast?_append_of_ne_nil _ (List.cons_ne_nil _ _)] at hlast
  rcases List.mem_cons.mp (List.mem_of_getLast? hlast) with rfl | hmem
  · exact hlost hholder
  · obtain ⟨hmem, hlastkey⟩ := List.mem_filter.mp hmem
    exact hpost (Event.eq_claimed (by simpa using hlastkey) hholder ▸ hmem)

@[simp] theorem terminations_append :
    terminations key (events ++ es) = terminations key events + terminations key es :=
  List.countP_append ..

@[simp] theorem insertions_append :
    insertions key (events ++ es) = insertions key events + insertions key es :=
  List.count_append ..

theorem terminations_eq_zero (h : ∀ e ∈ es, e.terminal = false) : terminations key es = 0 := by
  rw [terminations, List.countP_eq_zero]
  intro e he
  simp [h e he]

theorem insertions_pos {keys : List Key} (h : key ∈ keys) :
    0 < insertions key (keys.map .inserted) :=
  List.count_pos_iff.mpr (List.mem_map_of_mem h)

end History

/-! ## Tables and history -/

/-- Every row belongs to a subscription, and is held by whom its history says. -/
structure Tracked (st : Store) (events : List Event) : Prop where
  holderOk : ∀ row ∈ st.workItems.rows, HolderOk row
  owned : ∀ row ∈ st.workItems.rows, (st.subscriptions.find? row.subscription).isSome = true
  keyed : ∀ e ∈ events, (st.subscriptions.find? e.key.1).isSome = true
  holder_eq : ∀ row ∈ st.workItems.rows, row.claimedBy = holder row.pkey events

/-- The row `key` still waits for its terminal transition. -/
def live (st : Store) (key : Key) : ℕ :=
  match st.workItems.find? key with
  | some row => if row.state = .pending ∨ row.state = .claimed then 1 else 0
  | none => 0

section Tracked

variable {st st' : Store} {events es : List Event} {row row' : WorkItemRow} {key : Key}
  {worker : String}

theorem live_le (st : Store) (key : Key) : live st key ≤ 1 := by
  unfold live
  split
  · split_ifs <;> omega
  · omega

theorem live_eq_of_find (h : st'.workItems.find? key = st.workItems.find? key) :
    live st' key = live st key := by
  rw [live, live, h]

theorem live_eq_one (hrow : st.workItems.find? key = some row)
    (hstate : row.state = .pending ∨ row.state = .claimed) : live st key = 1 := by
  rw [live, hrow]
  exact if_pos hstate

theorem live_eq_zero (hrow : ∀ row, st.workItems.find? key = some row →
    row.state = .done ∨ row.state = .failed) : live st key = 0 := by
  unfold live
  split
  · rename_i row h
    rcases hrow row h with hs | hs <;> simp [hs]
  · rfl

theorem isSome_find?_put {ρ κ : Type} [DecidableEq κ] {f : ρ → κ} {t : Table f} {k : κ} (r : ρ)
    (h : (t.find? k).isSome = true) : ((t.put r).find? k).isSome = true := by
  rw [Table.find?_put]
  split_ifs
  · rfl
  · exact h

theorem claimable_pending_or_claimed {now : Timestamp} (h : row.claimable now = true) :
    row.state = .pending ∨ row.state = .claimed := by
  unfold WorkItemRow.claimable at h
  split at h <;> simp_all

/-- Subscriptions stay. -/
theorem Change.isSome_subscription (h : Change st st' es) {sub : ℕ × String}
    (hs : (st.subscriptions.find? sub).isSome = true) :
    (st'.subscriptions.find? sub).isSome = true := by
  cases h with
  | same hsub _ _ => exact hsub ▸ hs
  | subscription _ => exact isSome_find?_put _ hs
  | routed _ _ _ => exact isSome_find?_put _ hs
  | instanceDeleted hst => exact hst ▸ hs
  | _ => exact hs

/-- A row that is still there was not removed. -/
theorem notMem_removedKeys (hrow : row ∈ st'.workItems.rows) : row.pkey ∉ removedKeys st st' := by
  intro h
  have hnone := (List.mem_filter.mp h).2
  rw [Table.find?_key hrow] at hnone
  cases hnone

/-- A row that was there before was not inserted. -/
theorem notMem_insertedKeys {items : List WorkItemRow} (hrow : row ∈ st.workItems.rows) :
    row.pkey ∉ insertedKeys st (st.insertItems items) := by
  obtain ⟨added, hadded, -⟩ := st.workItems.insertAllNew_rows items
  have hnd := (st.workItems.insertAllNew items).nodup
  intro h
  obtain ⟨x, hx, hkey⟩ := List.mem_map.mp h
  change x ∈ (st.workItems.insertAllNew items).rows.drop _ at hx
  rw [hadded, List.drop_left] at hx
  rw [hadded, List.map_append] at hnd
  exact (List.nodup_append.mp hnd).2.2 _ (List.mem_map_of_mem hrow) _ (List.mem_map_of_mem hx)
    hkey.symm

/-- The events of a call are about rows of subscriptions that exist. -/
theorem Tracked.keyed_change (h : Tracked st events) (hc : Change st st' es) :
    ∀ e ∈ es, (st'.subscriptions.find? e.key.1).isSome = true := by
  have hrow : ∀ {row : WorkItemRow}, st.workItems.find? row.pkey = some row →
      (st'.subscriptions.find? row.pkey.1).isSome = true :=
    fun hrow => hc.isSome_subscription (h.owned _ (Table.mem_of_find? hrow))
  intro e he
  cases hc with
  | @routed sub items _ _ hsub =>
    obtain ⟨key, hkey, rfl⟩ := List.mem_map.mp he
    obtain ⟨row, hr, rfl⟩ := exists_of_mem_insertedKeys hkey
    change ((st.subscriptions.put sub).find? row.subscription).isSome = true
    rw [hsub row hr, Table.find?_put, if_pos rfl]
    rfl
  | claimed hfind _ _ => exact List.mem_singleton.mp he ▸ hrow hfind
  | deleted hfind _ => exact List.mem_singleton.mp he ▸ hrow hfind
  | done hfind _ _ => exact List.mem_singleton.mp he ▸ hrow hfind
  | failed hfind _ _ _ _ _ => exact List.mem_singleton.mp he ▸ hrow hfind
  | instanceDeleted _ =>
    obtain ⟨key, hkey, rfl⟩ := List.mem_map.mp he
    obtain ⟨row, hr, rfl⟩ := List.mem_map.mp (List.mem_filter.mp hkey).1
    exact hrow (Table.find?_key hr)
  | _ => exact nomatch he

/-- Writing one row, with the event that says so. -/
theorem Tracked.holder_put (h : Tracked st events) {e : Event} (hkey : row'.pkey = e.key)
    (hholder : row'.claimedBy = e.holder) :
    ∀ row ∈ (st.workItems.put row').rows, row.claimedBy = holder row.pkey (events ++ [e]) := by
  intro row hr
  rcases Table.mem_put.mp hr with rfl | ⟨hr, hne⟩
  · rw [holder_concat hkey.symm, hholder]
  · rw [h.holder_eq row hr, holder_append_of_ne]
    intro x hx
    obtain rfl := List.mem_singleton.mp hx
    exact fun heq => hne (heq.symm.trans hkey.symm)

/-- Every row is held by whom its history says, also after the call. -/
theorem Tracked.holder_change (h : Tracked st events) (hc : Change st st' es) :
    ∀ row ∈ st'.workItems.rows, row.claimedBy = holder row.pkey (events ++ es) := by
  intro row hr
  cases hc with
  | same _ hitems _ =>
    rw [List.append_nil]
    exact h.holder_eq row (hitems ▸ hr)
  | subscription _ =>
    rw [List.append_nil]
    exact h.holder_eq row hr
  | routed _ hnew _ =>
    rcases Table.mem_of_mem_insertAllNew hr with hold | ⟨hmem, hnone⟩
    · rw [h.holder_eq row hold, holder_append_of_ne]
      intro e he
      obtain ⟨key, hkey, rfl⟩ := List.mem_map.mp he
      exact fun (heq : key = row.pkey) => notMem_insertedKeys hold (heq ▸ hkey)
    · rw [(hnew row hmem).2, holder_append_eq_none (mem_insertedKeys hr hnone)]
  | @extended old _ hfind _ _ =>
    rw [List.append_nil]
    rcases Table.mem_put.mp hr with rfl | ⟨hr, -⟩
    · exact h.holder_eq old (Table.mem_of_find? hfind)
    · exact h.holder_eq row hr
  | claimed _ _ _ => exact h.holder_put rfl rfl row hr
  | done _ _ _ => exact h.holder_put rfl rfl row hr
  | failed _ _ hkey _ hnone _ => exact h.holder_put hkey hnone row hr
  | deleted _ _ =>
    obtain ⟨hr, hne⟩ := Table.mem_deleteWhere.mp hr
    rw [h.holder_eq row hr, holder_append_of_ne]
    intro e he
    obtain rfl := List.mem_singleton.mp he
    exact Ne.symm (of_decide_eq_false hne)
  | instanceDeleted hst =>
    have hold : row ∈ st.workItems.rows := by
      subst hst
      exact (Table.mem_deleteWhere.mp hr).1
    rw [h.holder_eq row hold, holder_append_of_ne]
    intro e he
    obtain ⟨key, hkey, rfl⟩ := List.mem_map.mp he
    exact fun (heq : key = row.pkey) => notMem_removedKeys hr (heq ▸ hkey)

theorem Tracked.change (h : Tracked st events) (hc : Change st st' es) :
    Tracked st' (events ++ es) := by
  have hkeyed := h.keyed_change hc
  refine ⟨hc.holderOk h.holderOk, ?_, ?_, h.holder_change hc⟩
  · intro row' hr
    rcases hc.origin hr with ⟨-, hmem, -⟩ | ⟨row, hrow, hstep⟩
    · exact hkeyed _ hmem
    · have hsub : row'.subscription = row.subscription := congrArg Prod.fst hstep.pkey_eq
      exact hsub ▸ hc.isSome_subscription (h.owned row hrow)
  · intro e he
    rcases List.mem_append.mp he with he | he
    · exact hc.isSome_subscription (h.keyed e he)
    · exact hkeyed e he

/-! ## One terminal transition -/

/-- A row of the table that is new was inserted. -/
theorem Change.insertions_pos (hc : Change st st' es) (hnone : st.workItems.find? key = none)
    (hrow : st'.workItems.find? key = some row) : 0 < insertions key es := by
  obtain rfl := Table.key_of_find? hrow
  rcases hc.origin (Table.mem_of_find? hrow) with ⟨-, hmem, -⟩ | ⟨old, hold, hstep⟩
  · exact List.count_pos_iff.mpr hmem
  · exact absurd hstep.pkey_eq.symm (Table.find?_eq_none_iff.mp hnone old hold)

/-- The terminal transition of a row that its worker held. -/
theorem Tracked.live_finish (h : Tracked st events) {e : Event}
    (hrow : st.workItems.find? row.pkey = some row) (hholder : row.claimedBy = some worker)
    (hkey : e.key = row.pkey)
    (hend : ∀ x, st'.workItems.find? row.pkey = some x → x.state = .done ∨ x.state = .failed)
    (hframe : ∀ k, k ≠ row.pkey → st'.workItems.find? k = st.workItems.find? k) :
    live st' key + terminations key [e] ≤ live st key := by
  have hle : terminations key [e] ≤ 1 := List.countP_le_length
  rcases eq_or_ne key row.pkey with rfl | hne
  · have hstate : row.state = .claimed :=
      (h.holderOk row (Table.mem_of_find? hrow)).mp (hholder ▸ rfl)
    rw [live_eq_one hrow (Or.inr hstate), live_eq_zero hend]
    omega
  · have hzero : terminations key [e] = 0 := by
      simp [terminations, hkey, hne.symm]
    rw [live_eq_of_find (hframe key hne), hzero]
    omega

/-- Writing a row that waits for its terminal transition. -/
theorem live_put_le (hfind : st.workItems.find? row.pkey = some row)
    (hstate : row.state = .pending ∨ row.state = .claimed) (hkey : row'.pkey = row.pkey) :
    live { st with workItems := st.workItems.put row' } key ≤ live st key := by
  rcases eq_or_ne row.pkey key with rfl | hne
  · rw [live_eq_one hfind hstate]
    exact live_le _ _
  · have hsame : (st.workItems.put row').find? key = st.workItems.find? key := by
      rw [Table.find?_put, if_neg (hkey ▸ hne)]
    exact le_of_eq (live_eq_of_find hsame)

theorem Tracked.live_finish_put (h : Tracked st events) {e : Event} {snapshots : Table SnapshotRow.sourceUuid}
    (hrow : st.workItems.find? row.pkey = some row) (hholder : row.claimedBy = some worker)
    (hkey : e.key = row.pkey) (hkey' : row'.pkey = row.pkey)
    (hend : row'.state = .done ∨ row'.state = .failed) :
    live { st with snapshots := snapshots, workItems := st.workItems.put row' } key +
      terminations key [e] ≤ live st key + insertions key [e] := by
  refine (h.live_finish hrow hholder hkey ?_ ?_).trans (Nat.le_add_right ..)
  · intro x hx
    change (st.workItems.put row').find? row.pkey = some x at hx
    rw [Table.find?_put, if_pos hkey'] at hx
    exact Option.some.inj hx ▸ hend
  · intro k hk
    show (st.workItems.put row').find? k = _
    rw [Table.find?_put, if_neg (hkey' ▸ hk.symm)]

/-- Deleting rows. -/
theorem live_deleteWhere_le (p : WorkItemRow → Bool) {snapshots : Table SnapshotRow.sourceUuid} :
    live { st with snapshots := snapshots, workItems := st.workItems.deleteWhere p } key ≤
      live st key := by
  have hle := live_le { st with snapshots := snapshots, workItems := st.workItems.deleteWhere p } key
  cases hgone : (st.workItems.deleteWhere p).find? key with
  | none => 
    rw [live, show ({ st with
      snapshots := snapshots, workItems := st.workItems.deleteWhere p } : Store).workItems.find? key =
        none from hgone]
    exact Nat.zero_le _
  | some row =>
    have hold := (Table.mem_deleteWhere.mp (Table.mem_of_find? hgone)).1
    refine le_of_eq (live_eq_of_find ?_)
    exact hgone.trans (Table.find?_of_mem hold (Table.key_of_find? hgone)).symm

/-- **A row waits for its terminal transition from its insertion on, at most.** -/
theorem Tracked.live_change (h : Tracked st events) (hc : Change st st' es) (key : Key) :
    live st' key + terminations key es ≤ live st key + insertions key es := by
  cases hc with
  | same _ hitems _ => exact le_of_eq (congrArg (· + 0) (live_eq_of_find (hitems ▸ rfl)))
  | subscription _ => exact le_rfl
  | @routed sub items hallowed hnew hsub =>
    have hzero : terminations key ((insertedKeys st (st.insertItems items)).map .inserted) = 0 := by
      apply terminations_eq_zero
      rintro _ he
      obtain ⟨_, -, rfl⟩ := List.mem_map.mp he
      rfl
    rw [hzero]
    cases hold : st.workItems.find? key with
    | some row =>
      have hsame : (st.workItems.insertAllNew items).find? key = st.workItems.find? key :=
        (Table.find?_insertAllNew hold).trans hold.symm
      exact (le_of_eq (live_eq_of_find hsame)).trans (Nat.le_add_right ..)
    | none =>
      cases hrow : (st.workItems.insertAllNew items).find? key with
      | none => 
        have hgone : live ((st.insertItems items).putSubscription sub) key = live st key :=
          live_eq_of_find (hrow.trans hold.symm)
        omega
      | some row =>
        have hpos := (Change.routed hallowed hnew hsub).insertions_pos hold hrow
        have hle := live_le ((st.insertItems items).putSubscription sub) key
        omega
  | extended hfind hstate _ => exact live_put_le hfind (Or.inr hstate) rfl
  | @claimed row _ _ worker hfind hclaim _ =>
    have hzero : terminations key [.claimed worker row.pkey] = 0 := rfl
    rw [hzero]
    refine (live_put_le hfind (claimable_pending_or_claimed hclaim) ?_).trans (Nat.le_add_right ..)
    rfl
  | deleted hfind hholder =>
    refine (h.live_finish hfind hholder rfl ?_ ?_).trans (Nat.le_add_right ..)
    · intro x hx
      obtain ⟨hx, hkey⟩ := Table.find?_eq_some_iff.mp hx
      exact absurd hkey (of_decide_eq_false (Table.mem_deleteWhere.mp hx).2)
    · intro k hk
      show (st.workItems.deleteWhere _).find? k = _
      rw [Table.find?_deleteWhere]
      cases hx : st.workItems.find? k with
      | none => rfl
      | some x =>
        rw [Option.filter_some, if_pos]
        rw [Table.key_of_find? hx]
        simpa using hk
  | done hfind hholder _ => exact h.live_finish_put hfind hholder rfl rfl (Or.inl rfl)
  | failed hfind hholder hkey hstate _ _ =>
    exact h.live_finish_put hfind hholder rfl hkey (Or.inr hstate)
  | instanceDeleted hst =>
    have hzero : terminations key ((removedKeys st st').map .removed) = 0 := by
      apply terminations_eq_zero
      rintro _ he
      obtain ⟨_, -, rfl⟩ := List.mem_map.mp he
      rfl
    rw [hzero]
    subst hst
    exact (live_deleteWhere_le _).trans (Nat.le_add_right ..)

end Tracked

/-- The row `key` was inserted, and has been neither completed nor failed since. -/
def Unsettled (key : Key) (events : List Event) : Prop :=
  ∃ pre post, events = pre ++ .inserted key :: post ∧ ∀ e ∈ post, e.terminal = true → e.key ≠ key

section Settled

variable {st st' : Store} {events es pre mid : List Event} {e : Event} {key : Key}

theorem Unsettled.append (h : Unsettled key events) (hes : terminations key es = 0) :
    Unsettled key (events ++ es) := by
  obtain ⟨pre, post, rfl, hpost⟩ := h
  refine ⟨pre, post ++ es, by simp, fun e he hterminal => ?_⟩
  rcases List.mem_append.mp he with he | he
  · exact hpost e he hterminal
  · rw [terminations, List.countP_eq_zero] at hes
    exact fun hkey => hes e he (by simp [hterminal, hkey])

/-- A row that is inserted again is unsettled again. -/
theorem unsettled_of_inserted {keys : List Key} (h : key ∈ keys) :
    Unsettled key (events ++ keys.map .inserted) := by
  obtain ⟨before, after, rfl⟩ := List.append_of_mem h
  refine ⟨events ++ before.map .inserted, after.map .inserted, by simp, fun e he hterminal => ?_⟩
  obtain ⟨_, -, rfl⟩ := List.mem_map.mp he
  cases hterminal

/-- Between a terminal transition and the next there is an insertion. -/
theorem Unsettled.inserted_mem (h : Unsettled e.key (pre ++ e :: mid)) (he : e.terminal = true) :
    .inserted e.key ∈ mid := by
  obtain ⟨pre', post, heq, hpost⟩ := h
  rcases List.append_eq_append_iff.mp heq with ⟨as, -, has⟩ | ⟨as, -, has⟩
  · cases as with
    | nil =>
      rw [(List.cons.inj has).1] at he
      cases he
    | cons x as =>
      obtain ⟨-, rfl⟩ := List.cons.inj has
      simp
  · cases as with
    | nil =>
      rw [← (List.cons.inj has).1] at he
      cases he
    | cons x as =>
      obtain ⟨-, rfl⟩ := List.cons.inj has
      exact absurd rfl (hpost e (by simp) he)

/-- A terminal transition comes alone. -/
theorem Change.eq_of_terminal (hc : Change st st' es) (he : e ∈ es) (hterminal : e.terminal = true) :
    es = [e] := by
  cases hc with
  | same _ _ _ => cases he
  | subscription _ => cases he
  | extended _ _ _ => cases he
  | routed _ _ _ =>
    obtain ⟨_, -, rfl⟩ := List.mem_map.mp he
    cases hterminal
  | instanceDeleted _ =>
    obtain ⟨_, -, rfl⟩ := List.mem_map.mp he
    cases hterminal
  | claimed _ _ _ => rw [List.mem_singleton.mp he]
  | deleted _ _ => rw [List.mem_singleton.mp he]
  | done _ _ _ => rw [List.mem_singleton.mp he]
  | failed _ _ _ _ _ _ => rw [List.mem_singleton.mp he]

/-- Insertions come with insertions only. -/
theorem Change.eq_map_of_inserted (hc : Change st st' es) (he : .inserted key ∈ es) :
    ∃ keys : List Key, es = keys.map .inserted ∧ key ∈ keys := by
  cases hc with
  | same _ _ _ => cases he
  | subscription _ => cases he
  | extended _ _ _ => cases he
  | routed _ _ _ =>
    obtain ⟨key', hkey, heq⟩ := List.mem_map.mp he
    obtain rfl := Event.inserted.inj heq
    exact ⟨_, rfl, hkey⟩
  | instanceDeleted _ =>
    obtain ⟨_, -, heq⟩ := List.mem_map.mp he
    cases heq
  | claimed _ _ _ => cases List.mem_singleton.mp he
  | deleted _ _ => cases List.mem_singleton.mp he
  | done _ _ _ => cases List.mem_singleton.mp he
  | failed _ _ _ _ _ _ => cases List.mem_singleton.mp he

/-- Who waits for a terminal transition is unsettled, and only an unsettled row is completed or failed. -/
structure SettledInv (st : Store) (events : List Event) : Prop where
  live : ∀ key, live st key ≠ 0 → Unsettled key events
  settled : Justified (fun before e => e.terminal = true → Unsettled e.key before) events

theorem SettledInv.change (h : SettledInv st events) (ht : Tracked st events) (hc : Change st st' es) :
    SettledInv st' (events ++ es) := by
  constructor
  · intro key hlive
    by_cases hinserted : .inserted key ∈ es
    · obtain ⟨keys, rfl, hkey⟩ := hc.eq_map_of_inserted hinserted
      exact unsettled_of_inserted hkey
    · have hzero : insertions key es = 0 := List.count_eq_zero.mpr hinserted
      have hle := ht.live_change hc key
      have hone := live_le st key
      exact (h.live key (by omega)).append (by omega)
  · by_cases hterminal : ∃ e ∈ es, e.terminal = true
    · obtain ⟨e, he, hterminal⟩ := hterminal
      obtain rfl := hc.eq_of_terminal he hterminal
      refine h.settled.snoc fun _ => h.live e.key ?_
      have hle := ht.live_change hc e.key
      have hone : terminations e.key [e] = 1 := by simp [terminations, hterminal]
      have hzero : insertions e.key [e] = 0 := by
        refine List.count_eq_zero.mpr fun hmem => ?_
        rw [← List.mem_singleton.mp hmem] at hterminal
        cases hterminal
      omega
    · refine Justified.append_iff.mpr ⟨h.settled, fun before e after heq hend => ?_⟩
      exact absurd ⟨e, heq ▸ List.mem_append_right _ List.mem_cons_self, hend⟩ hterminal

end Settled

/-! ## Calls of a worker that lost its claim -/

/-- The parameters that name the row and the caller, of the four calls that need the claim. -/
def Call.item : Call → Option ItemArgs
  | .extend _ a _ | .completeProjection a | .completePm _ a _ | .fail _ a _ => some a
  | _ => none

/-- The parameters pass the checks that the procedure makes before it reads the tables. -/
def Call.checked : Call → Bool
  | .extend _ a lease => (a.check "extend_work_item_claim").isOk &&
      (positive "extend_work_item_claim" "p_lease_seconds" lease).isOk
  | .completeProjection a => (a.check "complete_work_item_projection").isOk
  | .completePm _ a s => (a.check "complete_work_item_pm").isOk &&
      (notEmpty "complete_work_item_pm" "p_snapshot_uuid" s.uuid).isOk &&
      (notEmpty "complete_work_item_pm" "p_snapshot_type" s.type).isOk &&
      (nonNegative "complete_work_item_pm" "p_snapshot_version" s.version).isOk &&
      (notNull "complete_work_item_pm" "p_snapshot_data" s.data).isOk
  | .fail _ a _ => (a.check "fail_work_item").isOk
  | _ => false

/-- The call is by `worker`, for the row `key`. -/
def Call.on (c : Call) (st : Store) (worker : String) (key : Key) : Prop :=
  ∃ a, c.item = some a ∧ named a st = some (worker, key)

section Lost

variable {st : Store} {key : Key} {worker : String}

theorem exists_of_isOk {α ε : Type} {x : Except ε α} (h : x.isOk = true) : ∃ a, x = .ok a := by
  cases x with
  | ok a => exact ⟨a, rfl⟩
  | error e => cases h

/-- The row's stream and subscription are found. -/
theorem ItemRef.key_of_named {proc : String} {a : ItemArgs} {r : ItemRef}
    (hr : a.check proc = .ok r) (hnamed : named a st = some (worker, key))
    (hsub : (st.subscriptions.find? key.1).isSome = true) :
    r.workerId = worker ∧ r.key proc st = .ok key := by
  rw [ItemArgs.check_ok hr] at hnamed
  obtain ⟨stream, hstream, heq⟩ := Option.bind_eq_some_iff.mp hnamed
  obtain ⟨rfl, rfl⟩ := Prod.mk.inj (Option.some.inj heq)
  obtain ⟨row, hrow⟩ := Option.isSome_iff_exists.mp hsub
  refine ⟨rfl, ?_⟩
  simp only [ItemRef.key, requireStream, requireSubscription, hstream, ok_bind]
  rw [hrow]
  rfl

/-- **A call for a row that its caller does not hold raises IS030.** -/
theorem lost_call {c : Call} (hchecked : c.checked = true) (hon : c.on st worker key)
    (hsub : (st.subscriptions.find? key.1).isSome = true)
    (hlost : ∀ row, st.workItems.find? key = some row → row.claimedBy ≠ some worker) :
    ∃ message, c.run st = .error ⟨.IS030, message⟩ := by
  obtain ⟨a, ha, hnamed⟩ := hon
  cases c with
  | extend now _ lease =>
    obtain rfl := Option.some.inj ha
    obtain ⟨hcheck, hlease⟩ := Bool.and_eq_true_iff.mp hchecked
    obtain ⟨r, hr⟩ := exists_of_isOk hcheck
    obtain ⟨secs, hsecs⟩ := exists_of_isOk hlease
    obtain ⟨rfl, hkey⟩ := ItemRef.key_of_named hr hnamed hsub
    simp only [Call.run, extendWorkItemClaim, hr, hsecs, hkey, ok_bind]
    cases hrow : st.workItems.find? key with
    | none => exact ⟨_, rfl⟩
    | some row =>
      dsimp only
      rw [if_pos (Or.inr (hlost row hrow))]
      exact ⟨_, rfl⟩
  | completeProjection _ =>
    obtain rfl := Option.some.inj ha
    obtain ⟨r, hr⟩ := exists_of_isOk hchecked
    obtain ⟨rfl, hkey⟩ := ItemRef.key_of_named hr hnamed hsub
    obtain ⟨message, hrefused⟩ := requireHolder_lost "complete_work_item_projection" hlost
    simp only [Call.run, completeWorkItemProjection, hr, hkey, hrefused, ok_bind, error_bind]
    exact ⟨message, rfl⟩
  | completePm now _ s =>
    obtain rfl := Option.some.inj ha
    obtain ⟨hchecked, hdata⟩ := Bool.and_eq_true_iff.mp hchecked
    obtain ⟨hchecked, hversion⟩ := Bool.and_eq_true_iff.mp hchecked
    obtain ⟨hchecked, htype⟩ := Bool.and_eq_true_iff.mp hchecked
    obtain ⟨hcheck, huuid⟩ := Bool.and_eq_true_iff.mp hchecked
    obtain ⟨r, hr⟩ := exists_of_isOk hcheck
    obtain ⟨_, hdata⟩ := exists_of_isOk hdata
    obtain ⟨_, hversion⟩ := exists_of_isOk hversion
    obtain ⟨_, htype⟩ := exists_of_isOk htype
    obtain ⟨_, huuid⟩ := exists_of_isOk huuid
    obtain ⟨rfl, hkey⟩ := ItemRef.key_of_named hr hnamed hsub
    obtain ⟨message, hrefused⟩ := requireHolder_lost "complete_work_item_pm" hlost
    simp only [Call.run, completeWorkItemPm, hr, huuid, htype, hversion, hdata, hkey, hrefused,
      ok_bind, error_bind]
    exact ⟨message, rfl⟩
  | fail now _ text =>
    obtain rfl := Option.some.inj ha
    obtain ⟨r, hr⟩ := exists_of_isOk hchecked
    obtain ⟨rfl, hkey⟩ := ItemRef.key_of_named hr hnamed hsub
    obtain ⟨message, hrefused⟩ := requireHolder_lost "fail_work_item" hlost
    simp only [Call.run, failWorkItem, hr, hkey, hrefused, ok_bind, error_bind]
    exact ⟨message, rfl⟩
  | _ => cases ha

/-- **A call with refused parameters raises 22023**, whatever the tables hold. -/
theorem unchecked_call {c : Call} {a : ItemArgs} (hitem : c.item = some a) (hchecked : c.checked = false) :
    ∃ e, c.run st = .error e ∧ e.sqlstate = .invalidParameterValue := by
  have hstate : ∀ {α : Type} {x : Except SqlError α} {e : SqlError},
      Documented [.invalidParameterValue] x → x = .error e → e.sqlstate = .invalidParameterValue :=
    fun hx he => List.mem_singleton.mp (hx _ he)
  have hcheck : ∀ {proc : String} {a : ItemArgs}, Documented [.invalidParameterValue] (a.check proc) := by
    intro proc a
    have hmem := List.mem_singleton_self SqlState.invalidParameterValue
    rw [ItemArgs.check, documented_bind_iff (documented_notNull hmem)]
    intro u _
    rw [documented_bind_iff (documented_notEmpty hmem)]
    intro name _
    rw [documented_bind_iff (documented_notEmpty hmem)]
    intro worker _
    rw [documented_bind_iff (documented_notNull hmem)]
    intro p _
    rw [documented_bind_iff (documented_nonNegative hmem)]
    exact fun n _ => documented_ok _
  cases c with
  | extend now a lease =>
    cases hr : a.check "extend_work_item_claim" with
    | error e => exact ⟨e, by simp [Call.run, extendWorkItemClaim, hr, Except.map], hstate hcheck hr⟩
    | ok r =>
      cases hsecs : positive "extend_work_item_claim" "p_lease_seconds" lease with
      | error e => exact ⟨e, by simp [Call.run, extendWorkItemClaim, hr, hsecs, Except.map],
          hstate (documented_positive (List.mem_singleton_self _)) hsecs⟩
      | ok secs => simp [Call.checked, hr, hsecs, Except.isOk, Except.toBool] at hchecked
  | completeProjection a =>
    cases hr : a.check "complete_work_item_projection" with
    | error e =>
      exact ⟨e, by simp [Call.run, completeWorkItemProjection, hr, Except.map], hstate hcheck hr⟩
    | ok r => simp [Call.checked, hr, Except.isOk, Except.toBool] at hchecked
  | completePm now a s =>
    cases hr : a.check "complete_work_item_pm" with
    | error e => exact ⟨e, by simp [Call.run, completeWorkItemPm, hr, Except.map], hstate hcheck hr⟩
    | ok r =>
    cases huuid : notEmpty "complete_work_item_pm" "p_snapshot_uuid" s.uuid with
    | error e => exact ⟨e, by simp [Call.run, completeWorkItemPm, hr, huuid, Except.map],
        hstate (documented_notEmpty (List.mem_singleton_self _)) huuid⟩
    | ok uuid =>
    cases htype : notEmpty "complete_work_item_pm" "p_snapshot_type" s.type with
    | error e => exact ⟨e, by simp [Call.run, completeWorkItemPm, hr, huuid, htype, Except.map],
        hstate (documented_notEmpty (List.mem_singleton_self _)) htype⟩
    | ok type =>
    cases hversion : nonNegative "complete_work_item_pm" "p_snapshot_version" s.version with
    | error e =>
      exact ⟨e, by simp [Call.run, completeWorkItemPm, hr, huuid, htype, hversion, Except.map],
        hstate (documented_nonNegative (List.mem_singleton_self _)) hversion⟩
    | ok version =>
    cases hdata : notNull "complete_work_item_pm" "p_snapshot_data" s.data with
    | error e =>
      exact ⟨e, by simp [Call.run, completeWorkItemPm, hr, huuid, htype, hversion, hdata, Except.map],
        hstate (documented_notNull (List.mem_singleton_self _)) hdata⟩
    | ok data =>
      simp [Call.checked, hr, huuid, htype, hversion, hdata, Except.isOk, Except.toBool] at hchecked
  | fail now a text =>
    cases hr : a.check "fail_work_item" with
    | error e => exact ⟨e, by simp [Call.run, failWorkItem, hr, Except.map], hstate hcheck hr⟩
    | ok r => simp [Call.checked, hr, Except.isOk, Except.toBool] at hchecked
  | _ => cases hitem

end Lost

/-! ## The result -/

section Fenced

variable {κ : Type} [DecidableEq κ] {w w' : World κ} {op : Op κ}

/-- A worker that lost a row gets IS030 from every call for it, or 22023 when the call's parameters are
    refused, and changes nothing; between two terminal transitions of a row it is inserted again; and who
    writes a snapshot holds a row. -/
structure Fenced (w : World κ) : Prop where
  refused : ∀ pre e post worker, w.events = pre ++ e :: post → e.holder ≠ some worker →
    .claimed worker e.key ∉ post → ∀ c : Call, c.on w.db.store worker e.key →
      (∃ x, c.run w.db.store = .error x ∧
        x.sqlstate = if c.checked then .IS030 else .invalidParameterValue) ∧
      step w (.call c) = some w
  once : ∀ pre a mid b post, w.events = pre ++ a :: (mid ++ b :: post) → a.terminal = true →
    b.terminal = true → b.key = a.key → .inserted a.key ∈ mid
  counted : ∀ key, terminations key w.events ≤ insertions key w.events
  snapshots : ∀ op w', step w op = some w' →
    ∀ snapshot ∈ w'.db.store.snapshots.rows, snapshot ∉ w.db.store.snapshots.rows →
      ∃ now a s worker row, op = .call (.completePm now a s) ∧
        named a w.db.store = some (worker, row.pkey) ∧
        w.db.store.workItems.find? row.pkey = some row ∧ row.claimedBy = some worker

/-- The tables match the history. -/
structure HistoryInv (w : World κ) : Prop where
  tracked : Tracked w.db.store w.events
  once : ∀ key, live w.db.store key + terminations key w.events ≤ insertions key w.events

theorem HistoryInv.step (h : HistoryInv w) (hstep : Queue.step w op = some w') : HistoryInv w' := by
  have hchange : ∀ {st : Store} {es : List Event}, Change w.db.store st es →
      ∀ key, live st key + terminations key (w.events ++ es) ≤ insertions key (w.events ++ es) := by
    intro st es hc key
    have hlive := h.tracked.live_change hc key
    have honce := h.once key
    rw [terminations_append, insertions_append]
    omega
  cases step_cases hstep with
  | change hc _ => exact ⟨h.tracked.change hc, hchange hc⟩
  | opened _ => exact ⟨h.tracked, h.once⟩
  | claim _ hc _ => exact ⟨h.tracked.change hc, hchange hc⟩

theorem HistoryInv.of_reachable (hw : Reachable system w) : HistoryInv w := by
  refine hw.invariant ?_ fun _ _ _ h _ hs => h.step hs
  rintro _ rfl
  refine ⟨⟨?_, ?_, ?_, ?_⟩, fun _ => le_rfl⟩ <;> exact fun _ hr => nomatch hr

theorem settled_of_reachable (hw : Reachable system w) : SettledInv w.db.store w.events := by
  refine hw.invariant_of_reachable (P := fun v => SettledInv v.db.store v.events) ?_
    fun v op v' hv h _ hstep => ?_
  · rintro _ rfl
    exact ⟨fun key hlive => absurd rfl hlive, .nil⟩
  · have ht := (HistoryInv.of_reachable hv).tracked
    have hstep : Queue.step v op = some v' := hstep
    cases step_cases hstep with
    | change hc _ => exact h.change ht hc
    | opened _ => exact h
    | claim _ hc _ => exact h.change ht hc

/-- Only `complete_work_item_pm` writes snapshots. -/
theorem Call.snapshot_of_run {c : Call} {st st' : Store} {events : List Event}
    (h : c.run st = .ok (st', events)) {snapshot : SnapshotRow}
    (hmem : snapshot ∈ st'.snapshots.rows) (hnew : snapshot ∉ st.snapshots.rows) :
    ∃ now a s worker row, c = .completePm now a s ∧ named a st = some (worker, row.pkey) ∧
      st.workItems.find? row.pkey = some row ∧ row.claimedBy = some worker := by
  cases c with
  | claimSubscription now u name worker lease options =>
    obtain ⟨⟨r, s⟩, hr, heq⟩ := map_eq_ok.mp h
    cases heq
    obtain ⟨_, _, _, _, _, -, -, -, -, hclaim⟩ := claimSubscription_ok hr
    cases hclaim <;> exact absurd hmem hnew
  | releaseSubscription u name worker =>
    obtain ⟨s, hs, heq⟩ := map_eq_ok.mp h
    cases heq
    obtain ⟨_, _, _, _, _, -, -, -, -, -, -, rfl⟩ := releaseSubscription_ok hs
    exact absurd hmem hnew
  | routeBatch u name worker cursor decisions =>
    obtain ⟨⟨r, s⟩, hr, heq⟩ := map_eq_ok.mp h
    cases heq
    obtain ⟨_, _, _, _, _, _, _, _, -, -, -, -, -, -, -, -, -, -, rfl⟩ := routeBatch_ok hr
    exact absurd hmem hnew
  | extend now a lease =>
    obtain ⟨⟨e, s⟩, hs, heq⟩ := map_eq_ok.mp h
    cases heq
    obtain ⟨_, _, _, -, -, -, rfl⟩ := extendWorkItemClaim_ok hs
    exact absurd hmem hnew
  | completeProjection a =>
    obtain ⟨s, hs, heq⟩ := map_eq_ok.mp h
    cases heq
    obtain ⟨_, _, _, -, rfl⟩ := completeWorkItemProjection_ok hs
    exact absurd hmem hnew
  | completePm now a s =>
    obtain ⟨_, hs, heq⟩ := map_eq_ok.mp h
    cases heq
    obtain ⟨r, key, row, _, _, _, _, hheld, -, -, -⟩ := completeWorkItemPm_ok hs
    obtain rfl := Table.key_of_find? hheld.find
    exact ⟨now, a, s, r.workerId, row, rfl, named_of_check hheld.check hheld.key_eq, hheld.find,
      hheld.holder⟩
  | fail now a text =>
    obtain ⟨s, hs, heq⟩ := map_eq_ok.mp h
    cases heq
    obtain ⟨_, _, _, _, -, -, -, rfl⟩ := failWorkItem_ok hs
    exact absurd hmem hnew
  | completePmInstance u name p uuid =>
    obtain ⟨⟨r, s⟩, hr, heq⟩ := map_eq_ok.mp h
    cases heq
    obtain ⟨_, _, _, _, _, -, -, -, -, -, rfl⟩ := completePmInstance_ok hr
    exact absurd (Table.mem_deleteWhere.mp hmem).1 hnew

/-- A step that writes a snapshot is a `complete_work_item_pm` of a row that the caller holds. -/
theorem step_snapshot (hstep : step w op = some w') {snapshot : SnapshotRow}
    (hmem : snapshot ∈ w'.db.store.snapshots.rows)
    (hnew : snapshot ∉ w.db.store.snapshots.rows) :
    ∃ now a s worker row, op = .call (.completePm now a s) ∧
      named a w.db.store = some (worker, row.pkey) ∧
      w.db.store.workItems.find? row.pkey = some row ∧ row.claimedBy = some worker := by
  cases step_ran hstep with
  | @append now a =>
    obtain ⟨-, -, hsnap⟩ := w.db.append_tables now a
    exact absurd (hsnap ▸ hmem) hnew
  | call hc =>
    obtain ⟨now, a, s, worker, row, rfl, hrow⟩ := Call.snapshot_of_run hc hmem hnew
    exact ⟨now, a, s, worker, row, rfl, hrow⟩
  | claimItem _ hc => exact absurd ((runClaim_tables hc).2 ▸ hmem) hnew
  | idle hdb _ => exact absurd (hdb ▸ hmem) hnew

/-- **Work items are fenced.** -/
theorem workItem_fenced (hw : Reachable system w) : Fenced w := by
  have hinv := HistoryInv.of_reachable hw
  refine ⟨?_, ?_, fun key => ?_, ?_⟩
  · intro pre e post worker hevents hlost hpost c hon
    have hmem : e ∈ w.events := hevents ▸ List.mem_append_right _ List.mem_cons_self
    have hraises : ∃ x, c.run w.db.store = .error x ∧
        x.sqlstate = if c.checked then .IS030 else .invalidParameterValue := by
      cases hchecked : c.checked with
      | true =>
        obtain ⟨message, hrun⟩ := lost_call hchecked hon (hinv.tracked.keyed e hmem) fun row hrow => by
          have hholder := hinv.tracked.holder_eq row (Table.mem_of_find? hrow)
          rw [Table.key_of_find? hrow, hevents] at hholder
          exact hholder ▸ holder_ne_of_lost rfl hlost hpost
        exact ⟨_, hrun, rfl⟩
      | false =>
        obtain ⟨a, hitem, -⟩ := hon
        exact unchecked_call hitem hchecked
    refine ⟨hraises, ?_⟩
    obtain ⟨x, hrun, -⟩ := hraises
    simp only [step, hrun, World.commit]
  · intro pre a mid b post hevents ha hb hkey
    have hopen := (settled_of_reachable hw).settled (pre ++ a :: mid) b post (by simp [hevents]) hb
    rw [hkey] at hopen
    exact hopen.inserted_mem ha
  · have honce := hinv.once key
    omega
  · exact fun op w' hstep snapshot hmem hnew => step_snapshot hstep hmem hnew

theorem workItem_fenced_sampleRun : ∃ w, (system (κ := ℕ)).run World.install sampleRun = some w ∧
    terminations ((0, "orders"), "p", 1) w.events = 1 ∧ Fenced w := by
  have hdone : ((system (κ := ℕ)).run World.install sampleRun).map
      (fun w => terminations ((0, "orders"), "p", 1) w.events) = some 1 := by decide +kernel
  obtain ⟨w, hw, hterminations⟩ := Option.map_eq_some_iff.mp hdone
  exact ⟨w, hw, hterminations, workItem_fenced (Reachable.run (.init rfl) hw)⟩

/-- Worker `a` has lost the row to `b`, and asks to extend its claim by no time at all: the parameter is
    refused before the claim is looked at. -/
theorem lost_call_zeroLease : ∃ w pre post, (system (κ := ℕ)).run World.install sampleRun = some w ∧
    w.events = pre ++ .claimed "b" ((0, "orders"), "p", 1) :: post ∧
    .claimed "a" ((0, "orders"), "p", 1) ∉ post ∧
    (Call.extend 6000003 (sampleItem "a" 1) (some 0)).on w.db.store "a" ((0, "orders"), "p", 1) ∧
    ¬ ∃ message, (Call.extend 6000003 (sampleItem "a" 1) (some 0)).run w.db.store =
      .error ⟨.IS030, message⟩ := by
  have hrun : ((system (κ := ℕ)).run World.install sampleRun).map (fun w =>
      (decide (w.events.drop 3 = .claimed "b" ((0, "orders"), "p", 1) :: w.events.drop 4),
        decide (.claimed "a" ((0, "orders"), "p", 1) ∉ w.events.drop 4),
        decide (named (sampleItem "a" 1) w.db.store = some ("a", (0, "orders"), "p", 1)))) =
          some (true, true, true) := by decide +kernel
  obtain ⟨w, hw, heq⟩ := Option.map_eq_some_iff.mp hrun
  obtain ⟨hevents, heq⟩ := Prod.mk.inj heq
  obtain ⟨hpost, hnamed⟩ := Prod.mk.inj heq
  refine ⟨w, w.events.take 3, w.events.drop 4, hw, ?_, of_decide_eq_true hpost,
    ⟨_, rfl, of_decide_eq_true hnamed⟩, ?_⟩
  · rw [← of_decide_eq_true hevents, List.take_append_drop]
  · rintro ⟨message, hlost⟩
    cases hlost

end Fenced

end Instructed.Queue
