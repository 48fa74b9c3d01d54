import Instructed.Queue.Scope

/-!
# Subscriptions do not see each other

The workers of all subscriptions run interleaved.

* `Rooted`: the rows of the tables are on streams;
* `Agree`: two worlds that hold the same of a subscription;
* `agree_step`: **what one step does, and tells the subscription's workers**;
* `isolated`: **in every run, the workers of a subscription find and are told what they would be if no
  other subscription were there.**
-/

namespace Instructed.Queue

open Sql Relational Transition

/-! ## Rows are on streams -/

/-- The subscriptions and the work items of the store are on these streams. -/
structure OnStreams (streams : Table StreamRow.streamId) (st : Store) : Prop where
  subscriptions : ∀ row ∈ st.subscriptions.rows, ∃ s ∈ streams.rows, s.streamId = row.streamId
  workItems : ∀ row ∈ st.workItems.rows, ∃ s ∈ streams.rows, s.streamId = row.streamId

section OnStreams

variable {streams streams' : Table StreamRow.streamId} {st st' : Store}

theorem OnStreams.mono (h : OnStreams streams st)
    (hkept : ∀ s ∈ streams.rows, ∃ s' ∈ streams'.rows, s'.streamId = s.streamId) :
    OnStreams streams' st := by
  constructor
  · intro row hr
    obtain ⟨s, hs, hid⟩ := h.subscriptions row hr
    obtain ⟨s', hs', hid'⟩ := hkept s hs
    exact ⟨s', hs', hid'.trans hid⟩
  · intro row hr
    obtain ⟨s, hs, hid⟩ := h.workItems row hr
    obtain ⟨s', hs', hid'⟩ := hkept s hs
    exact ⟨s', hs', hid'.trans hid⟩

theorem OnStreams.of_subset (h : OnStreams streams st)
    (hsub : st'.subscriptions.rows ⊆ st.subscriptions.rows)
    (hitems : st'.workItems.rows ⊆ st.workItems.rows) : OnStreams streams st' :=
  ⟨fun row hr => h.subscriptions row (hsub hr), fun row hr => h.workItems row (hitems hr)⟩

theorem OnStreams.change {es : List Event} (h : OnStreams st.streams st) (hc : Change st st' es) :
    OnStreams st.streams st' := by
  refine ⟨fun row hr => (hc.subscription_stream hr).elim (h.subscriptions row) id, fun row hr => ?_⟩
  have hput : ∀ {old new : WorkItemRow}, row ∈ (st.workItems.put new).rows →
      st.workItems.find? old.pkey = some old → new.pkey = old.pkey →
        ∃ s ∈ st.streams.rows, s.streamId = row.streamId := by
    intro old new hr hold hkey
    rcases Table.mem_put.mp hr with rfl | ⟨hr, -⟩
    · obtain ⟨s, hs, hid⟩ := h.workItems old (Table.mem_of_find? hold)
      exact ⟨s, hs, hid.trans (congrArg (fun k => k.1.1) hkey).symm⟩
    · exact h.workItems row hr
  cases hc with
  | same _ hitems _ => exact h.workItems row (hitems ▸ hr)
  | subscription _ => exact h.workItems row hr
  | routed hallowed _ hitems =>
    rcases Table.mem_of_mem_insertAllNew hr with hr | ⟨hr, -⟩
    · exact h.workItems row hr
    · obtain ⟨s, hs, hid⟩ := hallowed.stream
      exact ⟨s, hs, hid.trans (congrArg Prod.fst (hitems row hr)).symm⟩
  | extended hold _ _ => exact hput hr hold rfl
  | claimed hold _ _ => exact hput hr hold rfl
  | deleted _ _ => exact h.workItems row (Table.mem_deleteWhere.mp hr).1
  | done hold _ _ => exact hput hr hold rfl
  | failed hold _ hkey _ _ _ => exact hput hr hold hkey
  | instanceDeleted hst =>
    subst hst
    exact h.workItems row (Table.mem_deleteWhere.mp hr).1

/-- A key that belongs to no stream selects nothing. -/
theorem OnStreams.part_eq (T : Scope) (h : OnStreams streams st) {key : ℕ × String}
    (hkey : ∀ s ∈ streams.rows, s.streamId ≠ key.1) : T.part (some key) st = T.part none st := by
  have hsub : st.subscriptions.restrict (fun k => decide (some k = some key)) =
      st.subscriptions.restrict fun k => decide (some k = none) := by
    refine Table.restrict_congr fun row hr => ?_
    obtain ⟨s, hs, hid⟩ := h.subscriptions row hr
    refine decide_eq_decide.mpr ⟨fun heq => ?_, fun heq => by cases heq⟩
    exact absurd (hid.trans (congrArg Prod.fst (Option.some.inj heq))) (hkey s hs)
  have hitems : st.workItems.restrict (fun k => decide (some k.1 = some key)) =
      st.workItems.restrict fun k => decide (some k.1 = none) := by
    refine Table.restrict_congr fun row hr => ?_
    obtain ⟨s, hs, hid⟩ := h.workItems row hr
    refine decide_eq_decide.mpr ⟨fun heq => ?_, fun heq => by cases heq⟩
    exact absurd (hid.trans (congrArg Prod.fst (Option.some.inj heq))) (hkey s hs)
  simp only [Scope.part, Store.restrict, hsub, hitems]

end OnStreams

section Worlds

variable {κ : Type} [DecidableEq κ] {w w' v : World κ} {a : Act κ} {T : Scope}

/-- The rows of the tables, and those that open claims read, are on streams. -/
structure Rooted (w : World κ) : Prop where
  consistent : w.db.Consistent
  store : OnStreams w.db.store.streams w.db.store
  snapshots : ∀ i snap, w.snapshots i = some snap → OnStreams w.db.store.streams snap

omit [DecidableEq κ] in
theorem Rooted.commit (h : Rooted w) {x : Except SqlError (Store × List Event)}
    (hx : ∀ st es, x = .ok (st, es) → w.db.store.SameEvents st ∧ OnStreams st.streams st) :
    Rooted (w.commit x) := by
  cases x with
  | error e => exact h
  | ok r =>
    obtain ⟨hsame, hon⟩ := hx r.1 r.2 rfl
    refine ⟨⟨hsame.consistent h.consistent.store, h.consistent.seq_pos, ?_⟩, hon, fun i snap hi => ?_⟩
    · intro s hs
      exact h.consistent.seq s (hsame.streams ▸ hs)
    · refine (h.snapshots i snap hi).mono fun s hs => ⟨s, ?_, rfl⟩
      show s ∈ r.1.streams.rows
      rw [hsame.streams]
      exact hs

/-- **Rows stay on streams.** -/
theorem Rooted.act (h : Rooted w) (hact : w.act a = some w') : Rooted w' := by
  have hchange : ∀ {st : Store} {es : List Event}, Change w.db.store st es →
      w.db.store.SameEvents st → w.db.store.SameEvents st ∧ OnStreams st.streams st := by
    intro st es hc hsame
    refine ⟨hsame, ?_⟩
    rw [hsame.streams]
    exact h.store.change hc
  cases a with
  | op o =>
    cases o with
    | append now args =>
      obtain rfl := Option.some.inj hact
      obtain ⟨hsub, hitems, -⟩ := w.db.append_tables now args
      have hkept := (h.consistent.append_streams now args).1
      have hmono : ∀ s ∈ w.db.store.streams.rows,
          ∃ s' ∈ (w.db.append now args).2.store.streams.rows, s'.streamId = s.streamId := by
        intro s hs
        obtain ⟨s', hs', hid, -⟩ := hkept s hs
        exact ⟨s', hs', hid⟩
      refine ⟨h.consistent.append now args, ?_, fun i snap hi => (h.snapshots i snap hi).mono hmono⟩
      exact (h.store.mono hmono).of_subset (hsub ▸ fun _ hr => hr) (hitems ▸ fun _ hr => hr)
    | call c =>
      obtain rfl := Option.some.inj hact
      exact h.commit fun st es hx => hchange (Call.run_change hx).1 (Call.run_change hx).2
    | openClaim i =>
      simp only [World.act, Queue.step] at hact
      split at hact
      · obtain rfl := Option.some.inj hact
        refine ⟨h.consistent, h.store, fun j snap hj => ?_⟩
        simp only [Function.update_apply] at hj
        split_ifs at hj
        · obtain rfl := Option.some.inj hj
          exact h.store
        · exact h.snapshots j snap hj
      · cases hact
    | claimItem i now locked u name worker lease =>
      simp only [World.act, Queue.step] at hact
      split at hact
      · rename_i snapshot _
        obtain rfl := Option.some.inj hact
        have hcommit := h.commit (x := runClaim now snapshot locked u name worker lease w.db.store)
          fun st es hx => hchange (runClaim_change hx).1 (runClaim_change hx).2.1
        refine ⟨hcommit.consistent, hcommit.store, fun j snap hj => ?_⟩
        simp only [Function.update_apply] at hj
        split_ifs at hj
        refine hcommit.snapshots j snap ?_
        rw [← hj]
        cases runClaim now snapshot locked u name worker lease w.db.store <;> rfl
      · cases hact
  | deleteSubscription u name =>
    obtain rfl := Option.some.inj hact
    refine h.commit fun st es hx => ?_
    obtain ⟨st₁, hst, heq⟩ := map_eq_ok.mp hx
    cases heq
    obtain ⟨_, _, _, _, -, -, -, -, rfl⟩ := deleteSubscription_ok hst
    refine ⟨⟨rfl, rfl, rfl⟩, h.store.of_subset ?_ ?_⟩
    · exact fun row hr => (Table.mem_deleteWhere.mp hr).1
    · exact fun row hr => (Table.mem_deleteWhere.mp hr).1

omit [DecidableEq κ] in
theorem Rooted.install : Rooted (World.install : World κ) := by
  refine ⟨Db.install_consistent, ⟨fun row hr => ?_, fun row hr => ?_⟩, fun i snap h => ?_⟩
  · cases hr
  · cases hr
  · cases h

/-! ## Worlds that agree on a subscription -/

variable (T)

/-- The worlds hold the same of the subscription, and its claims, other than those that were open
    before, read the same. -/
structure Agree (before : κ → Prop) (w v : World κ) : Prop where
  seq : v.db.streamIdSeq = w.db.streamIdSeq
  store : T.part (T.key w.db.store) v.db.store = T.part (T.key w.db.store) w.db.store
  opened : ∀ i, (v.snapshots i).isSome = (w.snapshots i).isSome
  snapshots : ∀ i, ¬ before i → (v.snapshots i).map (T.part (T.key w.db.store)) =
    (w.snapshots i).map (T.part (T.key w.db.store))

variable {T} {before : κ → Prop}

theorem key_congr {st st' : Store} (h : st'.streams = st.streams) : T.key st' = T.key st := by
  rw [Scope.key, Scope.key, subscriptionKey, subscriptionKey, Store.streamByUuid, Store.streamByUuid, h]

omit [DecidableEq κ] in
theorem Agree.streams (h : Agree T before w v) : v.db.store.streams = w.db.store.streams := by
  have hstreams := congrArg Store.streams h.store
  exact hstreams

theorem key_of_stream {st : Store} :
    ∀ stream, st.streamByUuid T.streamUuid = some stream → T.key st = some (stream.streamId, T.name) := by
  intro stream hstream
  rw [Scope.key, subscriptionKey, hstream, Option.map_some]

/-- Another subscription has another key. -/
theorem key_ne_of_subject {st : Store} {u name : String} {stream : StreamRow}
    (hne : ¬ (some u = some T.streamUuid ∧ some name = some T.name))
    (hstream : st.streamByUuid u = some stream) : T.key st ≠ some (stream.streamId, name) := by
  intro heq
  obtain ⟨own, hown, hkey⟩ := Option.map_eq_some_iff.mp heq
  obtain ⟨hid, hname⟩ := Prod.mk.inj hkey
  have hsame := st.streams.eq_of_key_eq (Store.mem_of_streamByUuid hown)
    (Store.mem_of_streamByUuid hstream) hid
  refine hne ⟨congrArg some ?_, congrArg some hname.symm⟩
  rw [← Store.uuid_of_streamByUuid hstream, ← hsame, Store.uuid_of_streamByUuid hown]

omit [DecidableEq κ] in
/-- Transactions with the same result, as far as the subscription goes. -/
theorem Agree.commit (h : Agree T before w v) {x y : Except SqlError (Store × List Event)}
    (hres : y.map (fun r => T.part (T.key w.db.store) r.1) =
      x.map fun r => T.part (T.key w.db.store) r.1)
    (hkey : ∀ st es, x = .ok (st, es) → st.streams = w.db.store.streams) :
    Agree T before (w.commit x) (v.commit y) := by
  cases x with
  | error e =>
    cases y with
    | error e' => exact h
    | ok r => cases hres
  | ok r =>
    cases y with
    | error e' => cases hres
    | ok r' =>
      have hsame : T.key r.1 = T.key w.db.store := key_congr (hkey r.1 r.2 rfl)
      refine ⟨h.seq, ?_, h.opened, fun i hi => ?_⟩
      · show T.part (T.key r.1) r'.1 = T.part (T.key r.1) r.1
        rw [hsame]
        exact Except.ok.inj hres
      · show Option.map (T.part (T.key r.1)) _ = Option.map (T.part (T.key r.1)) _
        rw [hsame]
        exact h.snapshots i hi

omit [DecidableEq κ] in
/-- A transaction that leaves the subscription alone. -/
theorem Agree.commit_left (h : Agree T before w v) {x : Except SqlError (Store × List Event)}
    (hx : ∀ st es, x = .ok (st, es) → st.streams = w.db.store.streams ∧
      T.part (T.key w.db.store) st = T.part (T.key w.db.store) w.db.store) :
    Agree T before (w.commit x) v := by
  cases x with
  | error e => exact h
  | ok r =>
    obtain ⟨hstreams, hpart⟩ := hx r.1 r.2 rfl
    have hsame : T.key r.1 = T.key w.db.store := key_congr hstreams
    refine ⟨h.seq, ?_, h.opened, fun i hi => ?_⟩
    · show T.part (T.key r.1) v.db.store = T.part (T.key r.1) r.1
      rw [hsame, hpart]
      exact h.store
    · show Option.map (T.part (T.key r.1)) _ = Option.map (T.part (T.key r.1)) _
      rw [hsame]
      exact h.snapshots i hi

/-! ## One step -/

omit [DecidableEq κ] in
/-- An append may create the stream of the subscription. -/
theorem key_append (h : Rooted w) (now : Timestamp) (args : AppendArgs) :
    T.key (w.db.append now args).2.store = T.key w.db.store ∨
      T.key w.db.store = none ∧ ∃ key, T.key (w.db.append now args).2.store = some key ∧
        ∀ s ∈ w.db.store.streams.rows, s.streamId ≠ key.1 := by
  obtain ⟨hkept, hnew⟩ := h.consistent.append_streams now args
  have hc' := (h.consistent.append now args).store
  cases hkey : T.key w.db.store with
  | some key =>
    obtain ⟨stream, hstream, rfl⟩ := Option.map_eq_some_iff.mp hkey
    obtain ⟨stream', hmem', hid, huuid⟩ := hkept stream (Store.mem_of_streamByUuid hstream)
    have hfind := hc'.streamByUuid_of_mem hmem'
    rw [huuid, Store.uuid_of_streamByUuid hstream] at hfind
    left
    rw [key_of_stream stream' hfind, hid]
  | none =>
    cases hkey' : T.key (w.db.append now args).2.store with
    | none => exact Or.inl rfl
    | some key =>
      obtain ⟨stream', hstream', rfl⟩ := Option.map_eq_some_iff.mp hkey'
      refine Or.inr ⟨rfl, _, rfl, fun s hs hid => ?_⟩
      have hnone := Option.map_eq_none_iff.mp hkey
      rcases hnew stream' (Store.mem_of_streamByUuid hstream') with hunused | ⟨r, hr, -, hu⟩
      · exact Table.find?_eq_none_iff.mp hunused s hs hid
      · rw [Store.uuid_of_streamByUuid hstream'] at hu
        exact Store.streamByUuid_eq_none_iff.mp hnone r hr hu

omit [DecidableEq κ] in
/-- The stores after an append, when the part of each of them was the same. -/
theorem Agree.append_store (h : Agree T before w v) (now : Timestamp) (args : AppendArgs) :
    (v.db.append now args).2.streamIdSeq = (w.db.append now args).2.streamIdSeq ∧
      T.part (T.key w.db.store) (v.db.append now args).2.store =
        T.part (T.key w.db.store) (w.db.append now args).2.store := by
  have hseq : v.db.nextSeq args = w.db.nextSeq args := by
    have hdraws : ∀ r : AppendRequest, r.drawsStreamId v.db.store = r.drawsStreamId w.db.store := by
      intro r
      unfold AppendRequest.drawsStreamId Store.streamByUuid
      rw [h.streams]
    unfold Db.nextSeq
    rw [h.seq]
    cases validateAppend args with
    | error e => rfl
    | ok r => simp only [hdraws]
  have hrun : (appendToStream v.db.streamIdSeq now args v.db.store).map
        (Prod.map id (T.part (T.key w.db.store))) =
      (appendToStream w.db.streamIdSeq now args w.db.store).map
        (Prod.map id (T.part (T.key w.db.store))) := by
    have hpart : ∀ st : Store, appendToStream w.db.streamIdSeq now args
        (T.part (T.key w.db.store) st) = (appendToStream w.db.streamIdSeq now args st).map
          (Prod.map id (T.part (T.key w.db.store))) := fun st => appendToStream_restrict _ now args
    rw [h.seq, ← hpart, ← hpart, h.store]
  unfold Db.append
  cases hx : appendToStream w.db.streamIdSeq now args w.db.store with
  | error e =>
    rw [hx] at hrun
    cases hy : appendToStream v.db.streamIdSeq now args v.db.store with
    | error e' => exact ⟨hseq, h.store⟩
    | ok r =>
      rw [hy] at hrun
      cases hrun
  | ok r =>
    rw [hx] at hrun
    cases hy : appendToStream v.db.streamIdSeq now args v.db.store with
    | error e' =>
      rw [hy] at hrun
      cases hrun
    | ok r' =>
      rw [hy] at hrun
      exact ⟨hseq, congrArg Prod.snd (Except.ok.inj hrun)⟩

omit [DecidableEq κ] in
theorem agree_append (hw : Rooted w) (hv : Rooted v) (h : Agree T before w v) (now : Timestamp)
    (args : AppendArgs) : Agree T before { w with db := (w.db.append now args).2 }
      { v with db := (v.db.append now args).2 } := by
  obtain ⟨hseq, hstore⟩ := h.append_store now args
  rcases key_append (T := T) hw now args with hkey | ⟨hnone, key, hkey, hfresh⟩
  · refine ⟨hseq, ?_, h.opened, fun i hi => ?_⟩
    · dsimp only
      rw [hkey]
      exact hstore
    · dsimp only
      rw [hkey]
      exact h.snapshots i hi
  · -- The stream is new: nothing belongs to the subscription, before and after.
    have hpart : ∀ {st : Store}, OnStreams w.db.store.streams st →
        T.part (some key) st = T.part none st := fun hon => hon.part_eq T hfresh
    have hkeep : ∀ db : Db, OnStreams w.db.store.streams db.store →
        OnStreams w.db.store.streams (db.append now args).2.store := by
      intro db hon
      obtain ⟨hsub, hitems, -⟩ := db.append_tables now args
      exact hon.of_subset (hsub ▸ fun _ hr => hr) (hitems ▸ fun _ hr => hr)
    have hvon : OnStreams w.db.store.streams v.db.store := h.streams ▸ hv.store
    rw [hnone] at hstore
    refine ⟨hseq, ?_, h.opened, fun i hi => ?_⟩
    · dsimp only
      rw [hkey, hpart (hkeep v.db hvon), hpart (hkeep w.db hw.store)]
      exact hstore
    · dsimp only
      have hi := h.snapshots i hi
      rw [hnone] at hi
      rw [hkey]
      cases hws : w.snapshots i with
      | none =>
        rw [hws] at hi
        rw [Option.map_eq_none_iff.mp hi]
      | some s =>
        rw [hws] at hi
        obtain ⟨s', hvs, heq⟩ := Option.map_eq_some_iff.mp hi
        rw [hvs]
        refine congrArg some ?_
        rw [hpart (hw.snapshots i s hws), hpart (h.streams ▸ hv.snapshots i s' hvs)]
        exact heq

omit [DecidableEq κ] in
/-- The same call, of the subscription's workers, in two worlds that agree. -/
theorem Agree.exec (h : Agree T before w v) {c : Call}
    (hmine : c.subject = (some T.streamUuid, some T.name))
    (howns : ∀ uuid ∈ c.snapshotUuid, T.owns uuid = true) :
    (c.exec v.db.store).map (Prod.map id (T.part (T.key w.db.store))) =
      (c.exec w.db.store).map (Prod.map id (T.part (T.key w.db.store))) := by
  have hkey : T.key v.db.store = T.key w.db.store := key_congr h.streams
  have hv : c.exec (T.part (T.key w.db.store) v.db.store) =
      (c.exec v.db.store).map (Prod.map id (T.part (T.key w.db.store))) :=
    exec_part hmine howns (hkey ▸ key_of_stream)
  have hw : c.exec (T.part (T.key w.db.store) w.db.store) =
      (c.exec w.db.store).map (Prod.map id (T.part (T.key w.db.store))) :=
    exec_part hmine howns key_of_stream
  rw [← hv, ← hw, h.store]

theorem map_snd_eq {α β γ : Type} {x y : Except SqlError (α × β)} {g : β → γ}
    (h : x.map (Prod.map id g) = y.map (Prod.map id g)) :
    (x.map Prod.snd).map g = (y.map Prod.snd).map g := by
  have hsnd : ∀ z : Except SqlError (α × β), (z.map Prod.snd).map g =
      (z.map (Prod.map id g)).map Prod.snd := fun z => by cases z <;> rfl
  rw [hsnd, hsnd, h]

theorem map_fst_eq {α β γ : Type} {x y : Except SqlError (α × β)} {g : β → γ}
    (h : x.map (Prod.map id g) = y.map (Prod.map id g)) : x.map Prod.fst = y.map Prod.fst := by
  have hfst : ∀ z : Except SqlError (α × β), z.map Prod.fst = (z.map (Prod.map id g)).map Prod.fst :=
    fun z => by cases z <;> rfl
  rw [hfst, hfst, h]

/-- The statement around `claim_work_item`, without the history. -/
theorem runClaim_store (now : Timestamp) (snapshot : Store) (locked : WorkItemRow → Bool)
    (u name worker : Option String) (lease : Option ℤ) (st : Store) :
    (runClaim now snapshot locked u name worker lease st).map Prod.fst =
      (claimWorkItem now snapshot locked u name worker lease st).map Prod.snd := by
  unfold runClaim
  cases claimWorkItem now snapshot locked u name worker lease st <;> rfl

omit [DecidableEq κ] in
theorem Agree.claim (h : Agree T before w v) {s s' : Store}
    (hs : T.part (T.key w.db.store) s' = T.part (T.key w.db.store) s) (now : Timestamp)
    (locked : WorkItemRow → Bool) (worker : Option String) (lease : Option ℤ) :
    (claimWorkItem now s' locked (some T.streamUuid) (some T.name) worker lease v.db.store).map
        (Prod.map id (T.part (T.key w.db.store))) =
      (claimWorkItem now s locked (some T.streamUuid) (some T.name) worker lease w.db.store).map
        (Prod.map id (T.part (T.key w.db.store))) := by
  have hkey : T.key v.db.store = T.key w.db.store := key_congr h.streams
  have hpart : ∀ {snap st : Store}, (∀ stream, st.streamByUuid T.streamUuid = some stream →
      T.key w.db.store = some (stream.streamId, T.name)) →
      claimWorkItem now (T.part (T.key w.db.store) snap) locked (some T.streamUuid) (some T.name)
        worker lease (T.part (T.key w.db.store) st) =
      (claimWorkItem now snap locked (some T.streamUuid) (some T.name) worker lease st).map
        (Prod.map id (T.part (T.key w.db.store))) := fun hsub =>
    claimWorkItem_restrict hsub _ now locked worker lease
  rw [← hpart (hkey ▸ key_of_stream), ← hpart key_of_stream, hs, h.store]

omit [DecidableEq κ] in
theorem Agree.delete (h : Agree T before w v) :
    (deleteSubscription (some T.streamUuid) (some T.name) v.db.store).map
        (T.part (T.key w.db.store)) =
      (deleteSubscription (some T.streamUuid) (some T.name) w.db.store).map
        (T.part (T.key w.db.store)) := by
  have hkey : T.key v.db.store = T.key w.db.store := key_congr h.streams
  have hpart : ∀ {st : Store}, (∀ stream, st.streamByUuid T.streamUuid = some stream →
      T.key w.db.store = some (stream.streamId, T.name)) →
      deleteSubscription (some T.streamUuid) (some T.name) (T.part (T.key w.db.store) st) =
        (deleteSubscription (some T.streamUuid) (some T.name) st).map (T.part (T.key w.db.store)) :=
    fun hsub => deleteSubscription_restrict hsub
  rw [← hpart (hkey ▸ key_of_stream), ← hpart key_of_stream, h.store]

omit [DecidableEq κ] in
/-- What the subscription's workers are told. -/
theorem agree_reply (h : Agree T before w v) (hmine : T.mine a = true) (htidy : T.Tidy a)
    (hnew : ∀ i ∈ a.claim, ¬ before i) : v.reply a = w.reply a := by
  have hsubject : a.subject = some (some T.streamUuid, some T.name) := of_decide_eq_true hmine
  have howns : ∀ uuid ∈ a.snapshotUuid, T.owns uuid = true := fun uuid hu =>
    (htidy uuid hu).trans hmine
  cases a with
  | op o =>
    cases o with
    | append now args => rfl
    | openClaim i => rfl
    | call c =>
      have hexec := h.exec (Option.some.inj hsubject) howns
      exact congrArg some (map_fst_eq hexec)
    | claimItem i now locked u name worker lease =>
      obtain ⟨rfl, rfl⟩ := Prod.mk.inj (Option.some.inj hsubject)
      have hi := h.snapshots i (hnew i rfl)
      simp only [World.reply]
      cases hws : w.snapshots i with
      | none =>
        rw [hws] at hi
        rw [Option.map_eq_none_iff.mp hi]
        rfl
      | some s =>
        rw [hws] at hi
        obtain ⟨s', hvs, heq⟩ := Option.map_eq_some_iff.mp hi
        rw [hvs]
        have hitem : ∀ x : Except SqlError (Option ClaimedItem × Store),
            x.map (fun r => Reply.item r.1) = (x.map Prod.fst).map Reply.item := fun x => by
          cases x <;> rfl
        simp only [Option.map_some, hitem, map_fst_eq (h.claim heq now locked worker lease)]
  | deleteSubscription u name =>
    obtain ⟨rfl, rfl⟩ := Prod.mk.inj (Option.some.inj hsubject)
    have hdone : ∀ x : Except SqlError Store, x.map (fun _ => Reply.done) =
        (x.map (T.part (T.key w.db.store))).map fun _ => Reply.done := fun x => by
      cases x <;> rfl
    simp only [World.reply]
    rw [hdone (Instructed.deleteSubscription _ _ v.db.store), h.delete, ← hdone]

/-! ## What the others do -/

omit [DecidableEq κ] in
/-- The claim `i` ends. -/
theorem Agree.clear [DecidableEq κ] (h : Agree T before w v) (i : κ) :
    Agree T before { w with snapshots := Function.update w.snapshots i none }
      { v with snapshots := Function.update v.snapshots i none } := by
  refine ⟨h.seq, h.store, fun j => ?_, fun j hj => ?_⟩
  · have hj := h.opened j
    simp only [Function.update_apply]
    split_ifs
    · rfl
    · exact hj
  · have hj := h.snapshots j hj
    simp only [Function.update_apply]
    split_ifs
    · rfl
    · exact hj

omit [DecidableEq κ] in
theorem commit_snapshots (x : Except SqlError (Store × List Event)) :
    (w.commit x).snapshots = w.snapshots := by
  cases x <;> rfl

omit [DecidableEq κ] in
theorem Agree.none_iff (h : Agree T before w v) (i : κ) : v.snapshots i = none ↔ w.snapshots i = none := by
  rw [← Option.not_isSome_iff_eq_none, ← Option.not_isSome_iff_eq_none, h.opened i]

omit [DecidableEq κ] in
/-- An operation that is not the subscription's names another one. -/
theorem other_subject {u name : Option String} (hother : ¬ T.mine a = true)
    (hsubject : a.subject = some (u, name)) : ∀ u' name' stream, (u, name) = (some u', some name') →
      w.db.store.streamByUuid u' = some stream → T.key w.db.store ≠ some (stream.streamId, name') := by
  intro u' name' stream heq hstream
  refine key_ne_of_subject ?_ hstream
  rintro ⟨hu, hname⟩
  refine hother (decide_eq_true ?_)
  rw [hsubject, heq, hu, hname]

/-- **What the subscription's workers do, they do in both worlds.** -/
theorem agree_mine (h : Agree T before w v) (hmine : T.mine a = true) (htidy : T.Tidy a)
    (hnew : ∀ i ∈ a.claim, ¬ before i) (hact : w.act a = some w') : ∃ v', v.act a = some v' ∧ Agree T before w' v' := by
  have hsubject : a.subject = some (some T.streamUuid, some T.name) := of_decide_eq_true hmine
  have howns : ∀ uuid ∈ a.snapshotUuid, T.owns uuid = true := fun uuid hu =>
    (htidy uuid hu).trans hmine
  cases a with
  | op o =>
    cases o with
    | append now args => cases hsubject
    | openClaim i => cases hsubject
    | call c =>
      obtain rfl := Option.some.inj hact
      refine ⟨_, rfl, h.commit ?_ fun st es hx => (Call.run_change hx).2.streams⟩
      have hpart : ∀ st : Store, (c.run st).map (fun r => T.part (T.key w.db.store) r.1) =
          ((c.exec st).map Prod.snd).map (T.part (T.key w.db.store)) := by
        intro st
        rw [← run_store]
        cases c.run st <;> rfl
      rw [hpart, hpart]
      exact map_snd_eq (h.exec (Option.some.inj hsubject) howns)
    | claimItem i now locked u name worker lease =>
      obtain ⟨rfl, rfl⟩ := Prod.mk.inj (Option.some.inj hsubject)
      simp only [World.act, Queue.step] at hact ⊢
      split at hact
      · rename_i snapshot hws
        obtain rfl := Option.some.inj hact
        have hi := h.snapshots i (hnew i rfl)
        rw [hws] at hi
        obtain ⟨snapshot', hvs, heq⟩ := Option.map_eq_some_iff.mp hi
        rw [hvs]
        refine ⟨_, rfl, ?_⟩
        have hcommit := h.commit
          (x := runClaim now snapshot locked (some T.streamUuid) (some T.name) worker lease w.db.store)
          (y := runClaim now snapshot' locked (some T.streamUuid) (some T.name) worker lease v.db.store)
          ?_ fun st es hx => (runClaim_change hx).2.1.streams
        · have hclear := hcommit.clear i
          rw [commit_snapshots, commit_snapshots] at hclear
          exact hclear
        · have hpart : ∀ snap st : Store,
              (runClaim now snap locked (some T.streamUuid) (some T.name) worker lease st).map
                  (fun r => T.part (T.key w.db.store) r.1) =
                ((claimWorkItem now snap locked (some T.streamUuid) (some T.name) worker lease st).map
                  Prod.snd).map (T.part (T.key w.db.store)) := by
            intro snap st
            rw [← runClaim_store]
            cases runClaim now snap locked (some T.streamUuid) (some T.name) worker lease st <;> rfl
          rw [hpart, hpart]
          exact map_snd_eq (h.claim heq now locked worker lease)
      · cases hact
  | deleteSubscription u name =>
    obtain ⟨rfl, rfl⟩ := Prod.mk.inj (Option.some.inj hsubject)
    obtain rfl := Option.some.inj hact
    refine ⟨_, rfl, h.commit ?_ fun st es hx => ?_⟩
    · have hpart : ∀ x : Except SqlError Store, (x.map fun st => (st, ([] : List Event))).map
          (fun r => T.part (T.key w.db.store) r.1) = x.map (T.part (T.key w.db.store)) := fun x => by
        cases x <;> rfl
      rw [hpart, hpart, h.delete]
    · obtain ⟨st₁, hst, heq⟩ := map_eq_ok.mp hx
      cases heq
      obtain ⟨_, _, _, _, -, -, -, -, rfl⟩ := deleteSubscription_ok hst
      rfl

/-- **What the others do leaves the subscription as it is.** -/
theorem agree_other (h : Agree T before w v) (hsubject : a.subject ≠ none) (hother : ¬ T.mine a = true)
    (htidy : T.Tidy a) (hact : w.act a = some w') :
    ∃ v', v.act a.rolledBack = some v' ∧ Agree T before w' v' := by
  have howns : ∀ uuid ∈ a.snapshotUuid, T.owns uuid = false := fun uuid hu =>
    (htidy uuid hu).trans (Bool.eq_false_of_not_eq_true hother)
  cases a with
  | op o =>
    cases o with
    | append now args => exact absurd rfl hsubject
    | openClaim i => exact absurd rfl hsubject
    | call c =>
      obtain rfl := Option.some.inj hact
      refine ⟨v, rfl, h.commit_left fun st es hx => ⟨(Call.run_change hx).2.streams, ?_⟩⟩
      refine run_other hx howns fun u name stream hc hstream => ?_
      exact other_subject hother rfl u name stream hc hstream
    | claimItem i now locked u name worker lease =>
      simp only [World.act, Queue.step] at hact
      split at hact
      · rename_i snapshot hws
        obtain rfl := Option.some.inj hact
        have hi := h.opened i
        rw [hws] at hi
        obtain ⟨snapshot', hvs⟩ := Option.isSome_iff_exists.mp hi
        have hcommit := h.commit_left
          (x := runClaim now snapshot locked u name worker lease w.db.store) fun st es hx =>
            ⟨(runClaim_change hx).2.1.streams, runClaim_other hx (other_subject hother rfl)⟩
        refine ⟨{ v with snapshots := Function.update v.snapshots i none }, ?_, ?_⟩
        · simp only [Act.rolledBack, World.act, Queue.step, hvs]
          rfl
        · have hclear := hcommit.clear i
          rw [commit_snapshots] at hclear
          exact hclear
      · cases hact
  | deleteSubscription u name =>
    obtain rfl := Option.some.inj hact
    refine ⟨v, rfl, h.commit_left fun st es hx => ?_⟩
    obtain ⟨st₁, hst, heq⟩ := map_eq_ok.mp hx
    cases heq
    refine ⟨?_, deleteSubscription_other hst (other_subject hother rfl)⟩
    obtain ⟨_, _, _, _, -, -, -, -, rfl⟩ := deleteSubscription_ok hst
    rfl

/-- **One step of a world, and of the world in which the others are rolled back.** -/
theorem agree_step (hw : Rooted w) (hv : Rooted v) (h : Agree T before w v) (htidy : T.Tidy a)
    (hnew : T.mine a = true → ∀ i ∈ a.claim, ¬ before i) (hact : w.act a = some w') : ∃ v', v.act (T.alone a) = some v' ∧ Agree T before w' v' := by
  by_cases hmine : T.mine a = true
  · rw [Scope.alone, if_pos (Or.inr hmine)]
    exact agree_mine h hmine htidy (hnew hmine) hact
  · by_cases hsubject : a.subject = none
    · rw [Scope.alone, if_pos (Or.inl hsubject)]
      cases a with
      | op o =>
        cases o with
        | append now args =>
          obtain rfl := Option.some.inj hact
          exact ⟨_, rfl, agree_append hw hv h now args⟩
        | openClaim i =>
          simp only [World.act, Queue.step] at hact ⊢
          split at hact
          · rename_i hws
            obtain rfl := Option.some.inj hact
            rw [(h.none_iff i).mpr hws]
            refine ⟨_, rfl, h.seq, h.store, fun j => ?_, fun j hj => ?_⟩
            · have hj := h.opened j
              simp only [Function.update_apply]
              split_ifs
              · rfl
              · exact hj
            · have hj := h.snapshots j hj
              simp only [Function.update_apply]
              split_ifs
              · exact congrArg some h.store
              · exact hj
          · cases hact
        | call c => cases hsubject
        | claimItem i now locked u name worker lease => cases hsubject
      | deleteSubscription u name => cases hsubject
    · rw [Scope.alone, if_neg fun hor => hor.elim hsubject hmine]
      exact agree_other h hsubject hmine htidy hact

/-- The same, for the run of all. -/
theorem agree_run {acts : List (Act κ)} (hw : Rooted w) (hv : Rooted v) (h : Agree T before w v)
    (htidy : ∀ a ∈ acts, T.Tidy a)
    (hnew : ∀ a ∈ acts, T.mine a = true → ∀ i ∈ a.claim, ¬ before i)
    (hrun : lifecycle.run w acts = some w') :
    ∃ v', lifecycle.run v (acts.map T.alone) = some v' ∧ Agree T before w' v' := by
  have hstep : ∀ (s t : World κ) (a : Act κ) (s' : World κ),
      (T.Tidy a ∧ (T.mine a = true → ∀ i ∈ a.claim, ¬ before i)) →
      (Rooted s ∧ Rooted t ∧ Agree T before s t) → lifecycle.step s a = some s' →
      ∃ t', lifecycle.step t (T.alone a) = some t' ∧ (Rooted s' ∧ Rooted t' ∧ Agree T before s' t') := by
    rintro s t a s' ⟨htidy, hnew⟩ ⟨hs, ht, hst⟩ hact
    obtain ⟨t', hact', hst'⟩ := agree_step hs ht hst htidy hnew hact
    exact ⟨t', hact', hs.act hact, ht.act hact', hst'⟩
  obtain ⟨v', hv', -, -, hagree⟩ := System.run_simulate hstep
    (fun a ha => ⟨htidy a ha, hnew a ha⟩) ⟨hw, hv, h⟩ hrun
  exact ⟨v', hv', hagree⟩

/-! ## What the workers find -/

variable (T) in
/-- What the workers of the subscription find in `v`, and are told there, is what they find in `w`. -/
structure Alike (before : κ → Prop) (w v : World κ) : Prop where
  log : v.db.store.log = w.db.store.log
  row : subscription v.db.store T.streamUuid T.name = subscription w.db.store T.streamUuid T.name
  items : ∀ key, T.key w.db.store = some key.1 → v.item key = w.item key
  snapshots : ∀ uuid, T.owns uuid = true → readSnapshot (some uuid) v.db.store =
    readSnapshot (some uuid) w.db.store
  caughtUp : ∀ target, isSubscriptionCaughtUp (some T.streamUuid) (some T.name) target v.db.store
    v.db.store = isSubscriptionCaughtUp (some T.streamUuid) (some T.name) target w.db.store w.db.store
  rebuild : ∀ p n, listPmRebuildEvents (some T.streamUuid) (some T.name) p n v.db.store =
    listPmRebuildEvents (some T.streamUuid) (some T.name) p n w.db.store
  reply : ∀ a : Act κ, T.mine a = true → T.Tidy a → (∀ i ∈ a.claim, ¬ before i) → v.reply a = w.reply a

omit [DecidableEq κ] in
/-- Worlds that agree on a subscription are alike to its workers. -/
theorem Agree.alike (h : Agree T before w v) : Alike T before w v := by
  have hkey : T.key v.db.store = T.key w.db.store := key_congr h.streams
  have hstore : v.db.store.restrict (T.key w.db.store) T.owns =
      w.db.store.restrict (T.key w.db.store) T.owns := h.store
  have hv : ∀ stream, v.db.store.streamByUuid T.streamUuid = some stream →
      T.key w.db.store = some (stream.streamId, T.name) := hkey ▸ key_of_stream
  have hw : ∀ stream, w.db.store.streamByUuid T.streamUuid = some stream →
      T.key w.db.store = some (stream.streamId, T.name) := key_of_stream
  have hfind : ∀ key, T.key w.db.store = some key →
      v.db.store.subscriptions.find? key = w.db.store.subscriptions.find? key := by
    intro key heq
    rw [heq] at hstore
    have hpart : (v.db.store.restrict (some key) T.owns).subscriptions.find? key =
        v.db.store.subscriptions.find? key := find?_subscription_restrict
    rw [← hpart, hstore, find?_subscription_restrict]
  have hitem : ∀ key : Key, T.key w.db.store = some key.1 → v.item key = w.item key := by
    intro key heq
    rw [heq] at hstore
    unfold World.item
    have hpart : (v.db.store.restrict (some key.1) T.owns).workItems.find? key =
        v.db.store.workItems.find? key := find?_item_restrict rfl
    rw [← hpart, hstore, find?_item_restrict rfl]
  refine ⟨?_, ?_, hitem, fun uuid howns => ?_, fun target => ?_, fun p n => ?_,
    fun a hmine htidy hnew => agree_reply h hmine htidy hnew⟩
  · show (v.db.store.restrict (T.key w.db.store) T.owns).log = _
    rw [hstore]
    rfl
  · show (T.key v.db.store).bind _ = (T.key w.db.store).bind _
    rw [hkey]
    cases heq : T.key w.db.store with
    | none => rfl
    | some key => exact hfind key heq
  · have hpart : (v.db.store.restrict (T.key w.db.store) T.owns).snapshots.find? uuid =
        v.db.store.snapshots.find? uuid := find?_snapshot_restrict howns
    simp only [readSnapshot]
    rw [← hpart, hstore, find?_snapshot_restrict howns]
  · have hpart : isSubscriptionCaughtUp (some T.streamUuid) (some T.name) target
        (v.db.store.restrict (T.key w.db.store) T.owns)
        (v.db.store.restrict (T.key w.db.store) T.owns) =
          isSubscriptionCaughtUp (some T.streamUuid) (some T.name) target v.db.store v.db.store :=
      isSubscriptionCaughtUp_restrict hv target v.db.store
    rw [← hpart, hstore, isSubscriptionCaughtUp_restrict hw]
  · have hpart : listPmRebuildEvents (some T.streamUuid) (some T.name) p n
        (v.db.store.restrict (T.key w.db.store) T.owns) =
          listPmRebuildEvents (some T.streamUuid) (some T.name) p n v.db.store :=
      listPmRebuildEvents_restrict hv p n
    rw [← hpart, hstore, listPmRebuildEvents_restrict hw]

/-! ## Isolation -/

/-- Two subscriptions, whose workers share an id and a batch of events; one of them is deleted. -/
def sampleShared : List (Act ℕ) :=
  let claim (i : ℕ) (name : String) : Act ℕ :=
    .op (.claimItem i 20 (fun _ => false) (some "$all") (some name) (some "a") (some 5))
  let subscribe (name : String) : Act ℕ :=
    .op (.call (.claimSubscription 10 (some "$all") (some name) (some "r") (some 30) none))
  [subscribe "orders", subscribe "bills", .op (.call sampleBatch), .op (.openClaim 0),
   .op (.openClaim 1), claim 1 "bills", claim 0 "orders", .deleteSubscription (some "$all") (some "bills"),
   .op (.call (.completeProjection (sampleItem "a" 1)))]

end Worlds

end Instructed.Queue
