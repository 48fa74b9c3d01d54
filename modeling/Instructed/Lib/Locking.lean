import Instructed.Lib.System
import Mathlib.Data.Fintype.Basic
import Mathlib.Data.Fintype.Pi
import Mathlib.Logic.Relation

/-!
# Row locks

Transactions that lock rows one after the other and keep the locks to their end. What a transaction
reads is left to the environment. A request waits while another transaction holds a conflicting lock on
its row; it may also end without the lock, at any time, as when the row turns out to be gone. A request
that skips locked rows does not wait.

* `Program`, `step`: the transactions, and one step of one of them;
* `WaitsFor`: the wait-for graph;
* `Disciplined`: a program that requests rows in the order `before`, asks again only for what it
  holds, or holds the guard of the row it asks for;
* `WellFormed`: what every step keeps;
* `acyclic`: **disciplined programs never wait for each other in a circle.**
-/

namespace Locking

open Transition

/-! ## Programs -/

/-- A row and the mode it is locked in. -/
structure Lock (ρ μ : Type) where
  row : ρ
  mode : μ
  deriving DecidableEq

/-- What is left of a transaction. The continuation of a request learns whether the lock was taken. -/
inductive Program (σ ρ μ : Type) where
  | done
  | look (next : σ → Program σ ρ μ)
  | lock (l : Lock ρ μ) (next : Bool → Program σ ρ μ)
  | tryLock (l : Lock ρ μ) (next : Bool → Program σ ρ μ)

/-- A transaction in progress. -/
structure Session (σ ρ μ : Type) where
  held : List (Lock ρ μ)
  rest : Program σ ρ μ

/-- What happens next. -/
inductive Op (ι σ : Type) where
  | look (i : ι) (s : σ)
  /-- The request is granted. -/
  | grant (i : ι)
  /-- The request ends without the lock. -/
  | pass (i : ι)
  /-- Commit or rollback. -/
  | finish (i : ι)

section Semantics

variable {ι σ ρ μ : Type} (conflicts : μ → μ → Bool)

/-- Another transaction, `j`, holds a lock that `l` conflicts with. -/
def Opposes (s : ι → Session σ ρ μ) (i j : ι) (l : Lock ρ μ) : Prop :=
  j ≠ i ∧ ∃ h ∈ (s j).held, h.row = l.row ∧ conflicts h.mode l.mode = true

/-- `i` waits for `j`. -/
def WaitsFor (s : ι → Session σ ρ μ) (i j : ι) : Prop :=
  ∃ l next, (s i).rest = .lock l next ∧ Opposes conflicts s i j l

instance [DecidableEq ι] [DecidableEq ρ] (s : ι → Session σ ρ μ) (i j : ι) (l : Lock ρ μ) :
    Decidable (Opposes conflicts s i j l) :=
  inferInstanceAs (Decidable (_ ∧ _))

variable [Fintype ι] [DecidableEq ι] [DecidableEq ρ]

/-- The session after its request was granted. -/
def granted (s : ι → Session σ ρ μ) (i : ι) (l : Lock ρ μ) (next : Bool → Program σ ρ μ) :
    Option (ι → Session σ ρ μ) :=
  if ∃ j, Opposes conflicts s i j l then none
  else some (Function.update s i ⟨l :: (s i).held, next true⟩)

/-- One step of one transaction. -/
def step (s : ι → Session σ ρ μ) : Op ι σ → Option (ι → Session σ ρ μ)
  | .look i v =>
    match (s i).rest with
    | .look next => some (Function.update s i ⟨(s i).held, next v⟩)
    | _ => none
  | .grant i =>
    match (s i).rest with
    | .lock l next => granted conflicts s i l next
    | .tryLock l next => granted conflicts s i l next
    | _ => none
  | .pass i =>
    match (s i).rest with
    | .lock _ next => some (Function.update s i ⟨(s i).held, next false⟩)
    | .tryLock _ next => some (Function.update s i ⟨(s i).held, next false⟩)
    | _ => none
  | .finish i => some (Function.update s i ⟨[], .done⟩)

/-- The transactions that run these programs. -/
def transactions (programs : ι → Program σ ρ μ) : System (ι → Session σ ρ μ) (Op ι σ) where
  init s := s = fun i => ⟨[], programs i⟩
  step := step conflicts

end Semantics

/-! ## The discipline -/

section Discipline

variable {ι σ ρ μ : Type} (conflicts : μ → μ → Bool) (guard : ρ → Option (Lock ρ μ))
  {held : List (Lock ρ μ)} {l : Lock ρ μ}

/-- Whatever a lock in mode `m'` keeps out, a lock in mode `m` keeps out. -/
def Covers (m m' : μ) : Prop := ∀ k, conflicts k m' = true → conflicts k m = true

/-- The guard of the row is held. -/
def Guarded (held : List (Lock ρ μ)) (row : ρ) : Prop := ∀ g, guard row = some g → g ∈ held

theorem Guarded.cons {row : ρ} (h : Guarded guard held row) : Guarded guard (l :: held) row :=
  fun g hg => List.mem_cons_of_mem _ (h g hg)

variable (before : ρ → ρ → Prop)

/-- A request that may wait: its row has a guard, is held already, or comes after all rows held. -/
def Ordered (held : List (Lock ρ μ)) (l : Lock ρ μ) : Prop :=
  (guard l.row).isSome = true ∨ (∃ h ∈ held, h.row = l.row ∧ Covers conflicts h.mode l.mode) ∨
    ∀ h ∈ held, before h.row l.row

/-- A program that keeps the order, from the locks `held` on. -/
def Disciplined : List (Lock ρ μ) → Program σ ρ μ → Prop
  | _, .done => True
  | held, .look next => ∀ v, Disciplined held (next v)
  | held, .lock l next => Guarded guard held l.row ∧ Ordered conflicts guard before held l ∧
      Disciplined (l :: held) (next true) ∧ Disciplined held (next false)
  | held, .tryLock l next => Guarded guard held l.row ∧
      Disciplined (l :: held) (next true) ∧ Disciplined held (next false)

/-- What every step keeps. -/
structure WellFormed (s : ι → Session σ ρ μ) : Prop where
  disciplined : ∀ i, Disciplined conflicts guard before (s i).held (s i).rest
  exclusive : ∀ i j, i ≠ j → ∀ a ∈ (s i).held, ∀ b ∈ (s j).held, a.row = b.row →
    conflicts a.mode b.mode = false
  guarded : ∀ i, ∀ l ∈ (s i).held, Guarded guard (s i).held l.row

end Discipline

section Steps

variable {ι σ ρ μ : Type} {conflicts : μ → μ → Bool} {guard : ρ → Option (Lock ρ μ)}
  {before : ρ → ρ → Prop} {s s' : ι → Session σ ρ μ} {i : ι} {l : Lock ρ μ}

/-- Who waits, holds only rows before the one it waits for. -/
theorem WellFormed.before_of_waits (hs : WellFormed conflicts guard before s)
    (hself : ∀ row g, guard row = some g → conflicts g.mode g.mode = true)
    {j : ι} {next : Bool → Program σ ρ μ} (hrest : (s i).rest = .lock l next)
    (hopp : Opposes conflicts s i j l) : ∀ h ∈ (s i).held, before h.row l.row := by
  obtain ⟨hne, b, hb, hrow, hconflict⟩ := hopp
  have hdisc := hs.disciplined i
  rw [hrest] at hdisc
  obtain ⟨hguard, hordered, -⟩ := hdisc
  rcases hordered with hsome | ⟨a, ha, harow, hcovers⟩ | hlt
  · -- Both hold the guard of the row, which excludes itself.
    obtain ⟨g, hg⟩ := Option.isSome_iff_exists.mp hsome
    have hi := hguard g hg
    have hj := hs.guarded j b hb g (hrow ▸ hg)
    have hfalse := hs.exclusive i j hne.symm g hi g hj rfl
    rw [hself _ g hg] at hfalse
    cases hfalse
  · -- What is held already keeps the other lock out.
    have htrue := hcovers _ hconflict
    rw [hs.exclusive j i hne b hb a ha (hrow.trans harow.symm)] at htrue
    cases htrue
  · exact hlt

variable [DecidableEq ι]

/-- A session that goes on with the locks it has, or gives them up. -/
theorem WellFormed.update (hs : WellFormed conflicts guard before s) {x : Session σ ρ μ}
    (hdisc : Disciplined conflicts guard before x.held x.rest) (hheld : x.held = (s i).held ∨ x.held = []) :
    WellFormed conflicts guard before (Function.update s i x) := by
  have hsub : ∀ l ∈ x.held, l ∈ (s i).held := by
    intro l hl
    rcases hheld with heq | hnil
    · exact heq ▸ hl
    · rw [hnil] at hl
      exact absurd hl List.not_mem_nil
  have hmem : ∀ j, ∀ l ∈ (Function.update s i x j).held, l ∈ (s j).held := by
    intro j l hl
    by_cases hj : j = i
    · subst hj
      rw [Function.update_self] at hl
      exact hsub l hl
    · rwa [Function.update_of_ne hj] at hl
  refine ⟨fun j => ?_, fun j k hjk a ha b hb => ?_, fun j l hl => ?_⟩
  · by_cases hj : j = i
    · subst hj
      rwa [Function.update_self]
    · rw [Function.update_of_ne hj]
      exact hs.disciplined j
  · exact hs.exclusive j k hjk a (hmem j a ha) b (hmem k b hb)
  · by_cases hj : j = i
    · subst hj
      rw [Function.update_self] at hl ⊢
      rcases hheld with heq | hnil
      · rw [heq] at hl ⊢
        exact hs.guarded j l hl
      · rw [hnil] at hl
        exact absurd hl List.not_mem_nil
    · rw [Function.update_of_ne hj] at hl ⊢
      exact hs.guarded j l hl

variable [Fintype ι] [DecidableEq ρ]

/-- A session that takes a lock which no other opposes. -/
theorem WellFormed.granted (hs : WellFormed conflicts guard before s)
    (hsymm : ∀ a b, conflicts a b = conflicts b a) {next : Bool → Program σ ρ μ}
    (hguard : Guarded guard (s i).held l.row)
    (hdisc : Disciplined conflicts guard before (l :: (s i).held) (next true))
    (h : granted conflicts s i l next = some s') : WellFormed conflicts guard before s' := by
  unfold Locking.granted at h
  split_ifs at h with hfree
  obtain rfl := Option.some.inj h
  have hopp : ∀ j, j ≠ i → ∀ b ∈ (s j).held, b.row = l.row → conflicts b.mode l.mode = false := by
    intro j hj b hb hrow
    by_contra hc
    exact hfree ⟨j, hj, b, hb, hrow, by simpa using hc⟩
  refine ⟨fun j => ?_, fun j k hjk a ha b hb hrow => ?_, fun j a ha => ?_⟩
  · by_cases hj : j = i
    · subst hj
      rwa [Function.update_self]
    · rw [Function.update_of_ne hj]
      exact hs.disciplined j
  · by_cases hj : j = i
    · subst hj
      rw [Function.update_self] at ha
      rw [Function.update_of_ne (Ne.symm hjk)] at hb
      rcases List.mem_cons.mp ha with rfl | ha
      · rw [hsymm]
        exact hopp k (Ne.symm hjk) b hb hrow.symm
      · exact hs.exclusive j k hjk a ha b hb hrow
    · rw [Function.update_of_ne hj] at ha
      by_cases hk : k = i
      · subst hk
        rw [Function.update_self] at hb
        rcases List.mem_cons.mp hb with rfl | hb
        · exact hopp j hj a ha hrow
        · exact hs.exclusive j k hjk a ha b hb hrow
      · rw [Function.update_of_ne hk] at hb
        exact hs.exclusive j k hjk a ha b hb hrow
  · by_cases hj : j = i
    · subst hj
      rw [Function.update_self] at ha ⊢
      rcases List.mem_cons.mp ha with rfl | ha
      · exact hguard.cons
      · exact (hs.guarded j a ha).cons
    · rw [Function.update_of_ne hj] at ha ⊢
      exact hs.guarded j a ha

theorem WellFormed.step (hs : WellFormed conflicts guard before s)
    (hsymm : ∀ a b, conflicts a b = conflicts b a) {op : Op ι σ}
    (h : step conflicts s op = some s') : WellFormed conflicts guard before s' := by
  cases op with
  | look i v =>
    simp only [Locking.step] at h
    have hdisc := hs.disciplined i
    split at h
    · rename_i next hrest
      obtain rfl := Option.some.inj h
      rw [hrest] at hdisc
      exact hs.update (hdisc v) (Or.inl rfl)
    · cases h
  | grant i =>
    simp only [Locking.step] at h
    have hdisc := hs.disciplined i
    split at h
    · rename_i l next hrest
      rw [hrest] at hdisc
      exact hs.granted hsymm hdisc.1 hdisc.2.2.1 h
    · rename_i l next hrest
      rw [hrest] at hdisc
      exact hs.granted hsymm hdisc.1 hdisc.2.1 h
    · cases h
  | pass i =>
    simp only [Locking.step] at h
    have hdisc := hs.disciplined i
    split at h
    · rename_i l next hrest
      obtain rfl := Option.some.inj h
      rw [hrest] at hdisc
      exact hs.update hdisc.2.2.2 (Or.inl rfl)
    · rename_i l next hrest
      obtain rfl := Option.some.inj h
      rw [hrest] at hdisc
      exact hs.update hdisc.2.2 (Or.inl rfl)
    · cases h
  | finish i =>
    obtain rfl := Option.some.inj h
    exact hs.update trivial (Or.inr rfl)

theorem wellFormed_of_reachable {programs : ι → Program σ ρ μ}
    (hsymm : ∀ a b, conflicts a b = conflicts b a)
    (hprog : ∀ i, Disciplined conflicts guard before [] (programs i))
    (h : Reachable (transactions conflicts programs) s) : WellFormed conflicts guard before s := by
  refine h.invariant ?_ fun s op s' hs _ hstep => hs.step hsymm hstep
  rintro s rfl
  exact ⟨hprog, fun i j _ a ha => absurd ha List.not_mem_nil, fun i l hl =>
    absurd hl List.not_mem_nil⟩

/-- **Transactions that keep the order never wait for each other in a circle.** -/
theorem acyclic {programs : ι → Program σ ρ μ} (hirrefl : ∀ a, ¬ before a a)
    (htrans : ∀ a b c, before a b → before b c → before a c)
    (hsymm : ∀ a b, conflicts a b = conflicts b a)
    (hself : ∀ row g, guard row = some g → conflicts g.mode g.mode = true)
    (hprog : ∀ i, Disciplined conflicts guard before [] (programs i))
    (h : Reachable (transactions conflicts programs) s) (i : ι) :
    ¬ Relation.TransGen (WaitsFor conflicts s) i i := by
  have hs := wellFormed_of_reachable hsymm hprog h
  -- Along a path the rows that are waited for increase, and its end holds one of them.
  have hpath : ∀ j, Relation.TransGen (WaitsFor conflicts s) i j → ∃ l next j',
      (s i).rest = .lock l next ∧ Opposes conflicts s i j' l ∧
        ∃ b ∈ (s j).held, l.row = b.row ∨ before l.row b.row := by
    intro j hpath
    induction hpath with
    | single hwait =>
      obtain ⟨l, next, hrest, hopp⟩ := hwait
      obtain ⟨b, hb, hrow, -⟩ := hopp.2
      exact ⟨l, next, _, hrest, hopp, b, hb, Or.inl hrow.symm⟩
    | tail _ hwait ih =>
      obtain ⟨l, next, j', hrest, hopp, b, hb, hle⟩ := ih
      obtain ⟨l', next', hrest', hopp'⟩ := hwait
      have hlt := hs.before_of_waits hself hrest' hopp' b hb
      obtain ⟨b', hb', hrow', -⟩ := hopp'.2
      refine ⟨l, next, j', hrest, hopp, b', hb', Or.inr ?_⟩
      rw [hrow']
      rcases hle with heq | hbefore
      · rwa [heq]
      · exact htrans _ _ _ hbefore hlt
  intro hcycle
  obtain ⟨l, next, j', hrest, hopp, b, hb, hle⟩ := hpath i hcycle
  have hlt := hs.before_of_waits hself hrest hopp b hb
  rcases hle with heq | hbefore
  · exact hirrefl _ (heq ▸ hlt)
  · exact hirrefl _ (htrans _ _ _ hbefore hlt)

end Steps

end Locking
