import Instructed.Facade.Registry
import Instructed.Lib.PrefixFree
import Instructed.Store.Refine
import Instructed.Store.Snapshots

/-!
# Storage keys

An aggregate's stream, its snapshot and a process manager's snapshot are all named `type ++ "-" ++ id`.
The names of two sources differ when neither type, with its dash, is a prefix of the other. Only the
types of aggregates are compared by `register`, and only for equality.

* `Source`, `Facade.sourceUuid`: the sources and their keys;
* `Isolated`: no source meets another one in the database;
* `isolated_fails`: two accepted registrations whose sources meet;
* `isolated_iff`: **the sources are isolated iff the types are prefix-free.**
-/

namespace Instructed

open Sql Relational TaggedWords

/-- What owns sources: an aggregate type, or a registered process manager. -/
inductive Owner where
  | aggregate (type : String)
  | processManager (i : ℕ)
  deriving DecidableEq, Repr

/-- An aggregate and an id, or a process manager and a partition key. -/
abbrev Source := Owner × String

section Keys

variable {γ : Type}

/-- The registered type of an owner. -/
def Facade.ownerType (f : Facade γ) : Owner → Option String
  | .aggregate type => (f.aggregates.find? type).map (·.type)
  | .processManager i => f.processManagers[i]?.map (·.definition.type)

/-- `snapshots.source_uuid`. -/
def Facade.sourceUuid (f : Facade γ) : Source → Option String
  | (.aggregate type, id) => (f.aggregates.find? type).map (·.streamUuid id)
  | (.processManager i, key) => f.processManagers[i]?.map (·.definition.sourceUuid key)

/-- The event stream. -/
def Facade.streamUuid (f : Facade γ) : Source → Option String
  | (.aggregate type, id) => (f.dispatchStream type id).toOption
  | (.processManager _, _) => none

/-- Two sources have different keys and different streams. So nothing that one appends is on the other's
    stream, and no snapshot that one writes is under the other's key. -/
structure Isolated (f : Facade γ) : Prop where
  keys : ∀ s t u, s ≠ t → f.sourceUuid s = some u → f.sourceUuid t ≠ some u
  streams : ∀ s t u, s ≠ t → f.streamUuid s = some u → f.streamUuid t ≠ some u
  events : ∀ s t u v, s ≠ t → f.streamUuid s = some u → f.streamUuid t = some v →
    ∀ now a log new, a.streamUuid = some v → appendCall now a log = .ok new →
      onStream u (log ++ new) = onStream u log
  snapshots : ∀ s t u v, s ≠ t → f.sourceUuid s = some u → f.sourceUuid t = some v →
    ∀ now type version data metadata st,
      (upsertSnapshot now v type version data metadata st).snapshots.find? u = st.snapshots.find? u

/-- No owner's type, with its dash, is a prefix of another owner's. -/
def Separated (f : Facade γ) : Prop :=
  ∀ a b s t, a ≠ b → f.ownerType a = some s → f.ownerType b = some t →
    ¬ (s ++ "-").toList <+: (t ++ "-").toList

/-- The registration names no `streamName`. -/
def Registerable.DefaultNames : Registerable γ → Prop
  | .aggregate d => d.streamName = none
  | .processManager d => d.streamName = none
  | _ => True

/-- Every definition of the registry has the default names. -/
structure Facade.DefaultNames (f : Facade γ) : Prop where
  aggregates : ∀ d ∈ f.aggregates.rows, d.streamName = none
  processManagers : ∀ pm ∈ f.processManagers, pm.definition.streamName = none

theorem Facade.DefaultNames.register {f f' : Facade γ} {arg : Registerable γ} {opts : Bool}
    (h : f.DefaultNames) (harg : arg.DefaultNames) (hf : f.register arg opts = .ok f') :
    f'.DefaultNames := by
  cases arg with
  | commandRouter router =>
    simp only [Facade.register, Facade.registerCommandRouter] at hf
    split_ifs at hf
    cases hf
    exact ⟨h.aggregates, h.processManagers⟩
  | aggregate d =>
    simp only [Facade.register, Facade.registerAggregate] at hf
    split_ifs at hf
    cases hf
    refine ⟨fun x hx => ?_, h.processManagers⟩
    rcases Table.mem_put.mp hx with rfl | ⟨hx, -⟩
    · exact harg
    · exact h.aggregates x hx
  | projection d =>
    simp only [Facade.register, Facade.registerProjection] at hf
    split_ifs at hf
    cases hf
    exact ⟨h.aggregates, h.processManagers⟩
  | processManager d =>
    cases hf
    refine ⟨h.aggregates, fun pm hpm => ?_⟩
    rcases List.mem_append.mp hpm with hpm | hpm
    · exact h.processManagers pm hpm
    · obtain rfl := List.mem_singleton.mp hpm
      exact harg
  | unrecognised => cases hf

theorem Facade.DefaultNames.registerAll {f f' : Facade γ} {regs : List (Registerable γ × Bool)}
    (h : f.DefaultNames) (hregs : ∀ r ∈ regs, r.1.DefaultNames)
    (hf : f.registerAll regs = .ok f') : f'.DefaultNames := by
  induction regs generalizing f with
  | nil =>
    cases hf
    exact h
  | cons r regs ih =>
    obtain ⟨hr, hregs⟩ := List.forall_mem_cons.mp hregs
    obtain ⟨g, hg, hf⟩ := bind_eq_ok.mp hf
    exact ih (h.register hr hg) hregs hf

/-- A key is the owner's type, a dash, and the id. -/
theorem Facade.DefaultNames.sourceUuid_eq {f : Facade γ} (h : f.DefaultNames) (s : Source) :
    f.sourceUuid s = (f.ownerType s.1).map fun type => type ++ "-" ++ s.2 := by
  obtain ⟨owner, id⟩ := s
  cases owner with
  | aggregate type =>
    simp only [Facade.sourceUuid, Facade.ownerType, Option.map_map]
    apply Option.map_congr
    intro d hd
    simp only [AggregateDefinition.streamUuid, h.aggregates d (Table.mem_of_find? hd),
      Option.getD_none, prefixType, Function.comp]
  | processManager i =>
    simp only [Facade.sourceUuid, Facade.ownerType, Option.map_map]
    apply Option.map_congr
    intro pm hpm
    simp only [ProcessManagerDefinition.sourceUuid, h.processManagers pm (List.mem_of_getElem? hpm),
      Option.getD_none, prefixType, Function.comp]

/-- A stream is the key of its aggregate. -/
theorem Facade.sourceUuid_of_streamUuid {f : Facade γ} {s : Source} {u : String}
    (h : f.streamUuid s = some u) : f.sourceUuid s = some u := by
  obtain ⟨owner, id⟩ := s
  cases owner with
  | aggregate type =>
    simp only [Facade.streamUuid, Facade.dispatchStream] at h
    simp only [Facade.sourceUuid]
    cases hd : f.aggregates.find? type with
    | none => rw [hd] at h; cases h
    | some d => rw [hd] at h; exact h
  | processManager i => cases h

theorem Isolated.of_keys {f : Facade γ}
    (h : ∀ s t u, s ≠ t → f.sourceUuid s = some u → f.sourceUuid t ≠ some u) : Isolated f := by
  have hne : ∀ s t u v, s ≠ t → f.sourceUuid s = some u → f.sourceUuid t = some v → v ≠ u := by
    rintro s t u v hst hs ht rfl
    exact h s t v hst hs ht
  refine ⟨h, fun s t u hst hs ht => ?_, fun s t u v hst hs ht now a log new ha happ => ?_,
    fun s t u v hst hs ht now type version data metadata st => ?_⟩
  · exact h s t u hst (Facade.sourceUuid_of_streamUuid hs) (Facade.sourceUuid_of_streamUuid ht)
  · have huv := hne s t u v hst (Facade.sourceUuid_of_streamUuid hs)
      (Facade.sourceUuid_of_streamUuid ht)
    obtain ⟨r, es, hr, -, -, -, rfl⟩ := appendCall_ok happ
    obtain rfl : r.streamUuid = v :=
      Option.some.inj ((validateAppend_ok hr).1.symm.trans ha)
    have hnil : onStream u (recordBatch log r.streamUuid es) = [] := by
      rw [onStream, List.filter_eq_nil_iff]
      intro e he
      simpa [recordBatch_streamUuid he] using huv
    rw [onStream_append, hnil, List.append_nil]
  · show (st.snapshots.put ⟨v, type, version, data, metadata, now⟩).find? u = st.snapshots.find? u
    rw [Table.find?_put, if_neg (hne s t u v hst hs ht)]

/-! ## The keys as tagged words -/

/-- The owners that are registered, with their types. -/
def Facade.Owned (f : Facade γ) : Type := { o : Owner × String // f.ownerType o.1 = some o.2 }

/-- The type and the dash. -/
def Facade.tag (f : Facade γ) (o : f.Owned) : List Char := (o.1.2 ++ "-").toList

theorem separated_iff {f : Facade γ} : Separated f ↔ PrefixFree f.tag := by
  constructor
  · rintro h ⟨⟨a, s⟩, hs⟩ ⟨⟨b, t⟩, ht⟩ hne
    refine h a b s t ?_ hs ht
    rintro rfl
    apply hne
    apply Subtype.ext
    exact Prod.ext rfl (Option.some.inj (hs.symm.trans ht))
  · intro h a b s t hab hs ht
    refine h ⟨(a, s), hs⟩ ⟨(b, t), ht⟩ fun heq => hab ?_
    exact congrArg (fun o => o.1.1) heq

theorem toList_key (type id : String) :
    (type ++ "-" ++ id).toList = (type ++ "-").toList ++ id.toList := String.toList_append

/-- **Storage keys are isolated iff the types are prefix-free**, whatever was registered with default
    names. -/
theorem isolated_iff {regs : List (Registerable γ × Bool)} {f : Facade γ}
    (h : Facade.new.registerAll regs = .ok f) (hregs : ∀ r ∈ regs, r.1.DefaultNames) :
    Isolated f ↔ Separated f := by
  have hnew : (Facade.new : Facade γ).DefaultNames :=
    ⟨fun d hd => absurd hd List.not_mem_nil, fun pm hpm => absurd hpm List.not_mem_nil⟩
  have hf := hnew.registerAll hregs h
  rw [separated_iff, ← injective_tag_iff]
  constructor
  · rintro hiso ⟨⟨⟨a, s⟩, hs⟩, x⟩ ⟨⟨⟨b, t⟩, ht⟩, y⟩ heq
    have hkey : s ++ "-" ++ String.ofList x = t ++ "-" ++ String.ofList y := by
      apply String.toList_inj.mp
      rw [toList_key, toList_key, String.toList_ofList, String.toList_ofList]
      exact heq
    have hsource : (a, String.ofList x) = (b, String.ofList y) := by
      by_contra hne
      refine hiso.keys (a, String.ofList x) (b, String.ofList y) (s ++ "-" ++ String.ofList x) hne ?_ ?_
      · rw [hf.sourceUuid_eq]
        exact congrArg (Option.map _) hs
      · rw [hf.sourceUuid_eq, hkey]
        exact congrArg (Option.map _) ht
    obtain ⟨rfl, hxy⟩ := Prod.mk.inj hsource
    obtain rfl := Option.some.inj (hs.symm.trans ht)
    have hx : x = y := by
      rw [← String.toList_ofList (l := x), hxy, String.toList_ofList]
    rw [hx]
  · intro hinj
    refine .of_keys fun s t u hst hs ht => ?_
    rw [hf.sourceUuid_eq] at hs ht
    obtain ⟨a, ha, rfl⟩ := Option.map_eq_some_iff.mp hs
    obtain ⟨b, hb, heq⟩ := Option.map_eq_some_iff.mp ht
    have hword : f.tag ⟨(t.1, b), hb⟩ ++ t.2.toList = f.tag ⟨(s.1, a), ha⟩ ++ s.2.toList := by
      have hlist := congrArg String.toList heq
      rwa [toList_key, toList_key] at hlist
    have hpair := @hinj (⟨(t.1, b), hb⟩, t.2.toList) (⟨(s.1, a), ha⟩, s.2.toList) hword
    apply hst
    refine Prod.ext ?_ ?_
    · exact (congrArg (fun p => p.1.1.1) hpair).symm
    · exact String.toList_inj.mp (congrArg Prod.snd hpair).symm

/-! ## Two sources that meet -/

/-- Two aggregate types, one of which continues the other behind a dash. -/
def sampleRegistrations : List (Registerable Unit × Bool) :=
  [(.aggregate ⟨"order", none⟩, false), (.aggregate ⟨"order-line", none⟩, false)]

/-- Line 7 of order 1 is the order `line-7` as well. -/
theorem isolated_fails : ∃ f, Facade.new.registerAll sampleRegistrations = .ok f ∧ ¬ Isolated f := by
  refine ⟨_, rfl, fun h => ?_⟩
  exact h.keys (.aggregate "order", "line-7") (.aggregate "order-line", "7") "order-line-7"
    (by decide) (by decide) (by decide)

/-- Types that are told apart. -/
def separateFacade : Facade Unit where
  aggregates := (Table.empty _).put ⟨"order", none⟩
  projections := []
  processManagers := [⟨"$all", ⟨"shipment", none, none, fun _ => .ignore, none⟩⟩]
  commandRouter := none

theorem separateFacade_ownerType {a : Owner} {s : String} (h : separateFacade.ownerType a = some s) :
    (a = .aggregate "order" ∧ s = "order") ∨ (a = .processManager 0 ∧ s = "shipment") := by
  cases a with
  | aggregate type =>
    left
    obtain ⟨d, hd, rfl⟩ := Option.map_eq_some_iff.mp h
    obtain ⟨hmem, rfl⟩ := Table.find?_eq_some_iff.mp hd
    obtain rfl : d = ⟨"order", none⟩ := List.mem_singleton.mp hmem
    exact ⟨rfl, rfl⟩
  | processManager i =>
    right
    obtain ⟨pm, hpm, rfl⟩ := Option.map_eq_some_iff.mp h
    cases i with
    | zero => exact ⟨rfl, congrArg (fun pm => pm.definition.type) (Option.some.inj hpm).symm⟩
    | succ i => cases hpm

theorem isolated_iff_separateFacade : Facade.new.registerAll
    [(.aggregate ⟨"order", none⟩, false),
      (.processManager ⟨"shipment", none, none, fun _ => .ignore, none⟩, true)] = .ok separateFacade ∧
    Isolated separateFacade := by
  have h : Facade.new.registerAll [(.aggregate ⟨"order", none⟩, false),
      (.processManager ⟨"shipment", none, none, fun _ => .ignore, none⟩, true)] =
        .ok separateFacade := rfl
  refine ⟨h, (isolated_iff h ?_).mpr ?_⟩
  · simp [Registerable.DefaultNames]
  · intro a b s t hab hs ht
    rcases separateFacade_ownerType hs with ⟨rfl, rfl⟩ | ⟨rfl, rfl⟩
    · rcases separateFacade_ownerType ht with ⟨rfl, rfl⟩ | ⟨rfl, rfl⟩
      · exact absurd rfl hab
      · decide
    · rcases separateFacade_ownerType ht with ⟨rfl, rfl⟩ | ⟨rfl, rfl⟩
      · decide
      · exact absurd rfl hab

end Keys

end Instructed
