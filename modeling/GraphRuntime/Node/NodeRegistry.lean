import Std.Data.TreeMap.Lemmas
import GraphRuntime.Lib.OrderedMap
import GraphRuntime.Lib.Runs
import GraphRuntime.Profiler.TimeHistogram

/-!
# `NodeFactoryRegistry`

The two maps of node_registry.cc, one from type names to factories and one from
registration ids to type names.  `CreateNode` of a factory is a parameter, as is
the type `F` of the factories.

A run is a sequence of `Register` and `Unregister` calls; the destructor of a
`NodeRegistrationToken` is an `Unregister`.  Beside the two maps `Registry` keeps
the registrations that are live, in the order they were made, and `Reflects` is
what the maps should say about them.  Every run keeps the ids right (`Tracks`).
The factories are right in a whole run exactly when no call removes a registration
whose type has another one (`registry_reflects_iff`): `Unregister` erases the
factory of the type, whichever registration it came from.
-/

namespace GraphRuntime.Node

open GraphRuntime.Profiler

/-- `RegistryData`. -/
structure RegistryData (F : Type) where
  factories : Std.TreeMap String F := ∅
  idToName : Std.TreeMap Int String := ∅
  nextId : Int := 1

namespace RegistryData

variable {F Node Options : Type} (data : RegistryData F)

/-- `Register`, with the id it returns.  `next_id++` has no value at `INT_MAX`. -/
def register (typeName : String) (factory : F) : Option (RegistryData F × Int) :=
  if data.nextId = int32Max then none
  else
    some
      ({ factories := data.factories.insert typeName factory
         idToName := data.idToName.insert data.nextId typeName
         nextId := data.nextId + 1 },
        data.nextId)

/-- `Unregister`, with its result. -/
def unregister (registrationId : Int) : RegistryData F × Bool :=
  match data.idToName[registrationId]? with
  | none => (data, false)
  | some typeName =>
      ({ data with
          factories := data.factories.erase typeName
          idToName := data.idToName.erase registrationId }, true)

def getFactory (typeName : String) : Option F := data.factories[typeName]?

def isRegistered (typeName : String) : Bool := (data.getFactory typeName).isSome

/-- `CreateByName`, where `createNode` is the virtual `CreateNode` of the factory. -/
def createByName (createNode : F → String → Options → Option Node)
    (typeName nodeName : String) (options : Options) : Option Node :=
  match data.getFactory typeName with
  | none => none
  | some factory => createNode factory nodeName options

def createByNameInNamespace (createNode : F → String → Options → Option Node)
    (ns typeName nodeName : String) (options : Options) : Option Node :=
  let qualified := if ns.isEmpty then typeName else ns ++ "::" ++ typeName
  data.createByName createNode qualified nodeName options

def registeredTypes : List String := data.factories.keys

end RegistryData

/-! ## The live registrations -/

/-- A registration: the id `Register` returned and what it was given. -/
structure Registration (F : Type) where
  id : Int
  typeName : String
  factory : F

section

variable {F : Type}

/-- The registrations of a type, the latest one last. -/
def ofType (live : List (Registration F)) (typeName : String) : List (Registration F) :=
  live.filter fun r => decide (r.typeName = typeName)

def without (live : List (Registration F)) (id : Int) : List (Registration F) :=
  live.filter fun r => !decide (r.id = id)

/-- The factory of the latest registration of a type. -/
def latestFactory (live : List (Registration F)) (typeName : String) : Option F :=
  (ofType live typeName).getLast?.map Registration.factory

/-- A call of the registry. -/
inductive RegistryCall (F : Type)
  | register (typeName : String) (factory : F)
  | unregister (registrationId : Int)

/-- The registry with the registrations that are live. -/
structure Registry (F : Type) where
  data : RegistryData F := {}
  live : List (Registration F) := []

/-- One call, `none` after an id has overflowed. -/
def Registry.step : Option (Registry F) → RegistryCall F → Option (Registry F)
  | none, _ => none
  | some s, .register typeName factory =>
      (s.data.register typeName factory).map fun r =>
        ⟨r.1, s.live ++ [⟨r.2, typeName, factory⟩]⟩
  | some s, .unregister id => some ⟨(s.data.unregister id).1, without s.live id⟩

/-- **What the maps should say** about the live registrations. -/
structure Reflects {Node Options : Type} (createNode : F → String → Options → Option Node)
    (s : Registry F) : Prop where
  isRegistered : ∀ typeName, s.data.isRegistered typeName = true ↔
    ∃ r ∈ s.live, r.typeName = typeName
  createByName : ∀ typeName nodeName options,
    s.data.createByName createNode typeName nodeName options =
      (latestFactory s.live typeName).bind fun f => createNode f nodeName options
  unregister : ∀ id, (s.data.unregister id).2 = true ↔ ∃ r ∈ s.live, r.id = id

/-- No id has overflowed, and the maps say what they should. -/
def Reflected {Node Options : Type} (createNode : F → String → Options → Option Node) :
    Option (Registry F) → Prop
  | none => False
  | some s => Reflects createNode s

/-- The calls after which the maps are still right: a registration with an id left for
it, and a removal after which the type of what is removed has no registration. -/
def Removable : Option (Registry F) → RegistryCall F → Prop
  | none, _ => False
  | some s, .register _ _ => s.data.nextId ≠ int32Max
  | some s, .unregister id => ∀ r ∈ s.live, r.id = id →
      ∀ other ∈ s.live, other.typeName = r.typeName → other.id = id

/-! ## The lists of registrations -/

variable {live : List (Registration F)} {r : Registration F} {typeName : String} {id : Int}
  {factory : F}

theorem mem_ofType : r ∈ ofType live typeName ↔ r ∈ live ∧ r.typeName = typeName := by
  simp [ofType]

theorem mem_without : r ∈ without live id ↔ r ∈ live ∧ r.id ≠ id := by
  simp [without]

theorem latestFactory_isSome :
    (latestFactory live typeName).isSome ↔ ∃ r ∈ live, r.typeName = typeName := by
  rw [latestFactory, Option.isSome_map, List.getLast?_isSome]
  constructor
  · intro hNe
    obtain ⟨r, hMem⟩ := List.exists_mem_of_ne_nil _ hNe
    exact ⟨r, mem_ofType.mp hMem⟩
  · rintro ⟨r, hMem⟩
    exact List.ne_nil_of_mem (mem_ofType.mpr hMem)

theorem latestFactory_append_self :
    latestFactory (live ++ [⟨id, typeName, factory⟩]) typeName = some factory := by
  simp [latestFactory, ofType, List.filter_append]

theorem latestFactory_append_of_ne {other : String} (hNe : typeName ≠ other) :
    latestFactory (live ++ [⟨id, typeName, factory⟩]) other = latestFactory live other := by
  simp [latestFactory, ofType, List.filter_append, hNe]

/-- Removing a registration of another type leaves the latest of a type. -/
theorem latestFactory_without (hOther : ∀ r ∈ live, r.typeName = typeName → r.id ≠ id) :
    latestFactory (without live id) typeName = latestFactory live typeName := by
  have hSame : ofType (without live id) typeName = ofType live typeName := by
    rw [ofType, without, List.filter_filter]
    refine List.filter_congr ?_
    intro r hMem
    by_cases hType : r.typeName = typeName
    · simp [hType, hOther r hMem hType]
    · simp [hType]
  rw [latestFactory, hSame, latestFactory]

/-- Removing all registrations of a type leaves none. -/
theorem latestFactory_without_eq_none
    (hOnly : ∀ r ∈ live, r.typeName = typeName → r.id = id) :
    latestFactory (without live id) typeName = none := by
  have hNone : ofType (without live id) typeName = [] := by
    refine List.eq_nil_iff_forall_not_mem.mpr ?_
    intro r hMem
    obtain ⟨hIn, hType⟩ := mem_ofType.mp hMem
    obtain ⟨hLive, hNe⟩ := mem_without.mp hIn
    exact hNe (hOnly r hLive hType)
  rw [latestFactory, hNone]
  rfl

/-! ## The two maps along a run -/

/-- The ids are right: the map from ids has the live registrations, which are told apart
by their ids. -/
structure Tracks (s : Registry F) : Prop where
  idToName : ∀ id typeName, s.data.idToName[id]? = some typeName ↔
    ∃ r ∈ s.live, r.id = id ∧ r.typeName = typeName
  distinct : ∀ r ∈ s.live, ∀ r' ∈ s.live, r.id = r'.id → r = r'
  below : ∀ r ∈ s.live, r.id < s.data.nextId

/-- The factories are right. -/
def HoldsLatest (s : Registry F) : Prop :=
  ∀ typeName, s.data.factories[typeName]? = latestFactory s.live typeName

variable {s s' : Registry F}

theorem Tracks.idToName_eq_none (hTracks : Tracks s) :
    s.data.idToName[id]? = none ↔ ∀ r ∈ s.live, r.id ≠ id := by
  rw [Option.eq_none_iff_forall_ne_some]
  constructor
  · intro hNone r hMem hId
    exact hNone r.typeName ((hTracks.idToName id r.typeName).mpr ⟨r, hMem, hId, rfl⟩)
  · intro hNone typeName hFound
    obtain ⟨r, hMem, hId, _⟩ := (hTracks.idToName id typeName).mp hFound
    exact hNone r hMem hId

/-- `Unregister` knows an id exactly when it is live. -/
theorem Tracks.unregister_iff (hTracks : Tracks s) :
    (s.data.unregister id).2 = true ↔ ∃ r ∈ s.live, r.id = id := by
  unfold RegistryData.unregister
  cases hFound : s.data.idToName[id]? with
  | none =>
      have hNone := hTracks.idToName_eq_none.mp hFound
      simp only [Bool.false_eq_true, false_iff, not_exists, not_and]
      exact hNone
  | some typeName =>
      obtain ⟨r, hMem, hId, _⟩ := (hTracks.idToName id typeName).mp hFound
      simp only [true_iff]
      exact ⟨r, hMem, hId⟩

theorem Tracks.register (hTracks : Tracks s) {data : RegistryData F}
    (hRegister : s.data.register typeName factory = some (data, id)) :
    Tracks ⟨data, s.live ++ [⟨id, typeName, factory⟩]⟩ := by
  unfold RegistryData.register at hRegister
  split at hRegister
  · simp at hRegister
  simp only [Option.some.injEq, Prod.mk.injEq] at hRegister
  obtain ⟨rfl, rfl⟩ := hRegister
  refine ⟨?_, ?_, ?_⟩
  · intro id t
    by_cases hId : s.data.nextId = id
    · subst hId
      rw [OrderedMap.getElem?_insert_self, Option.some.injEq]
      constructor
      · rintro rfl
        exact ⟨_, List.mem_append_right _ (List.mem_singleton.mpr rfl), rfl, rfl⟩
      · rintro ⟨r, hMem, hId, rfl⟩
        rcases List.mem_append.mp hMem with hOld | hNew
        · exact absurd hId (hTracks.below r hOld).ne
        · rw [List.mem_singleton.mp hNew]
    · rw [OrderedMap.getElem?_insert_of_ne hId, hTracks.idToName]
      simp only [List.mem_append, List.mem_singleton, or_and_right, exists_or,
        exists_eq_left, hId, false_and, or_false]
  · intro r hMem r' hMem' hSame
    rcases List.mem_append.mp hMem with hOld | hNew
    · rcases List.mem_append.mp hMem' with hOld' | hNew'
      · exact hTracks.distinct r hOld r' hOld' hSame
      · rw [List.mem_singleton.mp hNew'] at hSame
        exact absurd hSame (hTracks.below r hOld).ne
    · rcases List.mem_append.mp hMem' with hOld' | hNew'
      · rw [List.mem_singleton.mp hNew] at hSame
        exact absurd hSame.symm (hTracks.below r' hOld').ne
      · rw [List.mem_singleton.mp hNew, List.mem_singleton.mp hNew']
  · intro r hMem
    show r.id < s.data.nextId + 1
    rcases List.mem_append.mp hMem with hOld | hNew
    · have hBelow := hTracks.below r hOld
      omega
    · rw [List.mem_singleton.mp hNew]
      exact Int.lt_succ _

theorem Tracks.unregister (hTracks : Tracks s) :
    Tracks ⟨(s.data.unregister id).1, without s.live id⟩ := by
  refine ⟨?_, ?_, ?_⟩
  · intro id' t
    unfold RegistryData.unregister
    cases hFound : s.data.idToName[id]? with
    | none =>
        have hNone := hTracks.idToName_eq_none.mp hFound
        simp only [hTracks.idToName, mem_without]
        constructor
        · rintro ⟨r, hMem, hAt⟩
          exact ⟨r, ⟨hMem, hNone r hMem⟩, hAt⟩
        · rintro ⟨r, ⟨hMem, _⟩, hAt⟩
          exact ⟨r, hMem, hAt⟩
    | some typeName =>
        simp only [mem_without]
        by_cases hId : id = id'
        · subst hId
          rw [OrderedMap.getElem?_erase_self]
          simp only [reduceCtorEq, false_iff]
          rintro ⟨r, ⟨_, hNe⟩, hAt, _⟩
          exact hNe hAt
        · rw [OrderedMap.getElem?_erase_of_ne hId, hTracks.idToName]
          constructor
          · rintro ⟨r, hMem, hAt, hType⟩
            exact ⟨r, ⟨hMem, fun hEq => hId (hEq.symm.trans hAt)⟩, hAt, hType⟩
          · rintro ⟨r, ⟨hMem, _⟩, hAt⟩
            exact ⟨r, hMem, hAt⟩
  · intro r hMem r' hMem'
    exact hTracks.distinct r (mem_without.mp hMem).1 r' (mem_without.mp hMem').1
  · intro r hMem
    have hBelow := hTracks.below r (mem_without.mp hMem).1
    have hNext : (s.data.unregister id).1.nextId = s.data.nextId := by
      unfold RegistryData.unregister
      split <;> rfl
    exact hBelow.trans_eq hNext.symm

/-- A registration is the latest one of its type. -/
theorem HoldsLatest.register (hLatest : HoldsLatest s) {data : RegistryData F}
    (hRegister : s.data.register typeName factory = some (data, id)) :
    HoldsLatest ⟨data, s.live ++ [⟨id, typeName, factory⟩]⟩ := by
  unfold RegistryData.register at hRegister
  split at hRegister
  · simp at hRegister
  simp only [Option.some.injEq, Prod.mk.injEq] at hRegister
  obtain ⟨rfl, rfl⟩ := hRegister
  intro t
  by_cases hType : typeName = t
  · subst hType
    rw [OrderedMap.getElem?_insert_self, latestFactory_append_self]
  · rw [OrderedMap.getElem?_insert_of_ne hType, latestFactory_append_of_ne hType]
    exact hLatest t

/-- Removing the only registration of its type leaves the factories right. -/
theorem HoldsLatest.unregister (hTracks : Tracks s) (hLatest : HoldsLatest s)
    (hRemovable : Removable (some s) (.unregister id)) :
    HoldsLatest ⟨(s.data.unregister id).1, without s.live id⟩ := by
  intro t
  unfold RegistryData.unregister
  cases hFound : s.data.idToName[id]? with
  | none =>
      have hNone := hTracks.idToName_eq_none.mp hFound
      rw [latestFactory_without fun r hMem _ => hNone r hMem]
      exact hLatest t
  | some typeName =>
      obtain ⟨r, hMem, hId, hType⟩ := (hTracks.idToName id typeName).mp hFound
      have hOnly : ∀ other ∈ s.live, other.typeName = typeName → other.id = id :=
        fun other hOther hSame => hRemovable r hMem hId other hOther (hSame.trans hType.symm)
      show (s.data.factories.erase typeName)[t]? = latestFactory (without s.live id) t
      by_cases hAt : typeName = t
      · subst hAt
        rw [OrderedMap.getElem?_erase_self, latestFactory_without_eq_none hOnly]
      · rw [OrderedMap.getElem?_erase_of_ne hAt, hLatest t, latestFactory_without]
        intro r' hMem' hType' hId'
        have hSame : r' = r := hTracks.distinct r' hMem' r hMem (hId'.trans hId.symm)
        exact hAt (hType.symm.trans (hSame ▸ hType'))

/-! ## Whole runs -/

section

variable {Node Options : Type} {createNode : F → String → Options → Option Node}

/-- With right ids and right factories the maps say what they should. -/
theorem reflects_of_holdsLatest (hTracks : Tracks s) (hLatest : HoldsLatest s) :
    Reflects createNode s := by
  refine ⟨?_, ?_, fun id => hTracks.unregister_iff⟩
  · intro typeName
    rw [RegistryData.isRegistered, RegistryData.getFactory, hLatest typeName]
    exact latestFactory_isSome
  · intro typeName nodeName options
    rw [RegistryData.createByName, RegistryData.getFactory, hLatest typeName]
    cases latestFactory s.live typeName with
    | none => rfl
    | some factory => rfl

/-- The types with a factory are those with a live registration. -/
theorem mem_registeredTypes (hLatest : HoldsLatest s) :
    typeName ∈ s.data.registeredTypes ↔ ∃ r ∈ s.live, r.typeName = typeName := by
  rw [RegistryData.registeredTypes, Std.TreeMap.mem_keys, Std.TreeMap.mem_iff_isSome_getElem?,
    hLatest typeName]
  exact latestFactory_isSome

/-- Creation in a namespace goes by the qualified name. -/
theorem Reflects.createByNameInNamespace (hReflects : Reflects createNode s)
    (ns nodeName : String) (options : Options) :
    s.data.createByNameInNamespace createNode ns typeName nodeName options =
      (latestFactory s.live (if ns.isEmpty then typeName else ns ++ "::" ++ typeName)).bind
        fun f => createNode f nodeName options :=
  hReflects.createByName _ _ _

/-- A removal that leaves the type without its factory while another registration of it
is live is seen at once. -/
theorem removable_of_reflects (hTracks : Tracks s)
    (hReflects : Reflects createNode ⟨(s.data.unregister id).1, without s.live id⟩) :
    Removable (some s) (.unregister id) := by
  intro r hMem hId other hOther hType
  by_contra hNe
  have hFound : s.data.idToName[id]? = some r.typeName :=
    (hTracks.idToName id r.typeName).mpr ⟨r, hMem, hId, rfl⟩
  have hGone : (s.data.unregister id).1.isRegistered r.typeName = false := by
    rw [RegistryData.unregister, hFound, RegistryData.isRegistered, RegistryData.getFactory,
      OrderedMap.getElem?_erase_self]
    rfl
  have hThere : (s.data.unregister id).1.isRegistered r.typeName = true :=
    (hReflects.isRegistered r.typeName).mpr ⟨other, mem_without.mpr ⟨hOther, hNe⟩, hType⟩
  exact absurd hThere (by simp [hGone])

/-- What every run keeps that meets `Removable`. -/
def Kept : Option (Registry F) → Prop
  | none => False
  | some s => Tracks s ∧ HoldsLatest s

theorem kept_init : Kept (some ({} : Registry F)) := by
  refine ⟨⟨?_, ?_, ?_⟩, ?_⟩
  · intro id typeName
    simp
  · intro r hMem
    exact absurd hMem List.not_mem_nil
  · intro r hMem
    exact absurd hMem List.not_mem_nil
  · intro typeName
    simp [latestFactory, ofType]

/-- **Step lemma**: what an allowed call keeps. -/
theorem Kept.step {o : Option (Registry F)} {call : RegistryCall F} (hKept : Kept o)
    (hOk : Removable o call) : Kept (Registry.step o call) := by
  cases o with
  | none => exact hKept.elim
  | some s =>
      obtain ⟨hTracks, hLatest⟩ := hKept
      cases call with
      | register typeName factory =>
          have hSome : (s.data.register typeName factory).isSome := by
            rw [RegistryData.register, if_neg hOk]
            rfl
          obtain ⟨⟨data, id⟩, hRegister⟩ := Option.isSome_iff_exists.mp hSome
          simp only [Registry.step, hRegister, Option.map_some]
          exact ⟨hTracks.register hRegister, hLatest.register hRegister⟩
      | unregister id => exact ⟨hTracks.unregister, hLatest.unregister hTracks hOk⟩

theorem removable_of_reflected {o : Option (Registry F)} {call : RegistryCall F}
    (hKept : Kept o) (hReflected : Reflected createNode (Registry.step o call)) :
    Removable o call := by
  cases o with
  | none => exact hKept.elim
  | some s =>
      cases call with
      | register typeName factory =>
          intro hLast
          simp [Registry.step, RegistryData.register, hLast, Reflected] at hReflected
      | unregister id => exact removable_of_reflects hKept.1 hReflected

/-- **Live registrations**: in every state of a run the maps say what they should exactly
when every call of the run meets `Removable`. -/
theorem registry_reflects_iff (createNode : F → String → Options → Option Node)
    (calls : List (RegistryCall F)) :
    (∀ pre, pre <+: calls → Reflected createNode (pre.foldl Registry.step (some {}))) ↔
      Runs.AllMeet Registry.step Removable (some {}) calls := by
  refine Runs.forall_prefix_iff kept_init ?_ ?_ ?_
  · intro o hKept
    cases o with
    | none => exact hKept.elim
    | some s => exact reflects_of_holdsLatest hKept.1 hKept.2
  · intro o call hKept hReflected
    exact removable_of_reflected hKept hReflected
  · intro o call hKept hOk
    exact hKept.step hOk

/-- Two registrations of one type, and the first one removed: the second one is live and
the type is not registered. -/
theorem unregister_drops_other :
    ¬ ∀ pre, pre <+: [RegistryCall.register "A" 1, .register "A" 2, .unregister 1] →
      Reflected (fun (f : Nat) (_ : String) (_ : Unit) => some f)
        (pre.foldl Registry.step (some {})) := by
  intro hAll
  have hLast := hAll _ (List.prefix_rfl)
  have hLive : (Registration.mk 2 "A" 2) ∈ without
      ([⟨1, "A", 1⟩, ⟨2, "A", 2⟩] : List (Registration Nat)) 1 :=
    mem_without.mpr ⟨by simp, by decide⟩
  have hThere := (hLast.isRegistered "A").mpr ⟨_, hLive, rfl⟩
  exact absurd hThere (by decide +kernel)

end

end

end GraphRuntime.Node
