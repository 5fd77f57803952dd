import AtomrAgents.Core.Text
import AtomrAgents.Security.Walled
import AtomrAgents.Strategy.Policy

set_option autoImplicit false

namespace AtomrAgents

structure CompiledUnit where
  id : String
  label : String
  parent : Option String
  compartments : List Compartment

structure CompiledRole where
  id : String
  label : String
  unitId : String
  routeLabel : String

structure CompiledOrgModel where
  units : List CompiledUnit
  roles : List CompiledRole
  edges : List (String × String)

structure CompartmentMapping where
  compartment : Compartment
  memoryNamespace : String
  policy : Policy
  deriving DecidableEq

structure WallSyncReport where
  mapped : List Compartment
  unmapped : List Compartment
  deriving DecidableEq

structure ProjectedUnit where
  id : String
  label : String
  parent : Option String
  roleRoutes : List String
  compartments : List CompartmentMapping
  deriving DecidableEq

structure ProjectedOrg where
  units : List ProjectedUnit
  routingEdges : List (String × String)
  wallSync : WallSyncReport
  deriving DecidableEq

inductive ProjectionError where
  | unmappedCompartment (compartment : Compartment)
  | unknownRoleUnit (role unit : String)
  | unknownEdgeUnit (source target : String)
  deriving DecidableEq

namespace OrgProjection

def namespaceFor (unitId : String) (compartment : Compartment) : Option String :=
  let name := trim compartment
  if name = "" then none else some ("compartment/" ++ unitId ++ "/" ++ name)

def policyFor (compartment : Compartment) : Policy :=
  let scope := { Policy.default with allowedToolsets := [compartment] }
  scope.narrow scope

def mappings (unitId : String) : List Compartment → Except ProjectionError (List CompartmentMapping)
  | [] => .ok []
  | compartment :: rest =>
    match namespaceFor unitId compartment with
    | none => .error (.unmappedCompartment compartment)
    | some memoryNamespace =>
      match mappings unitId rest with
      | .error e => .error e
      | .ok later =>
        .ok ({ compartment, memoryNamespace, policy := policyFor compartment } :: later)

-- `routes_by_unit`, in the order in which the roles are declared.
def routes (model : CompiledOrgModel) (unitId : String) : List String :=
  (model.roles.filter fun role => role.unitId = unitId).map CompiledRole.routeLabel

def projectUnits (model : CompiledOrgModel) :
    List CompiledUnit → Except ProjectionError (List ProjectedUnit)
  | [] => .ok []
  | unit :: rest =>
    match mappings unit.id unit.compartments with
    | .error e => .error e
    | .ok compartments =>
      match projectUnits model rest with
      | .error e => .error e
      | .ok later =>
        .ok ({ id := unit.id, label := unit.label, parent := unit.parent
               roleRoutes := routes model unit.id, compartments } :: later)

def project (model : CompiledOrgModel) : Except ProjectionError ProjectedOrg :=
  let unitIds := model.units.map CompiledUnit.id
  match model.roles.find? fun role => role.unitId ∉ unitIds with
  | some role => .error (.unknownRoleUnit role.id role.unitId)
  | none =>
    match model.edges.find? fun edge => edge.1 ∉ unitIds ∨ edge.2 ∉ unitIds with
    | some (source, target) => .error (.unknownEdgeUnit source target)
    | none =>
      match projectUnits model model.units with
      | .error e => .error e
      | .ok units =>
        .ok { units, routingEdges := model.edges
              wallSync := { mapped := model.units.flatMap CompiledUnit.compartments, unmapped := [] } }

-- The wall of a compartment that is not blank.
def wall (unitId : String) (compartment : Compartment) : CompartmentMapping where
  compartment := compartment
  memoryNamespace := "compartment/" ++ unitId ++ "/" ++ trim compartment
  policy := policyFor compartment

def projectedUnit (model : CompiledOrgModel) (unit : CompiledUnit) : ProjectedUnit where
  id := unit.id
  label := unit.label
  parent := unit.parent
  roleRoutes := routes model unit.id
  compartments := unit.compartments.map (wall unit.id)

def projected (model : CompiledOrgModel) : ProjectedOrg where
  units := model.units.map (projectedUnit model)
  routingEdges := model.edges
  wallSync := { mapped := model.units.flatMap CompiledUnit.compartments, unmapped := [] }

variable {model : CompiledOrgModel} {unitId : String}

theorem namespaceFor_eq_some {compartment : Compartment} {memoryNamespace : String} :
    namespaceFor unitId compartment = some memoryNamespace ↔
      trim compartment ≠ "" ∧ memoryNamespace = (wall unitId compartment).memoryNamespace := by
  by_cases blank : trim compartment = "" <;> simp [namespaceFor, wall, blank, eq_comm]

theorem mappings_ok {compartments : List Compartment} {walls : List CompartmentMapping}
    (mapped : mappings unitId compartments = .ok walls) :
    walls = compartments.map (wall unitId) ∧ ∀ c ∈ compartments, trim c ≠ "" := by
  induction compartments generalizing walls with
  | nil =>
    cases mapped
    exact ⟨rfl, by simp⟩
  | cons compartment rest ih =>
    rw [mappings] at mapped
    split at mapped
    · cases mapped
    · next memoryNamespace named =>
      obtain ⟨visible, rfl⟩ := namespaceFor_eq_some.mp named
      split at mapped
      · cases mapped
      · next later tail =>
        cases mapped
        obtain ⟨rfl, others⟩ := ih tail
        refine ⟨rfl, fun c member => ?_⟩
        rcases List.mem_cons.mp member with rfl | inside
        · exact visible
        · exact others c inside

theorem projectUnits_ok {declared : List CompiledUnit} {units : List ProjectedUnit}
    (projected : projectUnits model declared = .ok units) :
    units = declared.map (projectedUnit model) ∧
      ∀ unit ∈ declared, ∀ c ∈ unit.compartments, trim c ≠ "" := by
  induction declared generalizing units with
  | nil =>
    cases projected
    exact ⟨rfl, by simp⟩
  | cons unit rest ih =>
    rw [projectUnits] at projected
    split at projected
    · cases projected
    · next walls mapped =>
      obtain ⟨rfl, visible⟩ := mappings_ok mapped
      split at projected
      · cases projected
      · next later tail =>
        cases projected
        obtain ⟨rfl, others⟩ := ih tail
        refine ⟨rfl, fun u member => ?_⟩
        rcases List.mem_cons.mp member with rfl | inside
        · exact visible
        · exact others u inside

theorem project_ok {org : ProjectedOrg} (accepted : project model = .ok org) :
    org = projected model ∧ ∀ unit ∈ model.units, ∀ c ∈ unit.compartments, trim c ≠ "" := by
  rw [project] at accepted
  split at accepted
  · cases accepted
  split at accepted
  · cases accepted
  split at accepted
  · cases accepted
  · next units projected =>
    cases accepted
    obtain ⟨rfl, visible⟩ := projectUnits_ok projected
    exact ⟨rfl, visible⟩

@[simp] theorem policyFor_allowedToolsets (compartment : Compartment) :
    (policyFor compartment).allowedToolsets = [compartment] := by
  simp [policyFor, Policy.narrow, narrowGrants]

structure Separated (org : ProjectedOrg) : Prop where
  apart : ∀ u ∈ org.units, ∀ m ∈ u.compartments, ∀ u' ∈ org.units, ∀ m' ∈ u'.compartments,
    (u.id, m.compartment) ≠ (u'.id, m'.compartment) → m.memoryNamespace ≠ m'.memoryNamespace
  granted : ∀ u ∈ org.units, ∀ m ∈ u.compartments,
    m.policy.allowedToolsets = [m.compartment] ∧
      namespaceFor u.id m.compartment = some m.memoryNamespace

-- No two compartments of a unit differ in the blanks around them only, and no unit id goes on
-- where another one ends with what the first compartment starts with.
def Distinct (model : CompiledOrgModel) : Prop :=
  ∀ u ∈ model.units, ∀ c ∈ u.compartments, ∀ u' ∈ model.units, ∀ c' ∈ u'.compartments,
    (u.id = u'.id → trim c = trim c' → c = c') ∧
      ∀ w, u'.id = u.id ++ "/" ++ w → trim c ≠ w ++ "/" ++ trim c'

theorem join_longer {u u' n n' : String} {middle : List Char}
    (longer : u'.toList = u.toList ++ middle)
    (rest : '/' :: n.toList = middle ++ '/' :: n'.toList) :
    u = u' ∧ n = n' ∨ ∃ w, u' = u ++ "/" ++ w ∧ n = w ++ "/" ++ n' := by
  cases middle with
  | nil =>
    refine .inl ⟨?_, ?_⟩
    · simpa [String.toList_inj, eq_comm] using longer
    · simpa [String.toList_inj] using rest
  | cons c w =>
    rw [List.cons_append, List.cons.injEq] at rest
    obtain ⟨rfl, rest⟩ := rest
    refine .inr ⟨String.ofList w, ?_, ?_⟩
    · simp [← String.toList_inj, longer]
    · simp [← String.toList_inj, rest]

theorem join_eq_iff (u u' n n' : String) :
    u ++ "/" ++ n = u' ++ "/" ++ n' ↔
      u = u' ∧ n = n' ∨ (∃ w, u' = u ++ "/" ++ w ∧ n = w ++ "/" ++ n') ∨
        ∃ w, u = u' ++ "/" ++ w ∧ n' = w ++ "/" ++ n := by
  constructor
  · intro same
    have chars : u.toList ++ '/' :: n.toList = u'.toList ++ '/' :: n'.toList := by
      simpa [← String.toList_inj] using same
    rcases List.append_eq_append_iff.mp chars with ⟨middle, longer, rest⟩ | ⟨middle, longer, rest⟩
    · exact (join_longer longer rest).imp_right .inl
    · rcases join_longer longer rest with ⟨unit, name⟩ | split
      · exact .inl ⟨unit.symm, name.symm⟩
      · exact .inr (.inr split)
  · rintro (⟨rfl, rfl⟩ | ⟨w, rfl, rfl⟩ | ⟨w, rfl, rfl⟩)
    · rfl
    · simp [String.append_assoc]
    · simp [String.append_assoc]

theorem wall_eq_iff (u u' : String) (c c' : Compartment) :
    (wall u c).memoryNamespace = (wall u' c').memoryNamespace ↔
      u ++ "/" ++ trim c = u' ++ "/" ++ trim c' := by
  simp [wall, String.append_assoc, ← String.toList_inj]

/-- The walls of an accepted model keep separate memories exactly when its names are distinct. -/
theorem walls_separated (model : CompiledOrgModel) (org : ProjectedOrg)
    (accepted : project model = .ok org) : Separated org ↔ Distinct model := by
  obtain ⟨rfl, visible⟩ := project_ok accepted
  constructor
  · intro separated u member c compartment u' member' c' compartment'
    have apart := separated.apart (projectedUnit model u) (List.mem_map_of_mem member)
      (wall u.id c) (List.mem_map_of_mem compartment) (projectedUnit model u')
      (List.mem_map_of_mem member') (wall u'.id c') (List.mem_map_of_mem compartment')
    rw [Ne, Ne, wall_eq_iff, join_eq_iff] at apart
    constructor
    · intro unit trimmed
      by_contra differ
      exact apart (fun same => differ (Prod.mk.inj same).2) (.inl ⟨unit, trimmed⟩)
    · intro w longer trimmed
      refine apart (fun same => ?_) (.inr (.inl ⟨w, longer, trimmed⟩))
      have ids : u.id = u'.id := (Prod.mk.inj same).1
      have lengths := congrArg String.length (ids.trans longer)
      simp only [String.length_append] at lengths
      have : "/".length = 1 := rfl
      omega
  · intro distinct
    constructor
    · intro u member m mapping u' member' m' mapping' differ
      obtain ⟨d, declared, rfl⟩ := List.mem_map.mp member
      obtain ⟨d', declared', rfl⟩ := List.mem_map.mp member'
      obtain ⟨c, compartment, rfl⟩ := List.mem_map.mp mapping
      obtain ⟨c', compartment', rfl⟩ := List.mem_map.mp mapping'
      have here := distinct d declared c compartment d' declared' c' compartment'
      have there := distinct d' declared' c' compartment' d declared c compartment
      rw [Ne, wall_eq_iff, join_eq_iff]
      rintro (⟨unit, trimmed⟩ | ⟨w, longer, trimmed⟩ | ⟨w, longer, trimmed⟩)
      · exact differ (Prod.ext unit (here.1 unit trimmed))
      · exact here.2 w longer trimmed
      · exact there.2 w longer trimmed
    · intro u member m mapping
      obtain ⟨d, declared, rfl⟩ := List.mem_map.mp member
      obtain ⟨c, compartment, rfl⟩ := List.mem_map.mp mapping
      exact ⟨policyFor_allowedToolsets c,
        namespaceFor_eq_some.mpr ⟨visible d declared c compartment, rfl⟩⟩

def declare (id : String) (compartments : List Compartment) : CompiledUnit :=
  { id, label := id, parent := none, compartments }

def research : CompiledOrgModel :=
  { units := [declare "research" ["deal:acme", "issuer:xyz"], declare "firm" []]
    roles := [], edges := [("research", "firm")] }

def desks : CompiledOrgModel :=
  { units := [declare "desk" ["credit/eu"], declare "desk/credit" ["eu"]], roles := [], edges := [] }

theorem walls_separated_research : Separated (projected research) ↔ Distinct research :=
  walls_separated research (projected research) (by decide)

-- The walls of `credit/eu` on `desk` and of `eu` on `desk/credit` share a memory.
theorem walls_separated_fails :
    project desks = .ok (projected desks) ∧ ¬ Separated (projected desks) := by
  refine ⟨by decide, fun separated => ?_⟩
  have apart := separated.apart (projectedUnit desks (declare "desk" ["credit/eu"])) (by decide)
    (wall "desk" "credit/eu") (by decide) (projectedUnit desks (declare "desk/credit" ["eu"]))
    (by decide) (wall "desk/credit" "eu") (by decide) (by decide)
  exact apart (by decide)

end OrgProjection

end AtomrAgents
