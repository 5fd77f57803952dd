import AtomrAgents.Org.Projection

set_option autoImplicit false

namespace AtomrAgents

inductive DriftKind where
  | missingCompartment
  | missingRole
  | missingEdge
  deriving DecidableEq

structure Drift where
  kind : DriftKind
  detail : String
  deriving DecidableEq

namespace OrgProjection

-- What of the system of record has no counterpart in the routing organisation.
def missing {α κ : Type} [DecidableEq κ] (kind : DriftKind) (detail : α → String) (key : α → κ) (present : List κ)
    (xs : List α) : List Drift :=
  (xs.filter fun x => key x ∉ present).map fun x => { kind, detail := detail x }

def projectedWalls (org : ProjectedOrg) : List (String × String) :=
  org.units.flatMap fun u => u.compartments.map fun m => (u.id, m.compartment)

def projectedRoutes (org : ProjectedOrg) : List (String × String) :=
  org.units.flatMap fun u => u.roleRoutes.map fun r => (u.id, r)

-- `debug` writes a text as `{:?}` does.
def verify (debug : String → String) (model : CompiledOrgModel) (org : ProjectedOrg) : List Drift :=
  (model.units.flatMap fun unit =>
      missing .missingCompartment
        (fun c => "compartment " ++ debug c ++ " on unit " ++ debug unit.id ++ " has no routing wall")
        (fun c => (unit.id, c)) (projectedWalls org) unit.compartments) ++
    missing .missingRole
      (fun role => "role " ++ debug role.id ++ " (route " ++ debug role.routeLabel ++ ") on unit " ++
        debug role.unitId ++ " is missing from routing org")
      (fun role => (role.unitId, role.routeLabel)) (projectedRoutes org) model.roles ++
    missing .missingEdge
      (fun edge => "reporting edge " ++ debug edge.1 ++ " -> " ++ debug edge.2 ++ " missing from routing edges")
      id org.routingEdges model.edges

def Holds (org : ProjectedOrg) (unitId : String) (wall : CompartmentMapping) : Prop :=
  ∃ u ∈ org.units, u.id = unitId ∧ wall ∈ u.compartments

def Names (org : ProjectedOrg) (unitId : String) (compartment : Compartment) : Prop :=
  ∃ wall, wall.compartment = compartment ∧ Holds org unitId wall

def Named (model : CompiledOrgModel) (org : ProjectedOrg) : Prop :=
  ∀ unit ∈ model.units, ∀ c ∈ unit.compartments, Names org unit.id c

def Routed (model : CompiledOrgModel) (org : ProjectedOrg) : Prop :=
  ∀ role ∈ model.roles, ∃ u ∈ org.units, u.id = role.unitId ∧ role.routeLabel ∈ u.roleRoutes

def Reported (model : CompiledOrgModel) (org : ProjectedOrg) : Prop := ∀ edge ∈ model.edges, edge ∈ org.routingEdges

variable {debug : String → String} {model : CompiledOrgModel} {org expected : ProjectedOrg}

theorem missing_eq_nil {α κ : Type} [DecidableEq κ] {kind : DriftKind} {detail : α → String} {key : α → κ}
    {present : List κ} {xs : List α} : missing kind detail key present xs = [] ↔ ∀ x ∈ xs, key x ∈ present := by
  simp [missing]

theorem mem_projectedWalls {unitId : String} {compartment : Compartment} :
    (unitId, compartment) ∈ projectedWalls org ↔ Names org unitId compartment := by
  simp only [projectedWalls, List.mem_flatMap, List.mem_map, Prod.mk.injEq, Names, Holds]
  constructor
  · rintro ⟨u, member, wall, inside, here, same⟩
    exact ⟨wall, same, u, member, here, inside⟩
  · rintro ⟨wall, same, u, member, here, inside⟩
    exact ⟨u, member, wall, inside, here, same⟩

theorem mem_projectedRoutes {unitId route : String} :
    (unitId, route) ∈ projectedRoutes org ↔ ∃ u ∈ org.units, u.id = unitId ∧ route ∈ u.roleRoutes := by
  simp [projectedRoutes, and_comm]

theorem verify_eq_nil :
    verify debug model org = [] ↔ Named model org ∧ Routed model org ∧ Reported model org := by
  simp [verify, missing_eq_nil, mem_projectedWalls, mem_projectedRoutes, Named, Routed, Reported]

theorem holds_projected {unitId : String} {m : CompartmentMapping} :
    Holds (projected model) unitId m ↔
      ∃ unit ∈ model.units, unit.id = unitId ∧ ∃ c ∈ unit.compartments, wall unitId c = m := by
  simp only [Holds, projected, List.mem_map, exists_exists_and_eq_and, projectedUnit]
  constructor
  · rintro ⟨unit, member, rfl, c, inside, same⟩
    exact ⟨unit, member, rfl, c, inside, same⟩
  · rintro ⟨unit, member, rfl, c, inside, same⟩
    exact ⟨unit, member, rfl, c, inside, same⟩

theorem project_knows (accepted : project model = .ok expected) :
    ∀ role ∈ model.roles, ∃ unit ∈ model.units, unit.id = role.unitId := by
  intro role member
  rw [project] at accepted
  split at accepted
  · cases accepted
  · next known =>
    have home := List.find?_eq_none.mp known role member
    simpa using home

theorem verify_project (accepted : project model = .ok expected) : verify debug model expected = [] := by
  have knows := project_knows accepted
  cases (project_ok accepted).1
  rw [verify_eq_nil]
  refine ⟨?_, ?_, ?_⟩
  · intro unit member c inside
    exact ⟨wall unit.id c, rfl, holds_projected.mpr ⟨unit, member, rfl, c, inside, rfl⟩⟩
  · intro role member
    cases knows role member with
    | intro unit home =>
      refine ⟨projectedUnit model unit, List.mem_map_of_mem home.1, home.2, ?_⟩
      simp only [projectedUnit, routes, List.mem_map, List.mem_filter]
      exact ⟨role, ⟨member, by simp [home.2]⟩, rfl⟩
  · exact fun edge member => member

-- What the gate is for: `org` has all walls of the projection, all routes and all edges of the model.
structure Mirrors (model : CompiledOrgModel) (expected org : ProjectedOrg) : Prop where
  walls : ∀ u ∈ expected.units, ∀ wall ∈ u.compartments, Holds org u.id wall
  routed : Routed model org
  reported : Reported model org

def Walled (model : CompiledOrgModel) (org : ProjectedOrg) : Prop :=
  ∀ unit ∈ model.units, ∀ c ∈ unit.compartments, Holds org unit.id (wall unit.id c)

theorem Walled.named (walled : Walled model org) : Named model org :=
  fun unit member c inside => ⟨wall unit.id c, rfl, walled unit member c inside⟩

theorem mirrors_iff (accepted : project model = .ok expected) :
    Mirrors model expected org ↔ Walled model org ∧ Routed model org ∧ Reported model org := by
  cases (project_ok accepted).1
  constructor
  · intro mirrors
    refine ⟨fun unit member c inside => ?_, mirrors.routed, mirrors.reported⟩
    exact mirrors.walls (projectedUnit model unit) (List.mem_map_of_mem member) _ (List.mem_map_of_mem inside)
  · intro ⟨walled, routed, reported⟩
    refine ⟨fun u member m inside => ?_, routed, reported⟩
    simp only [projected, List.mem_map] at member
    cases member with
    | intro unit declared =>
      cases declared.2
      simp only [projectedUnit, List.mem_map] at inside
      cases inside with
      | intro c compartment =>
        cases compartment.2
        exact walled unit declared.1 c compartment.1

def GateExact (debug : String → String) (model : CompiledOrgModel) (expected org : ProjectedOrg) : Prop :=
  verify debug model expected = [] ∧ (verify debug model org = [] ↔ Mirrors model expected org)

/-- The gate is exact unless a wall is there under its name alone, with another namespace or another policy, and
nothing is missing. -/
theorem gate_iff (debug : String → String) (model : CompiledOrgModel) (expected org : ProjectedOrg)
    (accepted : project model = .ok expected) :
    GateExact debug model expected org ↔
      ¬ Named model org ∨ ¬ Routed model org ∨ ¬ Reported model org ∨ Walled model org := by
  rw [GateExact, mirrors_iff accepted, verify_project accepted, verify_eq_nil]
  have named : Walled model org → Named model org := Walled.named
  tauto

def elsewhere : ProjectedOrg :=
  { projected research with
    units := [
      { projectedUnit research (declare "research" []) with
        compartments := [
          { wall "research" "deal:acme" with memoryNamespace := "compartment/public/lounge" },
          wall "research" "issuer:xyz"] },
      projectedUnit research (declare "firm" [])] }

theorem gate_iff_research : GateExact id research (projected research) (projected research) := by
  apply (gate_iff id research _ _ (by decide)).mpr
  right; right; right
  intro unit member c inside
  exact holds_projected.mpr ⟨unit, member, rfl, c, inside, rfl⟩

-- The wall of `deal:acme` leads to a memory outside the unit.
theorem diverted_unseen :
    ¬ (∀ model expected org, (model.units.map CompiledUnit.id).Nodup → project model = .ok expected →
        GateExact id model expected org) ∧
      verify id research elsewhere = [] ∧ ¬ Holds elsewhere "research" (wall "research" "deal:acme") := by
  have unseen : verify id research elsewhere = [] := by decide
  have diverted : ¬ Holds elsewhere "research" (wall "research" "deal:acme") := by
    intro ⟨u, member, _, inside⟩
    revert inside
    revert u
    decide
  refine ⟨fun exact => ?_, unseen, diverted⟩
  have gate := exact research (projected research) elsewhere (by decide) (by decide)
  exact diverted ((gate.2.mp unseen).walls (projectedUnit research (declare "research" ["deal:acme", "issuer:xyz"]))
    (by decide) (wall "research" "deal:acme") (by decide))

end OrgProjection

end AtomrAgents
