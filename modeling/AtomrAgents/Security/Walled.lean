import AtomrAgents.Tool.Tool
import Mathlib.Data.List.Basic

set_option autoImplicit false

namespace AtomrAgents

inductive ClearanceLevel where
  | «public»
  | internal
  | confidential
  | restricted
  | mnpi
  deriving DecidableEq

-- The derived order of the levels.
def ClearanceLevel.rank : ClearanceLevel → Nat
  | .«public» => 0
  | .internal => 1
  | .confidential => 2
  | .restricted => 3
  | .mnpi => 4

abbrev Compartment := String

structure NeedToKnow where
  minLevel : ClearanceLevel
  compartments : List Compartment

structure ClearanceContext where
  subject : String
  level : ClearanceLevel
  compartments : List Compartment
  deriving DecidableEq

namespace ClearanceContext

def holds (clearance : ClearanceContext) (c : Compartment) : Bool := c ∈ clearance.compartments

def permits (clearance : ClearanceContext) (need : NeedToKnow) : Bool :=
  need.minLevel.rank ≤ clearance.level.rank && need.compartments.all clearance.holds

end ClearanceContext

end AtomrAgents

/-! A tool behind a wall runs only for a caller whose clearance meets its need to know, and only if the
mandate, where there is one, lets the call pass. The clearance is read from the extensions of the context. -/

namespace AtomrAgents

inductive SecurityError where
  | accessDenied (message : String)
  | mandateViolation (message : String)
  | unknownCapability (message : String)
  deriving DecidableEq

namespace SecurityError

def toString : SecurityError → String
  | .accessDenied message => "access denied: " ++ message
  | .mandateViolation message => "mandate violation: " ++ message
  | .unknownCapability message => "unknown capability handle: " ++ message

def toAgentError (e : SecurityError) : AgentError := .policyDenied e.toString

end SecurityError

-- The types of extensions: the clearance of the caller, and those of the host.
inductive ExtensionType (κ : Type) where
  | clearanceContext
  | host (id : κ)
  deriving DecidableEq

def ExtensionType.Any {κ : Type} (Host : κ → Type) : ExtensionType κ → Type
  | .clearanceContext => ClearanceContext
  | .host id => Host id

variable (W : Type) {κ : Type} (Host : κ → Type)

abbrev Mandate := W → Value → InvokeCtx (ExtensionType.Any Host) → Except SecurityError Unit

structure WalledTool where
  inner : Tool W (ExtensionType.Any Host)
  need : NeedToKnow
  mandate : Option (Mandate W Host)

variable {W Host}

namespace WalledTool

-- The clearance check; it fails closed.
def deny (tool : WalledTool W Host) (extensions : Extensions (ExtensionType.Any Host)) :
    Option SecurityError :=
  match extensions .clearanceContext with
  | none =>
    some (.accessDenied
      ("tool '" ++ tool.inner.descriptor.name ++ "' requires a clearance context, none attached"))
  | some (clearance : ClearanceContext) =>
    if clearance.permits tool.need then none
    else
      some (.accessDenied ("subject '" ++ clearance.subject ++ "' is not cleared for tool '" ++
        tool.inner.descriptor.name ++ "'"))

def invoke (tool : WalledTool W Host) (w : W) (args : Value)
    (ctx : InvokeCtx (ExtensionType.Any Host)) : Except AgentError Value :=
  match tool.deny ctx.ext with
  | some e => .error e.toAgentError
  | none =>
    match (tool.mandate.map fun check => check w args ctx).getD (.ok ()) with
    | .error e => .error e.toAgentError
    | .ok () => tool.inner.invoke w args ctx

def toTool (tool : WalledTool W Host) : Tool W (ExtensionType.Any Host) :=
  { descriptor := tool.inner.descriptor, invoke := tool.invoke }

theorem deny_eq_none_iff (tool : WalledTool W Host) (extensions : Extensions (ExtensionType.Any Host)) :
    tool.deny extensions = none ↔
      ∃ clearance : ClearanceContext, extensions .clearanceContext = some clearance ∧
        clearance.permits tool.need := by
  rw [deny]
  constructor
  · intro cleared
    cases found : extensions .clearanceContext with
    | none => simp [found] at cleared
    | some clearance => exact ⟨clearance, rfl, by simpa [found] using cleared⟩
  · rintro ⟨clearance, found, permits⟩
    simp [found, permits]

end WalledTool

end AtomrAgents
