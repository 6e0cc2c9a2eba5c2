import Foton.Brigadier.Node

/-!
# Command node builders

Scoped requirements are applied to a whole tree: a node requires what its route
demands where the route changes, and its executor what the governing scope
demands where the route still leads on to other scopes.
-/

namespace Foton.Brigadier

structure CommandRequirementRoute where
  traversal : CommandRequirement
  execution : CommandRequirement

structure RequirementRouteKey where
  governingScope : Option Nat
  descendantScopes : List Nat
  deriving DecidableEq

structure ActiveRequirementScope where
  index : Nat
  remaining : List Text
  deriving DecidableEq

/-- The serial number of the next allocation, and the routes already made. -/
structure RequirementMemory where
  serial : Nat
  cache : List (RequirementRouteKey × CommandRequirementRoute)

namespace RequirementMemory

def and (memory : RequirementMemory) (first second : CommandRequirement) : CommandRequirement × RequirementMemory :=
  let combined := first.and second memory.serial
  (combined.1, { memory with serial := combined.2 })

end RequirementMemory

namespace CommandTree

variable {S : Type} {R : CommandRuntime S} {Target : Type}

def withLiteralName (node : CommandTree R Target) (name : Text) : Option (CommandTree R Target) :=
  match node.data with
  | .literal _ => some { node with data := .literal name }
  | .argument _ _ => none

/-- `requirement.and(..)` on a whole tree's root. -/
def alsoRequires (node : CommandTree R Target) (requirement : CommandRequirement) (serial : Nat) :
    CommandTree R Target × Nat :=
  let combined := node.requirement.and requirement serial
  ({ node with requirement := combined.1 }, combined.2)

mutual

/-- The number of occurrences of a literal path below a node. -/
def literalPathMatchCount : CommandTree R Target → List Text → Nat
  | _, [] => 0
  | ⟨_, children, _, _, _, _⟩, name :: remaining => childrenMatchCount children name remaining

def childrenMatchCount : List (CommandTree R Target) → Text → List Text → Nat
  | [], _, _ => 0
  | child :: children, name, remaining =>
    (match child.literalName with
      | none => child.literalPathMatchCount (name :: remaining)
      | some literal =>
        if literal ≠ name then 0
        else if remaining = [] then 1
        else child.literalPathMatchCount remaining) +
      childrenMatchCount children name remaining

end

/-! ## Scoped requirements -/

/-- The route of a node with the active scopes `active`. -/
def requirementRoute (inheritedScope : Option Nat) (active : List ActiveRequirementScope) : RequirementRouteKey where
  governingScope := match active.find? fun scope => scope.remaining = [] with
    | none => inheritedScope
    | some scope => some scope.index
  descendantScopes := (active.filter fun scope => scope.remaining ≠ []).map fun scope => scope.index

def childActive (active : List ActiveRequirementScope) (child : CommandTree R Target) : List ActiveRequirementScope :=
  match child.literalName with
  | some literal => active.filterMap fun scope => match scope.remaining with
    | [] => none
    | name :: remaining => if name = literal then some ⟨scope.index, remaining⟩ else none
  | none => active.filter fun scope =>
    scope.remaining ≠ [] && 0 < child.literalPathMatchCount scope.remaining

section
variable (requirementsFor : Option Nat → List Nat → Nat → CommandRequirementRoute × Nat)

def cachedRouteRequirements (route : RequirementRouteKey) (memory : RequirementMemory) :
    CommandRequirementRoute × RequirementMemory :=
  match memory.cache.find? fun entry => entry.1 = route with
  | some (_, requirements) => (requirements, memory)
  | none =>
    let made := requirementsFor route.governingScope route.descendantScopes memory.serial
    (made.1, ⟨made.2, memory.cache ++ [(route, made.1)]⟩)

mutual

def applyScopedRequirementsInner : (tree : CommandTree R Target) → (inheritedScope : Option Nat) →
    (active : List ActiveRequirementScope) → (parentRoute : Option RequirementRouteKey) → RequirementMemory →
    CommandTree R Target × RequirementMemory
  | ⟨data, children, executor, requirement, executionRequirement, redirect⟩, inheritedScope, active, parentRoute,
      memory =>
    let route := requirementRoute inheritedScope active
    let requirements := cachedRouteRequirements requirementsFor route memory
    let traversal := if parentRoute ≠ some route then requirements.2.and requirement requirements.1.traversal
      else (requirement, requirements.2)
    let execution := if route.descendantScopes ≠ [] ∧ executor.isSome then
        traversal.2.and executionRequirement requirements.1.execution
      else (executionRequirement, traversal.2)
    let whole := applyScopedRequirementsChildren children active route execution.2
    (⟨data, whole.1, executor, traversal.1, execution.1, redirect⟩, whole.2)

def applyScopedRequirementsChildren : (children : List (CommandTree R Target)) →
    (active : List ActiveRequirementScope) → (route : RequirementRouteKey) → RequirementMemory →
    List (CommandTree R Target) × RequirementMemory
  | [], _, _, memory => ([], memory)
  | child :: children, active, route, memory =>
    let first := child.applyScopedRequirementsInner route.governingScope (childActive active child) (some route) memory
    let rest := applyScopedRequirementsChildren children active route first.2
    (first.1 :: rest.1, rest.2)

end

def applyScopedRequirements (tree : CommandTree R Target) (scopePaths : List (List Text)) (serial : Nat) :
    CommandTree R Target × Nat :=
  let active := scopePaths.zipIdx.map fun path => ⟨path.2, path.1⟩
  let whole := tree.applyScopedRequirementsInner requirementsFor none active none ⟨serial, []⟩
  (whole.1, whole.2.serial)

end

/-! ## Normalization -/

section
variable [DecidableEq Target]

mutual

def normalize : CommandTree R Target → Except RegistrationErrorKind (CommandTree R Target)
  | ⟨data, children, executor, requirement, executionRequirement, redirect⟩ => do
    let children ← normalizeChildren children []
    if redirect.isSome ∧ children ≠ [] then .error (.redirectWithChildren data.name)
    else .ok ⟨data, children, executor, requirement, executionRequirement, redirect⟩

def normalizeChildren : (children nodes : List (CommandTree R Target)) →
    Except RegistrationErrorKind (List (CommandTree R Target))
  | [], nodes => .ok nodes
  | child :: children, nodes => do
    let child ← child.normalize
    let nodes ← mergeOrPush child.mergeInto child nodes
    normalizeChildren children nodes

end

end

end CommandTree

end Foton.Brigadier
