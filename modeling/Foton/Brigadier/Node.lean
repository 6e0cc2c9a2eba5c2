import Foton.Brigadier.Permission

/-!
# Command graph nodes

A requirement is a shared closure: two requirements are the same only if they
were allocated at once, so every allocation has its own serial number. A tree of
nodes is a command under construction or a part of the dispatcher; the two
differ in what a redirect may name.
-/

namespace Foton.Brigadier

/-! ## Requirements -/

inductive CommandRequirementKind where
  | authorization
  | context
  deriving DecidableEq

/-- The closures that are allocated for requirements, with what they capture. -/
inductive RequirementPredicate where
  | given (address : Nat)
  | allowed (serial : Nat) (permission : PermissionExpr)
  | defaultAccess (serial : Nat) (root : PermissionExpr) (alternatives : Option PermissionExpr)
  | both (serial : Nat) (first second : RequirementPredicate)
  deriving DecidableEq

def RequirementPredicate.holds {S : Type} [CommandPermissionSource S] (source : S) : RequirementPredicate → Bool
  | given address => CommandPermissionSource.answers address source
  | allowed _ permission => permissionState source permission = some .allow
  | defaultAccess _ root alternatives =>
    permissionState source root ≠ some .deny ||
      alternatives.any fun alternatives => permissionState source alternatives = some .allow
  | both _ first second => first.holds source && second.holds source

structure CommandRequirement where
  predicate : Option RequirementPredicate
  kind : Option CommandRequirementKind
  deriving DecidableEq

namespace CommandRequirement

def allowAll : CommandRequirement where
  predicate := none
  kind := none

def authorization (predicate : RequirementPredicate) : CommandRequirement where
  predicate := some predicate
  kind := some .authorization

def contextual (predicate : RequirementPredicate) : CommandRequirement where
  predicate := some predicate
  kind := some .context

/-- The conjunction, and the next serial number. -/
def and (first second : CommandRequirement) (serial : Nat) : CommandRequirement × Nat :=
  let kind := match first.kind, second.kind with
    | some .authorization, _ | _, some .authorization => some .authorization
    | some .context, _ | _, some .context => some .context
    | none, none => none
  match first.predicate, second.predicate with
  | none, none => (⟨none, kind⟩, serial)
  | some predicate, none | none, some predicate => (⟨some predicate, kind⟩, serial)
  | some p, some q => (⟨some (.both serial p q), kind⟩, serial + 1)

/-- The kinds are equal and `Arc::ptr_eq` holds of the predicates. -/
def isCompatibleWith (first second : CommandRequirement) : Bool :=
  first.kind = second.kind && first.predicate = second.predicate

section
variable {S : Type} [CommandPermissionSource S]

def allows (requirement : CommandRequirement) (source : S) : Bool :=
  requirement.predicate.all fun predicate => predicate.holds source

@[simp] theorem allowAll_allows (source : S) : allowAll.allows source = true := rfl

@[simp] theorem and_allows (first second : CommandRequirement) (serial : Nat) (source : S) :
    (first.and second serial).1.allows source = (first.allows source && second.allows source) := by
  obtain ⟨p, _⟩ := first
  obtain ⟨q, _⟩ := second
  cases p with
  | none => cases q <;> simp [and, allows]
  | some p => cases q <;> simp [and, allows, RequirementPredicate.holds]

end

end CommandRequirement

/-! ## Nodes -/

/-- The parts of a command runtime that a parse goes through. An argument is
parsed from the text that is left, and says how much of it it took. -/
structure CommandRuntime (S : Type) where
  Argument : Type
  Executor : Type
  Modifier : Type
  ArgumentValue : Type
  [decEqArgument : DecidableEq Argument]
  [decEqModifier : DecidableEq Modifier]
  parse : Argument → Text → S → Except Text (ArgumentValue × Nat)

attribute [instance] CommandRuntime.decEqArgument CommandRuntime.decEqModifier

inductive NodeKind where
  | root
  | literal
  | argument
  deriving DecidableEq

inductive CommandNodeData (A : Type) where
  | literal (name : Text)
  | argument (name : Text) (argumentType : A)

namespace CommandNodeData

variable {A : Type}

def name : CommandNodeData A → Text
  | literal name => name
  | argument name _ => name

def kind : CommandNodeData A → NodeKind
  | literal _ => .literal
  | argument _ _ => .argument

/-- The literals a node adds to the path of its route. -/
def literals : CommandNodeData A → List Text
  | literal name => [name]
  | argument _ _ => []

end CommandNodeData

/-- What a tree may redirect to. The factory of a command is handed the root of
the dispatcher it is registered in, and cannot make the id of another node. -/
inductive CommandRedirectTarget where
  | dispatcherRoot
  | otherDispatcher
  | commandRoot
  deriving DecidableEq

/-- A node of the dispatcher, by the names on the way to it from the root. -/
abbrev NodeId := List Text

structure CommandRedirect (M Target : Type) where
  target : Target
  modifier : Option M
  forks : Bool
  deriving DecidableEq

structure CommandTree {S : Type} (R : CommandRuntime S) (Target : Type) where
  data : CommandNodeData R.Argument
  children : List (CommandTree R Target)
  executor : Option R.Executor
  requirement : CommandRequirement
  executionRequirement : CommandRequirement
  redirect : Option (CommandRedirect R.Modifier Target)

abbrev CommandNodeBuilder {S : Type} (R : CommandRuntime S) := CommandTree R CommandRedirectTarget

abbrev UnregisteredCommandNode {S : Type} (R : CommandRuntime S) := CommandTree R CommandRedirectTarget

abbrev CommandNode {S : Type} (R : CommandRuntime S) := CommandTree R NodeId

inductive RegistrationErrorKind where
  | argumentRoot
  | nodeKindCollision (name : Text) (existing incoming : NodeKind)
  | argumentTypeCollision (name : Text)
  | requirementCollision (name : Text)
  | redirectCollision (name : Text)
  | redirectWithChildren (name : Text)
  | invalidRedirectTarget
  deriving DecidableEq

namespace CommandNodeData

def collisionWith {A : Type} [DecidableEq A] (first second : CommandNodeData A) : Option RegistrationErrorKind :=
  match first, second with
  | literal a, literal b =>
    if a = b then none else some (.nodeKindCollision b .literal .literal)
  | argument a s, argument b t =>
    if a = b ∧ s = t then none
    else if a = b then some (.argumentTypeCollision b)
    else some (.nodeKindCollision b .argument .argument)
  | first, second => some (.nodeKindCollision second.name first.kind second.kind)

theorem eq_of_collisionWith {A : Type} [DecidableEq A] {first second : CommandNodeData A}
    (h : first.collisionWith second = none) : first = second := by
  cases first with
  | literal a =>
    cases second with
    | literal b => simp only [collisionWith, ite_eq_left_iff] at h; grind
    | argument b t => simp [collisionWith] at h
  | argument a s =>
    cases second with
    | literal b => simp [collisionWith] at h
    | argument b t => simp only [collisionWith] at h; grind

end CommandNodeData

namespace CommandTree

variable {S : Type} {R : CommandRuntime S} {Target : Type}

def name (node : CommandTree R Target) : Text := node.data.name

def literalName (node : CommandTree R Target) : Option Text :=
  match node.data with
  | .literal name => some name
  | .argument _ _ => none

theorem induct {motive : CommandTree R Target → Prop}
    (node : ∀ node, (∀ child ∈ node.children, motive child) → motive node) (tree : CommandTree R Target) :
    motive tree := by
  apply CommandTree.rec (motive_1 := motive) (motive_2 := fun children => ∀ child ∈ children, motive child)
  · intro data children executor requirement executionRequirement redirect ih
    exact node _ ih
  · intro child hchild
    cases hchild
  · intro child children hchild hchildren
    exact List.forall_mem_cons.mpr ⟨hchild, hchildren⟩

/-! ## Merging -/

section
variable [DecidableEq Target]

def validateCompatible (existing incoming : CommandTree R Target) : Except RegistrationErrorKind Unit :=
  match existing.data.collisionWith incoming.data with
  | some kind => .error kind
  | none =>
    if ¬existing.requirement.isCompatibleWith incoming.requirement then
      .error (.requirementCollision incoming.name)
    else if ¬existing.executionRequirement.isCompatibleWith incoming.executionRequirement then
      .error (.requirementCollision incoming.name)
    else if existing.redirect ≠ incoming.redirect then .error (.redirectCollision incoming.name)
    else .ok ()

/-- Merges `incoming` into the first node of its name, or adds it at the end. -/
def mergeOrPush (mergeInto : CommandTree R Target → Except RegistrationErrorKind (CommandTree R Target))
    (incoming : CommandTree R Target) :
    List (CommandTree R Target) → Except RegistrationErrorKind (List (CommandTree R Target))
  | [] => .ok [incoming]
  | node :: nodes =>
    if node.name = incoming.name then do .ok ((← mergeInto node) :: nodes)
    else do .ok (node :: (← mergeOrPush mergeInto incoming nodes))

mutual

/-- `existing.merge(incoming)`. -/
def mergeInto : (incoming existing : CommandTree R Target) → Except RegistrationErrorKind (CommandTree R Target)
  | ⟨data, children, executor, requirement, executionRequirement, redirect⟩, existing => do
    existing.validateCompatible ⟨data, children, executor, requirement, executionRequirement, redirect⟩
    let children ← mergeChildren children existing.children
    .ok { existing with executor := executor <|> existing.executor, children := children }

def mergeChildren : (incoming nodes : List (CommandTree R Target)) →
    Except RegistrationErrorKind (List (CommandTree R Target))
  | [], nodes => .ok nodes
  | child :: incoming, nodes => do
    let nodes ← mergeOrPush child.mergeInto child nodes
    mergeChildren incoming nodes

end

end

end CommandTree

end Foton.Brigadier
