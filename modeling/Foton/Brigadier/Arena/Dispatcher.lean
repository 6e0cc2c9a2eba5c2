import Foton.Brigadier.Builder

/-!
# The node arena of a dispatcher

Nodes name each other by their index. Registering checks a whole tree against
the arena before the first node is pushed; the id of a new root is predicted.
-/

namespace Foton.Brigadier.Arena

@[ext]
structure NodeId where
  dispatcher : Nat
  index : Nat
  deriving DecidableEq

inductive RedirectTarget where
  | node (id : NodeId)
  | commandRoot
  deriving DecidableEq

variable {S : Type} {R : CommandRuntime S}

abbrev UnregisteredCommandNode {S : Type} (R : CommandRuntime S) := CommandTree R RedirectTarget

/-- A node of the arena; only the root has no data. -/
structure CommandNode {S : Type} (R : CommandRuntime S) where
  data : Option (CommandNodeData R.Argument)
  children : List NodeId
  executor : Option R.Executor
  requirement : CommandRequirement
  executionRequirement : CommandRequirement
  redirect : Option (CommandRedirect R.Modifier RedirectTarget)

namespace CommandNode

def root : CommandNode R where
  data := none
  children := []
  executor := none
  requirement := .allowAll
  executionRequirement := .allowAll
  redirect := none

def name (node : CommandNode R) : Text := (node.data.map CommandNodeData.name).getD []

def kind (node : CommandNode R) : NodeKind := (node.data.map CommandNodeData.kind).getD .root

def collisionWith (node : CommandNode R) (incoming : CommandNodeData R.Argument) : Option RegistrationErrorKind :=
  match node.data with
  | none => some (.nodeKindCollision incoming.name .root incoming.kind)
  | some data => data.collisionWith incoming

def validateCompatible (node : CommandNode R) (incoming : UnregisteredCommandNode R) : Except RegistrationErrorKind Unit :=
  match node.collisionWith incoming.data with
  | some kind => .error kind
  | none =>
    if ¬node.requirement.isCompatibleWith incoming.requirement then .error (.requirementCollision incoming.name)
    else if ¬node.executionRequirement.isCompatibleWith incoming.executionRequirement then
      .error (.requirementCollision incoming.name)
    else if node.redirect ≠ incoming.redirect then .error (.redirectCollision incoming.name)
    else .ok ()

end CommandNode

def RedirectTarget.resolveCommandRoot (commandRoot : NodeId) : RedirectTarget → RedirectTarget
  | .commandRoot => .node commandRoot
  | .node id => .node id

mutual

def resolveCommandRoot (commandRoot : NodeId) : UnregisteredCommandNode R → UnregisteredCommandNode R
  | ⟨data, children, executor, requirement, executionRequirement, redirect⟩ =>
    ⟨data, resolveCommandRootChildren commandRoot children, executor, requirement, executionRequirement,
      redirect.map fun redirect => { redirect with target := redirect.target.resolveCommandRoot commandRoot }⟩

def resolveCommandRootChildren (commandRoot : NodeId) : List (UnregisteredCommandNode R) → List (UnregisteredCommandNode R)
  | [] => []
  | child :: children => resolveCommandRoot commandRoot child :: resolveCommandRootChildren commandRoot children

end

structure CommandDispatcher {S : Type} (R : CommandRuntime S) where
  id : Nat
  nodes : List (CommandNode R)

namespace CommandDispatcher

def new (id : Nat) : CommandDispatcher R where
  id := id
  nodes := [.root]

def root (d : CommandDispatcher R) : NodeId := ⟨d.id, 0⟩

def node (d : CommandDispatcher R) (id : NodeId) : Option (CommandNode R) :=
  if id.dispatcher ≠ d.id then none else d.nodes[id.index]?

/-- The name of the node at an index. -/
def hasName (d : CommandDispatcher R) (name : Text) (child : NodeId) : Bool :=
  d.nodes[child.index]?.any fun node => node.name = name

def findChild (d : CommandDispatcher R) (parent : NodeId) (name : Text) : Option NodeId :=
  (d.node parent).bind fun parent => parent.children.find? (d.hasName name)

/-! ## Checks -/

mutual

def validateRedirects (d : CommandDispatcher R) : UnregisteredCommandNode R → Except RegistrationErrorKind Unit
  | ⟨_, children, _, _, _, redirect⟩ =>
    match redirect with
    | some ⟨.node target, _, _⟩ =>
      if (d.node target).isNone then .error .invalidRedirectTarget else validateRedirectsChildren d children
    | _ => validateRedirectsChildren d children

def validateRedirectsChildren (d : CommandDispatcher R) : List (UnregisteredCommandNode R) → Except RegistrationErrorKind Unit
  | [] => .ok ()
  | child :: children =>
    match validateRedirects d child with
    | .error kind => .error kind
    | .ok _ => validateRedirectsChildren d children

end

mutual

def validateMerge (d : CommandDispatcher R) : NodeId → UnregisteredCommandNode R → Except RegistrationErrorKind Unit
  | parent, ⟨data, children, executor, requirement, executionRequirement, redirect⟩ =>
    match d.findChild parent data.name with
    | none => .ok ()
    | some existing =>
      match d.nodes[existing.index]? with
      | none => .ok ()
      | some node =>
        match node.validateCompatible ⟨data, children, executor, requirement, executionRequirement, redirect⟩ with
        | .error kind => .error kind
        | .ok _ => validateMergeChildren d existing children

def validateMergeChildren (d : CommandDispatcher R) : NodeId → List (UnregisteredCommandNode R) → Except RegistrationErrorKind Unit
  | _, [] => .ok ()
  | parent, child :: children =>
    match validateMerge d parent child with
    | .error kind => .error kind
    | .ok _ => validateMergeChildren d parent children

end

/-! ## Merging -/

def modifyNode (d : CommandDispatcher R) (id : NodeId) (f : CommandNode R → CommandNode R) : CommandDispatcher R :=
  { d with nodes := d.nodes.modify id.index f }

def setExecutor (d : CommandDispatcher R) (id : NodeId) (executor : Option R.Executor) : CommandDispatcher R :=
  if executor.isSome then d.modifyNode id fun node => { node with executor := executor } else d

def push (d : CommandDispatcher R) (parent : NodeId) (node : CommandNode R) : CommandDispatcher R :=
  ({ d with nodes := d.nodes ++ [node] } : CommandDispatcher R).modifyNode parent fun p =>
    { p with children := p.children ++ [⟨d.id, d.nodes.length⟩] }

mutual

def applyMerge : UnregisteredCommandNode R → CommandDispatcher R → NodeId → NodeId × CommandDispatcher R
  | ⟨data, children, executor, requirement, executionRequirement, redirect⟩, d, parent =>
    match d.findChild parent data.name with
    | some existing => (existing, applyMergeChildren children (d.setExecutor existing executor) existing)
    | none =>
      let id : NodeId := ⟨d.id, d.nodes.length⟩
      (id, applyMergeChildren children
        (d.push parent ⟨some data, [], executor, requirement, executionRequirement, redirect⟩) id)

def applyMergeChildren : List (UnregisteredCommandNode R) → CommandDispatcher R → NodeId → CommandDispatcher R
  | [], d, _ => d
  | child :: children, d, parent => applyMergeChildren children (applyMerge child d parent).2 parent

end

/-- The result and the dispatcher afterwards. -/
def register (d : CommandDispatcher R) (builder : UnregisteredCommandNode R) :
    Except RegistrationErrorKind NodeId × CommandDispatcher R :=
  match builder.normalize with
  | .error kind => (.error kind, d)
  | .ok node =>
    if node.data.kind ≠ .literal then (.error .argumentRoot, d)
    else
      match d.validateRedirects node with
      | .error kind => (.error kind, d)
      | .ok _ =>
        let commandRoot := (d.findChild d.root node.name).getD ⟨d.id, d.nodes.length⟩
        let node := resolveCommandRoot commandRoot node
        match d.validateMerge d.root node with
        | .error kind => (.error kind, d)
        | .ok _ =>
          let (id, d) := applyMerge node d d.root
          (.ok id, d)

/-- A call of `register` and the dispatcher afterwards. -/
def Registers (d : CommandDispatcher R) (builder : UnregisteredCommandNode R) (d' : CommandDispatcher R) : Prop :=
  (d.register builder).2 = d'

end CommandDispatcher

end Foton.Brigadier.Arena
