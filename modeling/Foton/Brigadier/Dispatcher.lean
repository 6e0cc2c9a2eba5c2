import Foton.Brigadier.Builder
import Mathlib.Algebra.Ring.Nat

/-!
# The command dispatcher

Registered trees hang below the root of the dispatcher. A parse walks down from
the root, follows redirects, and keeps the best of the branches it tries.
-/

namespace Foton.Brigadier

/-! ## Readers and parse contexts -/

def utf16Length (text : Text) : Nat := (text.map fun c => if c.toNat < 65536 then 1 else 2).sum

structure StringReader where
  input : Text
  position : Nat

namespace StringReader

def new (input : Text) : StringReader where
  input := input
  position := 0

def remaining (reader : StringReader) : Text := reader.input.drop reader.position

/-- The cursor in UTF-16 code units. -/
def cursor (reader : StringReader) : Nat := utf16Length (reader.input.take reader.position)

def canRead (reader : StringReader) : Bool := reader.position < reader.input.length

def canReadLength (reader : StringReader) (length : Nat) : Bool := reader.cursor + length ≤ utf16Length reader.input

def peek (reader : StringReader) : Option Char := reader.remaining.head?

def advance (reader : StringReader) (count : Nat) : StringReader :=
  { reader with position := reader.position + count }

def skip (reader : StringReader) : StringReader := if reader.canRead then reader.advance 1 else reader

def tryReadLiteral (reader : StringReader) (literal : Text) : Option StringReader :=
  if literal.isPrefixOf reader.remaining then
    match (reader.remaining.drop literal.length).head? with
    | none => some (reader.advance literal.length)
    | some c => if c ≠ ' ' then none else some (reader.advance literal.length)
  else none

end StringReader

structure StringRange where
  start : Nat
  stop : Nat

def StringRange.encompassing (first second : StringRange) : StringRange where
  start := min first.start second.start
  stop := max first.stop second.stop

inductive CommandSyntaxErrorKind where
  | literalIncorrect (literal : Text)
  | expectedArgumentSeparator
  | argument (text : Text)

structure CommandSyntaxError where
  kind : CommandSyntaxErrorKind
  cursor : Nat

def StringReader.error (reader : StringReader) (kind : CommandSyntaxErrorKind) : CommandSyntaxError where
  kind := kind
  cursor := reader.cursor

structure ParsedCommandContext {S : Type} (R : CommandRuntime S) where
  source : S
  root : NodeId
  arguments : List (Text × StringRange × R.ArgumentValue)
  executor : Option R.Executor
  nodes : List (NodeId × StringRange)
  range : StringRange
  child : Option (ParsedCommandContext R)
  modifier : Option R.Modifier
  forks : Bool

structure ParseResults {S : Type} (R : CommandRuntime S) where
  context : ParsedCommandContext R
  reader : StringReader
  errors : List (NodeId × CommandSyntaxError)

namespace ParsedCommandContext

variable {S : Type} {R : CommandRuntime S}

def new (source : S) (root : NodeId) (start : Nat) : ParsedCommandContext R where
  source := source
  root := root
  arguments := []
  executor := none
  nodes := []
  range := ⟨start, start⟩
  child := none
  modifier := none
  forks := false

def withNode (context : ParsedCommandContext R) (node : NodeId) (range : StringRange)
    (redirect : Option (CommandRedirect R.Modifier NodeId)) : ParsedCommandContext R :=
  { context with
    nodes := context.nodes ++ [(node, range)]
    range := context.range.encompassing range
    modifier := redirect.bind fun redirect => redirect.modifier
    forks := redirect.any fun redirect => redirect.forks }

def withArgument (context : ParsedCommandContext R) (name : Text) (range : StringRange) (val : R.ArgumentValue) :
    ParsedCommandContext R :=
  let arguments :=
    if context.arguments.any fun argument => argument.1 = name then
      context.arguments.map fun argument => if argument.1 = name then (name, range, val) else argument
    else context.arguments ++ [(name, range, val)]
  { context with arguments := arguments }

/-- The contexts of a parse: one for each redirect that was followed, and the first. -/
def segments : ParsedCommandContext R → List (ParsedCommandContext R)
  | ⟨source, root, arguments, executor, nodes, range, child, modifier, forks⟩ =>
    ⟨source, root, arguments, executor, nodes, range, child, modifier, forks⟩ ::
      match child with
      | none => []
      | some child => child.segments

end ParsedCommandContext

/-! ## Registration -/

namespace CommandTree

variable {S : Type} {R : CommandRuntime S}

mutual

def validateRedirects : UnregisteredCommandNode R → Except RegistrationErrorKind Unit
  | ⟨_, children, _, _, _, redirect⟩ =>
    match redirect with
    | some ⟨.otherDispatcher, _, _⟩ => .error .invalidRedirectTarget
    | _ => validateRedirectsChildren children

def validateRedirectsChildren : List (UnregisteredCommandNode R) → Except RegistrationErrorKind Unit
  | [] => .ok ()
  | child :: children => do
    child.validateRedirects
    validateRedirectsChildren children

end

/-- Redirects into other dispatchers do not get here. -/
def resolveTarget (commandRoot : NodeId) : CommandRedirectTarget → NodeId
  | .dispatcherRoot | .otherDispatcher => []
  | .commandRoot => commandRoot

mutual

def resolveCommandRoot (commandRoot : NodeId) : UnregisteredCommandNode R → CommandNode R
  | ⟨data, children, executor, requirement, executionRequirement, redirect⟩ =>
    ⟨data, resolveCommandRootChildren commandRoot children, executor, requirement, executionRequirement,
      redirect.map fun redirect => ⟨resolveTarget commandRoot redirect.target, redirect.modifier, redirect.forks⟩⟩

def resolveCommandRootChildren (commandRoot : NodeId) : List (UnregisteredCommandNode R) → List (CommandNode R)
  | [] => []
  | child :: children => child.resolveCommandRoot commandRoot :: resolveCommandRootChildren commandRoot children

end

def findChild (nodes : List (CommandNode R)) (name : Text) : Option (CommandNode R) :=
  nodes.find? fun node => node.name = name

mutual

/-- `siblings` are the children of the node that `incoming` is merged below. -/
def validateMerge : (incoming : CommandNode R) → (siblings : List (CommandNode R)) → Except RegistrationErrorKind Unit
  | ⟨data, children, executor, requirement, executionRequirement, redirect⟩, siblings =>
    match findChild siblings data.name with
    | none => .ok ()
    | some existing => do
      existing.validateCompatible ⟨data, children, executor, requirement, executionRequirement, redirect⟩
      validateMergeChildren children existing.children

def validateMergeChildren : (incoming siblings : List (CommandNode R)) → Except RegistrationErrorKind Unit
  | [], _ => .ok ()
  | child :: children, siblings => do
    child.validateMerge siblings
    validateMergeChildren children siblings

end

/-- Updates the first node of a name, or adds a new one at the end. -/
def updateOrPush (name : Text) (update : CommandNode R → CommandNode R) (fresh : CommandNode R) :
    List (CommandNode R) → List (CommandNode R)
  | [] => [fresh]
  | node :: nodes =>
    if node.name = name then update node :: nodes else node :: updateOrPush name update fresh nodes

mutual

def applyMerge : (incoming : CommandNode R) → (siblings : List (CommandNode R)) → List (CommandNode R)
  | ⟨data, children, executor, requirement, executionRequirement, redirect⟩, siblings =>
    updateOrPush data.name
      (fun existing => { existing with
        executor := executor <|> existing.executor
        children := applyMergeChildren children existing.children })
      ⟨data, applyMergeChildren children [], executor, requirement, executionRequirement, redirect⟩ siblings

def applyMergeChildren : (incoming siblings : List (CommandNode R)) → List (CommandNode R)
  | [], siblings => siblings
  | child :: children, siblings => applyMergeChildren children (child.applyMerge siblings)

end

end CommandTree

/-- The children of the dispatcher's root, which itself allows every source. -/
structure CommandDispatcher {S : Type} (R : CommandRuntime S) where
  roots : List (CommandNode R)

namespace CommandDispatcher

variable {S : Type} {R : CommandRuntime S}

def new : CommandDispatcher R where
  roots := []

def register (dispatcher : CommandDispatcher R) (builder : CommandNodeBuilder R) :
    Except RegistrationErrorKind (CommandDispatcher R) := do
  let node ← builder.normalize
  if node.data.kind ≠ .literal then .error .argumentRoot
  else
    node.validateRedirects
    let node := node.resolveCommandRoot [node.name]
    node.validateMerge dispatcher.roots
    .ok ⟨node.applyMerge dispatcher.roots⟩

/-- The children below the nodes of a path. -/
def childrenBelow : List (CommandNode R) → NodeId → List (CommandNode R)
  | nodes, [] => nodes
  | nodes, name :: path =>
    match CommandTree.findChild nodes name with
    | none => []
    | some node => childrenBelow node.children path

def children (dispatcher : CommandDispatcher R) (id : NodeId) : List (CommandNode R) :=
  childrenBelow dispatcher.roots id

/-- A node other than the root. -/
def node (dispatcher : CommandDispatcher R) (id : NodeId) : Option (CommandNode R) :=
  id.getLast?.bind fun name => CommandTree.findChild (dispatcher.children id.dropLast) name

/-! ## Parsing -/

def relevantNodes (children : List (CommandNode R)) (reader : StringReader) : List (CommandNode R) :=
  let token := reader.remaining.takeWhile fun c => c ≠ ' '
  match children.find? fun child => child.literalName = some token with
  | some child => [child]
  | none => children.filter fun child => child.literalName = none

def parseNode (id : NodeId) (child : CommandNode R) (reader : StringReader) (context : ParsedCommandContext R) :
    Except CommandSyntaxError (StringReader × ParsedCommandContext R) :=
  match child.data with
  | .literal literal =>
    match reader.tryReadLiteral literal with
    | none => .error (reader.error (.literalIncorrect literal))
    | some after => .ok (after, context.withNode id ⟨reader.cursor, after.cursor⟩ child.redirect)
  | .argument name argumentType =>
    match R.parse argumentType reader.remaining context.source with
    | .error text => .error (reader.error (.argument text))
    | .ok (val, count) =>
      let after := reader.advance count
      let range : StringRange := ⟨reader.cursor, after.cursor⟩
      .ok (after, (context.withArgument name range val).withNode id range child.redirect)

def isBetterParse (candidate current : ParseResults R) : Bool :=
  if !candidate.reader.canRead && current.reader.canRead then true
  else if candidate.reader.canRead && !current.reader.canRead then false
  else candidate.errors.isEmpty && !current.errors.isEmpty

section
variable [CommandPermissionSource S]

/-- The loop of `parse_nodes` over the relevant children; `parse` is `parse_nodes` itself. -/
def parseChildren (parse : NodeId → StringReader → ParsedCommandContext R → Option (ParseResults R)) (parent : NodeId)
    (reader : StringReader) (context : ParsedCommandContext R) :
    (children : List (CommandNode R)) → (errors : List (NodeId × CommandSyntaxError)) →
    (potentials : List (ParseResults R)) → Option (ParseResults R)
  | [], errors, [] => some ⟨context, reader, errors⟩
  | [], _, best :: potentials =>
    some (potentials.foldl (fun best potential => if isBetterParse potential best then potential else best) best)
  | child :: children, errors, potentials =>
    let id := parent ++ [child.name]
    if ¬child.requirement.allows context.source then parseChildren parse parent reader context children errors potentials
    else
      match parseNode id child reader context with
      | .error error => parseChildren parse parent reader context children (errors ++ [(id, error)]) potentials
      | .ok (after, branch) =>
        if after.canRead && after.peek ≠ some ' ' then
          parseChildren parse parent reader context children
            (errors ++ [(id, after.error .expectedArgumentSeparator)]) potentials
        else
          let executor := if child.executionRequirement.allows branch.source then child.executor else none
          let branch := { branch with executor := executor }
          match child.redirect with
          | some redirect =>
            if after.canReadLength 1 then do
              let after := after.skip
              let results ← parse redirect.target after (.new branch.source redirect.target after.cursor)
              some { results with context := { branch with child := some results.context } }
            else parseChildren parse parent reader context children errors (potentials ++ [⟨branch, after, []⟩])
          | none =>
            if after.canReadLength 2 then do
              let results ← parse id after.skip branch
              parseChildren parse parent reader context children errors (potentials ++ [results])
            else parseChildren parse parent reader context children errors (potentials ++ [⟨branch, after, []⟩])

def parseNodes (dispatcher : CommandDispatcher R) : (fuel : Nat) → NodeId → StringReader → ParsedCommandContext R →
    Option (ParseResults R)
  | 0, _, _, _ => none
  | fuel + 1, parent, reader, context =>
    parseChildren (parseNodes dispatcher fuel) parent reader context (relevantNodes (dispatcher.children parent) reader)
      [] []

/-- Every recursive call has read a character, so there are never more calls than characters. -/
def parse (dispatcher : CommandDispatcher R) (input : Text) (source : S) : Option (ParseResults R) :=
  let reader := StringReader.new input
  dispatcher.parseNodes (input.length + 1) [] reader (.new source [] reader.cursor)

end

end CommandDispatcher

/-!
## Positions in UTF-16 code units

Every character takes one or two code units, so positions grow with the
characters before them.
-/

theorem utf16Length_append (first second : Text) : utf16Length (first ++ second) = utf16Length first + utf16Length second := by
  unfold utf16Length
  rw [List.map_append, List.sum_append]

theorem utf16Length_cons (character : Char) (rest : Text) : utf16Length (character :: rest) = utf16Length [character] + utf16Length rest :=
  utf16Length_append [character] rest

theorem utf16Length_singleton_pos (character : Char) : 0 < utf16Length [character] := by
  unfold utf16Length
  rw [List.map_singleton, List.sum_singleton]
  split <;> omega

/-- The position before the character `i`. -/
def positionOf (input : Text) (i : Nat) : Nat := utf16Length (input.take i)

variable {input : Text} {i j : Nat}

theorem positionOf_length (input : Text) : positionOf input input.length = utf16Length input := by
  simp [positionOf]

theorem positionOf_mono (h : i ≤ j) : positionOf input i ≤ positionOf input j := by
  have hsplit : input.take j = input.take i ++ (input.drop i).take (j - i) := by
    rw [← List.take_add, Nat.add_sub_cancel' h]
  unfold positionOf
  rw [hsplit, utf16Length_append]
  exact Nat.le_add_right _ _

theorem positionOf_le (input : Text) (i : Nat) : positionOf input i ≤ utf16Length input := by
  calc positionOf input i ≤ positionOf input i + utf16Length (input.drop i) := Nat.le_add_right _ _
    _ = utf16Length input := by rw [positionOf, ← utf16Length_append, List.take_append_drop]

theorem positionOf_succ (character : Char) (rest : Text) (i : Nat) :
    positionOf (character :: rest) (i + 1) = utf16Length [character] + positionOf rest i := by
  unfold positionOf
  rw [List.take_succ_cons, utf16Length_cons]

end Foton.Brigadier
