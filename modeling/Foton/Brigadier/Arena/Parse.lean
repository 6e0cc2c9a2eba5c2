import Foton.Brigadier.Arena.Dispatcher
import Foton.Brigadier.Dispatcher

/-!
# Parsing in the arena

A parse tries the children of a node with a copy of the reader and of the
context each. A child with a redirect that has more to read returns at once;
otherwise the best of the branches is kept. What an execution runs is the chain
of contexts, one for each redirect.
-/

namespace Foton.Brigadier.Arena

inductive CommandSyntaxErrorKind where
  | literalIncorrect (literal : Text)
  | expectedArgumentSeparator
  | unknownCommand
  | unknownArgument
  | argument (text : Text)

structure CommandSyntaxError where
  kind : CommandSyntaxErrorKind
  cursor : Nat

/-- `reader.error(kind)`. -/
def errorAt (reader : StringReader) (kind : CommandSyntaxErrorKind) : CommandSyntaxError where
  kind := kind
  cursor := reader.cursor

structure ParsedCommandContext {S : Type} (R : CommandRuntime S) where
  source : S
  root : NodeId
  arguments : List (Text × StringRange × R.ArgumentValue)
  executor : Option R.Executor
  nodes : List (NodeId × StringRange)
  range : StringRange
  child : Option (ParsedCommandContext R)
  modifier : Option R.Modifier
  forks : Bool

structure ParseResults {S : Type} (R : CommandRuntime S) where
  context : ParsedCommandContext R
  reader : StringReader
  errors : List (NodeId × CommandSyntaxError)

namespace ParsedCommandContext

variable {S : Type} {R : CommandRuntime S}

def new (source : S) (root : NodeId) (start : Nat) : ParsedCommandContext R where
  source := source
  root := root
  arguments := []
  executor := none
  nodes := []
  range := ⟨start, start⟩
  child := none
  modifier := none
  forks := false

def withNode (context : ParsedCommandContext R) (node : NodeId) (range : StringRange)
    (redirect : Option (CommandRedirect R.Modifier RedirectTarget)) : ParsedCommandContext R :=
  { context with
    nodes := context.nodes ++ [(node, range)]
    range := context.range.encompassing range
    modifier := redirect.bind fun redirect => redirect.modifier
    forks := redirect.any fun redirect => redirect.forks }

def withArgument (context : ParsedCommandContext R) (name : Text) (range : StringRange) (val : R.ArgumentValue) : ParsedCommandContext R :=
  let arguments :=
    if context.arguments.any fun argument => argument.1 = name then
      context.arguments.map fun argument => if argument.1 = name then (name, range, val) else argument
    else context.arguments ++ [(name, range, val)]
  { context with arguments := arguments }

/-- The contexts of the redirects that were followed, from the first. -/
def segments : ParsedCommandContext R → List (ParsedCommandContext R)
  | ⟨source, root, arguments, executor, nodes, range, child, modifier, forks⟩ =>
    ⟨source, root, arguments, executor, nodes, range, child, modifier, forks⟩ ::
      match child with
      | none => []
      | some child => child.segments

/-- `ContextChain::try_flatten`. -/
def tryFlatten (context : ParsedCommandContext R) : Option (List (ParsedCommandContext R)) :=
  match context.segments.getLast? with
  | none => none
  | some last => if last.executor.isNone then none else some context.segments

end ParsedCommandContext

variable {S : Type} {R : CommandRuntime S}

namespace CommandNode

def literalName (node : CommandNode R) : Option Text :=
  match node.data with
  | some (.literal name) => some name
  | _ => none

def isArgument (node : CommandNode R) : Bool :=
  match node.data with
  | some (.argument _ _) => true
  | _ => false

end CommandNode

namespace CommandDispatcher

/-- The children of a node; an index outside the arena is a panic. -/
def childNodes (d : CommandDispatcher R) (parent : NodeId) : Option (List (NodeId × CommandNode R)) :=
  match d.node parent with
  | none => some []
  | some parent => parent.children.mapM fun id => d.nodes[id.index]?.map fun node => (id, node)

/-- The literal that is the next token, else all arguments. -/
def relevantNodes (children : List (NodeId × CommandNode R)) (reader : StringReader) : List (NodeId × CommandNode R) :=
  let token := reader.remaining.takeWhile fun c => c ≠ ' '
  match children.find? fun child => child.2.literalName = some token with
  | some child => [child]
  | none => children.filter fun child => child.2.isArgument

/-- The root is not a child of a node. -/
def parseNode (id : NodeId) (node : CommandNode R) (reader : StringReader) (context : ParsedCommandContext R) :
    Option (Except CommandSyntaxError (StringReader × ParsedCommandContext R)) :=
  match node.data with
  | none => none
  | some (.literal literal) =>
    match reader.tryReadLiteral literal with
    | none => some (.error (errorAt reader (.literalIncorrect literal)))
    | some after => some (.ok (after, context.withNode id ⟨reader.cursor, after.cursor⟩ node.redirect))
  | some (.argument name argumentType) =>
    match R.parse argumentType reader.remaining context.source with
    | .error text => some (.error (errorAt reader (.argument text)))
    | .ok (val, count) =>
      let after := reader.advance count
      let range : StringRange := ⟨reader.cursor, after.cursor⟩
      some (.ok (after, (context.withArgument name range val).withNode id range node.redirect))

def isBetterParse (candidate current : ParseResults R) : Bool :=
  if !candidate.reader.canRead && current.reader.canRead then true
  else if candidate.reader.canRead && !current.reader.canRead then false
  else candidate.errors.isEmpty && !current.errors.isEmpty

/-- What one child of `parse_nodes` comes to. -/
inductive Attempt {S : Type} (R : CommandRuntime S) where
  | denied
  | failed (error : NodeId × CommandSyntaxError)
  | potential (results : ParseResults R)
  | returned (results : ParseResults R)

section
variable [CommandPermissionSource S] (parse : NodeId → StringReader → ParsedCommandContext R → Option (ParseResults R))

/-- The body of the loop of `parse_nodes`; `parse` is `parse_nodes` itself. -/
def parseChild (reader : StringReader) (context : ParsedCommandContext R) (id : NodeId) (child : CommandNode R) : Option (Attempt R) :=
  if ¬child.requirement.allows context.source then some .denied
  else
    match parseNode id child reader context with
    | none => none
    | some (.error error) => some (.failed (id, error))
    | some (.ok (after, branch)) =>
      if after.canRead && after.peek ≠ some ' ' then some (.failed (id, errorAt after .expectedArgumentSeparator))
      else
        let executor := if child.executionRequirement.allows branch.source then child.executor else none
        let branch := { branch with executor := executor }
        match child.redirect with
        | none =>
          if after.canReadLength 2 then (parse id after.skip branch).map .potential
          else some (.potential ⟨branch, after, []⟩)
        | some ⟨.commandRoot, _, _⟩ => none
        | some ⟨.node target, _, _⟩ =>
          if after.canReadLength 1 then
            let after := after.skip
            (parse target after (.new branch.source target after.cursor)).map fun results =>
              .returned { results with context := { branch with child := some results.context } }
          else some (.potential ⟨branch, after, []⟩)

def parseChildren (reader : StringReader) (context : ParsedCommandContext R) : (children : List (NodeId × CommandNode R)) →
    (errors : List (NodeId × CommandSyntaxError)) → (potentials : List (ParseResults R)) → Option (ParseResults R)
  | [], errors, [] => some ⟨context, reader, errors⟩
  | [], _, best :: potentials =>
    some (potentials.foldl (fun best potential => if isBetterParse potential best then potential else best) best)
  | (id, child) :: children, errors, potentials =>
    match parseChild parse reader context id child with
    | none => none
    | some .denied => parseChildren reader context children errors potentials
    | some (.failed error) => parseChildren reader context children (errors ++ [error]) potentials
    | some (.potential results) => parseChildren reader context children errors (potentials ++ [results])
    | some (.returned results) => some results

end

section
variable [CommandPermissionSource S]

def parseNodes (d : CommandDispatcher R) : (fuel : Nat) → NodeId → StringReader → ParsedCommandContext R → Option (ParseResults R)
  | 0, _, _, _ => none
  | fuel + 1, parent, reader, context =>
    match d.childNodes parent with
    | none => none
    | some children => parseChildren (parseNodes d fuel) reader context (relevantNodes children reader) [] []

/-- Every recursive call has read a character, so there are never more calls than characters. -/
def parseReader (d : CommandDispatcher R) (reader : StringReader) (source : S) : Option (ParseResults R) :=
  d.parseNodes (reader.remaining.length + 1) d.root reader (.new source d.root reader.cursor)

def parse (d : CommandDispatcher R) (input : Text) (source : S) : Option (ParseResults R) := d.parseReader (.new input) source

end

def contextChain (d : CommandDispatcher R) (parse : ParseResults R) : Except CommandSyntaxError (List (ParsedCommandContext R)) :=
  if parse.reader.canRead then
    match parse.errors with
    | [(_, error)] => .error error
    | _ =>
      .error (errorAt parse.reader
        (if parse.context.range.start = parse.context.range.stop then .unknownCommand else .unknownArgument))
  else if parse.context.root.dispatcher ≠ d.id then .error (errorAt parse.reader .unknownCommand)
  else
    match parse.context.tryFlatten with
    | none => .error (errorAt parse.reader .unknownCommand)
    | some chain => .ok chain

end CommandDispatcher

end Foton.Brigadier.Arena
