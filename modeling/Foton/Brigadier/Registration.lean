import Foton.Brigadier.Dispatcher

/-!
# Command registration

Declarations are collected and validated, then every command's tree gets its
requirements and is registered under the names the command owns.
-/

namespace Foton.Brigadier

structure Identifier where
  nameSpace : Text
  path : Text
  deriving DecidableEq

namespace Identifier

def validNamespaceChar (c : Char) : Bool := c = '_' || c = '-' || c.isLower || c.isDigit || c = '.'

def validChar (c : Char) : Bool := validNamespaceChar c || c = '/'

def validate (nameSpace path : Text) : Bool :=
  nameSpace ≠ ['.', '.'] && nameSpace.all validNamespaceChar && path.all validChar

def text (id : Identifier) : Text := id.nameSpace ++ ':' :: id.path

end Identifier

inductive CommandRegistrationError where
  | invalidCommandId (id : Identifier)
  | duplicateCommandId (id : Identifier)
  | duplicateOwnedRoot (id : Identifier) (root : Text)
  | rootMustBeLiteral (id : Identifier)
  | rootDoesNotMatchId (id : Identifier) (root : Text)
  | emptyAlias
  | aliasContainsWhitespace (name : Text)
  | namespacedAlias (name : Text)
  | invalidDerivedPermission (id : Identifier) (source : PermissionKeyError)
  | subcommandPermissionsRequireDerivedRoot (id : Identifier)
  | emptySubcommandPermissionPath (id : Identifier)
  | invalidSubcommandPermissionPath (id : Identifier) (path : Text) (source : PermissionKeyError)
  | duplicateSubcommandPermissionPath (id : Identifier) (path : Text)
  | missingSubcommandPermissionPath (id : Identifier) (path : Text)
  | ambiguousSubcommandPermissionPath (id : Identifier) (path : Text) (matchCount : Nat)
  | unexpectedArgumentRoot
  | invalidGraph (kind : RegistrationErrorKind)
  deriving DecidableEq

/-- `char::is_whitespace`. -/
def isWhitespace (c : Char) : Bool :=
  let n := c.toNat
  (9 ≤ n && n ≤ 13) || n = 0x20 || n = 0x85 || n = 0xA0 || n = 0x1680 || (0x2000 ≤ n && n ≤ 0x200A) || n = 0x2028 ||
    n = 0x2029 || n = 0x202F || n = 0x205F || n = 0x3000

def validateAlias (name : Text) : Except CommandRegistrationError Unit :=
  if name = [] then .error .emptyAlias
  else if name.any isWhitespace then .error (.aliasContainsWhitespace name)
  else if ':' ∈ name then .error (.namespacedAlias name)
  else .ok ()

def displayPermissionPath (path : List Text) : Text := List.intercalate ['.'] path

/-! ## Declarations -/

/-- `factory` is the tree that the command's factory makes. -/
structure CommandRegistration {S : Type} (R : CommandRuntime S) where
  id : Identifier
  aliases : List Text
  permission : Option PermissionExpr
  subcommandPermissions : List (List Text)
  defaultAccess : Bool
  factory : CommandNodeBuilder R

def parseSegment (id : Identifier) (path : List Text) (segment : Text) :
    Except CommandRegistrationError PermissionSegment :=
  (PermissionSegment.parse segment).mapError (.invalidSubcommandPermissionPath id (displayPermissionPath path))

def validateSegments (id : Identifier) (path : List Text) : List Text → Except CommandRegistrationError Unit
  | [] => .ok ()
  | segment :: segments => do
    let _ ← parseSegment id path segment
    validateSegments id path segments

def validatePaths (id : Identifier) : List (List Text) → (permissionPaths : List Text) →
    Except CommandRegistrationError Unit
  | [], _ => .ok ()
  | path :: paths, permissionPaths => do
    if path = [] then .error (.emptySubcommandPermissionPath id)
    else
      validateSegments id path path
      let display := displayPermissionPath path
      if display ∈ permissionPaths then .error (.duplicateSubcommandPermissionPath id display)
      else validatePaths id paths (display :: permissionPaths)

def validateAliases (id : Identifier) : (aliases roots : List Text) → Except CommandRegistrationError Unit
  | [], _ => .ok ()
  | name :: aliases, roots => do
    validateAlias name
    if name ∈ roots then .error (.duplicateOwnedRoot id name) else validateAliases id aliases (name :: roots)

namespace CommandRegistration

variable {S : Type} {R : CommandRuntime S}

def validate (registration : CommandRegistration R) : Except CommandRegistrationError Unit :=
  let id := registration.id
  if id.nameSpace = [] ∨ id.path = [] ∨ ¬Identifier.validate id.nameSpace id.path then .error (.invalidCommandId id)
  else do
    validateAliases id registration.aliases [id.path]
    if registration.permission.isSome ∧ registration.subcommandPermissions ≠ [] then
      .error (.subcommandPermissionsRequireDerivedRoot id)
    else validatePaths id registration.subcommandPermissions []

def roots (registration : CommandRegistration R) : List Text := registration.id.path :: registration.aliases

end CommandRegistration

/-- The declarations collected so far, each of them valid. -/
structure CommandDispatcherBuilder {S : Type} (R : CommandRuntime S) where
  registrations : List (CommandRegistration R)
  valid : ∀ registration ∈ registrations, registration.validate = .ok ()
  ids : (registrations.map CommandRegistration.id).Nodup

/-! ## Requirements of a command -/

def derivedCommandPermissionKey (id : Identifier) : Except CommandRegistrationError PermissionKey :=
  (PermissionKey.parse (id.nameSpace ++ ['.', 'c', 'o', 'm', 'm', 'a', 'n', 'd', '.'] ++ id.path)).mapError
    (.invalidDerivedPermission id)

def derivedSubcommandPermissionFrom (id : Identifier) (path : List Text) : (permission : PermissionKey) →
    (segments : List Text) → Except CommandRegistrationError PermissionKey
  | permission, [] => .ok permission
  | permission, segment :: segments => do
    let segment ← parseSegment id path segment
    let permission ← (permission.child segment).mapError
      (.invalidSubcommandPermissionPath id (displayPermissionPath path))
    derivedSubcommandPermissionFrom id path permission segments

def derivedSubcommandPermission (id : Identifier) (root : PermissionKey) (path : List Text) :
    Except CommandRegistrationError PermissionKey :=
  derivedSubcommandPermissionFrom id path root path

def permissionRequirement (permission : PermissionExpr) (serial : Nat) : CommandRequirement × Nat :=
  (.authorization (.allowed serial permission), serial + 1)

def withAlternatives (permission : PermissionExpr) (alternatives : List PermissionKey) : PermissionExpr :=
  alternatives.foldl (fun permission alternative => permission.bitOr (.key alternative)) permission

def rootPermissionRequirement (root : PermissionExpr) (alternatives : List PermissionKey) (defaultAccess : Bool)
    (serial : Nat) : CommandRequirement × Nat :=
  if defaultAccess then
    let alternatives := if alternatives = [] then none else some (PermissionExpr.any (alternatives.map .key))
    (.contextual (.defaultAccess serial root alternatives), serial + 1)
  else permissionRequirement (withAlternatives root alternatives) serial

def scopedPermissionRequirement (root key : PermissionKey) (alternatives : List PermissionKey) (serial : Nat) :
    CommandRequirement × Nat :=
  permissionRequirement (withAlternatives (.scopedKey root key) alternatives) serial

section
variable {S : Type} {R : CommandRuntime S}

/-- The keys of the declared paths, each of which must lead to one literal. -/
def scopedPermissions (root : CommandNodeBuilder R) (id : Identifier) (derivedRoot : PermissionKey) :
    (paths : List (List Text)) → Except CommandRegistrationError (List PermissionKey)
  | [] => .ok []
  | path :: paths => do
    let permission ← derivedSubcommandPermission id derivedRoot path
    match root.literalPathMatchCount path with
    | 1 => do .ok (permission :: (← scopedPermissions root id derivedRoot paths))
    | 0 => .error (.missingSubcommandPermissionPath id (displayPermissionPath path))
    | matchCount => .error (.ambiguousSubcommandPermissionPath id (displayPermissionPath path) matchCount)

/-- The requirements of a route, made at once; the indices are those of the declared paths. -/
def requirementsFor (derivedRoot : PermissionKey) (keys : List PermissionKey) (rootPermission : PermissionExpr)
    (defaultAccess : Bool) (governingScope : Option Nat) (descendantScopes : List Nat) (serial : Nat) :
    CommandRequirementRoute × Nat :=
  let descendants := descendantScopes.filterMap fun index => keys[index]?
  let require := fun (alternatives : List PermissionKey) (serial : Nat) =>
    match governingScope.bind fun index => keys[index]? with
    | some key => scopedPermissionRequirement derivedRoot key alternatives serial
    | none => rootPermissionRequirement rootPermission alternatives defaultAccess serial
  let traversal := require descendants serial
  let execution := require [] traversal.2
  (⟨traversal.1, execution.1⟩, execution.2)

def applyRegistrationRequirements (root : CommandNodeBuilder R) (id : Identifier) (rootPermission : PermissionExpr)
    (derivedRoot : Option PermissionKey) (subcommandPermissions : List (List Text)) (defaultAccess : Bool)
    (serial : Nat) : Except CommandRegistrationError (CommandNodeBuilder R × Nat) :=
  if subcommandPermissions = [] then
    let requirement := rootPermissionRequirement rootPermission [] defaultAccess serial
    .ok (root.alsoRequires requirement.1 requirement.2)
  else
    match derivedRoot with
    | none => .error (.subcommandPermissionsRequireDerivedRoot id)
    | some derivedRoot => do
      let keys ← scopedPermissions root id derivedRoot subcommandPermissions
      .ok (root.applyScopedRequirements (requirementsFor derivedRoot keys rootPermission defaultAccess)
        subcommandPermissions serial)

/-! ## Building the dispatcher -/

structure ResolvedCommand (R : CommandRuntime S) where
  id : Identifier
  aliases : List Text
  root : CommandNodeBuilder R

def ResolvedCommand.roots (command : ResolvedCommand R) : List Text := command.id.path :: command.aliases

/-- The root's permission, and its key if it is derived from the command's id. -/
def CommandRegistration.rootPermission (registration : CommandRegistration R) :
    Except CommandRegistrationError (PermissionExpr × Option PermissionKey) :=
  match registration.permission with
  | some permission => .ok (permission, none)
  | none => do
    let key ← derivedCommandPermissionKey registration.id
    .ok (.key key, some key)

def CommandRegistration.resolve (registration : CommandRegistration R) (serial : Nat) :
    Except CommandRegistrationError (ResolvedCommand R × Nat) := do
  let permission ← registration.rootPermission
  let made ← applyRegistrationRequirements registration.factory registration.id permission.1 permission.2
    registration.subcommandPermissions registration.defaultAccess serial
  match made.1.literalName with
  | none => .error (.rootMustBeLiteral registration.id)
  | some name =>
    if name ≠ registration.id.path then .error (.rootDoesNotMatchId registration.id name)
    else .ok (⟨registration.id, registration.aliases, made.1⟩, made.2)

def resolveAll : List (CommandRegistration R) → (serial : Nat) →
    Except CommandRegistrationError (List (ResolvedCommand R))
  | [], _ => .ok []
  | registration :: registrations, serial => do
    let resolved ← registration.resolve serial
    .ok (resolved.1 :: (← resolveAll registrations resolved.2))

def registerRenamedRoot (dispatcher : CommandDispatcher R) (root : CommandNodeBuilder R) (name : Text) :
    Except CommandRegistrationError (CommandDispatcher R) :=
  match root.withLiteralName name with
  | none => .error .unexpectedArgumentRoot
  | some renamed => (dispatcher.register renamed).mapError .invalidGraph

/-- Registers the names of a command that no command before it claims. -/
def registerRoots (root : CommandNodeBuilder R) : (names claimed : List Text) → CommandDispatcher R →
    Except CommandRegistrationError (List Text × CommandDispatcher R)
  | [], claimed, dispatcher => .ok (claimed, dispatcher)
  | name :: names, claimed, dispatcher =>
    if name ∈ claimed then registerRoots root names claimed dispatcher
    else do
      let dispatcher ← registerRenamedRoot dispatcher root name
      registerRoots root names (claimed ++ [name]) dispatcher

def registerCommands : (commands : List (ResolvedCommand R)) → (claimed : List Text) → CommandDispatcher R →
    Except CommandRegistrationError (CommandDispatcher R)
  | [], _, dispatcher => .ok dispatcher
  | command :: commands, claimed, dispatcher => do
    let registered ← registerRoots command.root command.roots claimed dispatcher
    registerCommands commands registered.1 registered.2

def claimCount (commands : List (ResolvedCommand R)) (name : Text) : Nat :=
  (commands.flatMap ResolvedCommand.roots).count name

/-- A command whose name is claimed twice is also registered under its id. -/
def registerCollided (counts : Text → Nat) : (commands : List (ResolvedCommand R)) → CommandDispatcher R →
    Except CommandRegistrationError (CommandDispatcher R)
  | [], dispatcher => .ok dispatcher
  | command :: commands, dispatcher =>
    if command.roots.any fun name => 1 < counts name then do
      let dispatcher ← registerRenamedRoot dispatcher command.root command.id.text
      registerCollided counts commands dispatcher
    else registerCollided counts commands dispatcher

namespace CommandDispatcherBuilder

def new : CommandDispatcherBuilder R where
  registrations := []
  valid := by simp
  ids := by simp

def register (builder : CommandDispatcherBuilder R) (registration : CommandRegistration R) :
    Except CommandRegistrationError (CommandDispatcherBuilder R) :=
  match h : registration.validate with
  | .error error => .error error
  | .ok _ =>
    if hid : registration.id ∈ builder.registrations.map CommandRegistration.id then
      .error (.duplicateCommandId registration.id)
    else .ok {
      registrations := builder.registrations ++ [registration]
      valid := by
        simp only [List.mem_append, List.mem_singleton]
        rintro r (hr | rfl)
        · exact builder.valid r hr
        · exact h
      ids := by
        simp only [List.map_append, List.map_cons, List.map_nil]
        exact List.nodup_append.mpr ⟨builder.ids, by simp, by grind⟩ }

def build (builder : CommandDispatcherBuilder R) : Except CommandRegistrationError (CommandDispatcher R) := do
  let resolved ← resolveAll builder.registrations 0
  let dispatcher ← registerCommands resolved [] .new
  registerCollided (claimCount resolved) resolved dispatcher

end CommandDispatcherBuilder

end

end Foton.Brigadier
