import Foton.Brigadier.Owned

/-!
# Scoped permissions cannot be bypassed

A parse ends with an executor only where the governing scope is granted. A scope
that is granted alone opens the way down to it, and no executor beside it.
-/

namespace Foton.Brigadier

open CommandTree

variable {S : Type} [CommandPermissionSource S] {R : CommandRuntime S} {Target : Type}

/-! ## Guarded trees -/

theorem Secure.mono {granted granted' : List Text → S → Prop} (hle : ∀ route source, granted route source → granted' route source)
    (tree : CommandTree R Target) : ∀ {route : List Text} {reached : S → Prop}, Secure granted route reached tree →
      Secure granted' route reached tree := by
  induction tree using induct with
  | node tree ih =>
    rintro route reached ⟨hown, hchildren⟩
    refine .node ?_ fun child hchild => ih child hchild (hchildren child hchild)
    exact fun hexecutor source hreached hallows hexecutes => hle _ _ (hown hexecutor source hreached hallows hexecutes)

/-- Below a node that only those reach who are granted everything, nothing is left to guard. -/
theorem secure_of_reached {granted : List Text → S → Prop} (tree : CommandTree R Target) : ∀ {route : List Text}
    {reached : S → Prop}, (∀ source, reached source → ∀ route, granted route source) →
      Secure granted route reached tree := by
  induction tree using induct with
  | node tree ih =>
    intro route reached hreached
    refine .node (fun _ source h _ _ => hreached source h _) fun child hchild => ?_
    exact ih child hchild fun source h => hreached source h.1

theorem Secure.rename {granted : List Text → S → Prop} {tree : CommandTree R Target} {route : List Text}
    {reached : S → Prop} (h : Secure granted route reached tree) (data : CommandNodeData R.Argument) :
    Secure granted route reached { tree with data := data } := by
  cases h with
  | node hown hchildren => exact .node hown hchildren

/-! ## The declared tree of a command -/

omit [CommandPermissionSource S] in
theorem resolve_eq_ok {registration : CommandRegistration R} {serial serial' : Nat} {command : ResolvedCommand R}
    (h : registration.resolve serial = .ok (command, serial')) :
    ∃ permission, registration.rootPermission = .ok permission ∧
      applyRegistrationRequirements registration.factory registration.id permission.1 permission.2
        registration.subcommandPermissions registration.defaultAccess serial = .ok (command.root, serial') := by
  unfold CommandRegistration.resolve at h
  obtain ⟨permission, hpermission, h⟩ := bind_eq_ok.mp h
  obtain ⟨made, hmade, h⟩ := bind_eq_ok.mp h
  split at h
  · simp at h
  · split at h
    · simp at h
    · cases h
      exact ⟨permission, hpermission, hmade⟩

omit [CommandPermissionSource S] in
theorem rootPermission_derived {registration : CommandRegistration R} {permission : PermissionExpr} {key : PermissionKey}
    (h : registration.rootPermission = .ok (permission, some key)) :
    permission = .key key ∧ derivedCommandPermissionKey registration.id = .ok key := by
  unfold CommandRegistration.rootPermission at h
  split at h
  · simp at h
  · obtain ⟨derived, hderived, h⟩ := bind_eq_ok.mp h
    cases h
    exact ⟨rfl, hderived⟩

/-- A tree with declared scopes, once it has its requirements. -/
structure ScopedCommand (registration : CommandRegistration R) (serial : Nat) (root : CommandNodeBuilder R)
    (rootKey : PermissionKey) (keys : List PermissionKey) : Prop where
  rootPermission : registration.rootPermission = .ok (.key rootKey, some rootKey)
  derived : derivedCommandPermissionKey registration.id = .ok rootKey
  declared : ∀ (index : Nat) (path : List Text), registration.subcommandPermissions[index]? = some path →
    ∃ key, keys[index]? = some key ∧ derivedSubcommandPermission registration.id rootKey path = .ok key
  root : root = (registration.factory.applyScopedRequirements
    (requirementsFor rootKey keys (.key rootKey) registration.defaultAccess) registration.subcommandPermissions serial).1

omit [CommandPermissionSource S] in
theorem scopedCommand_of_resolve {registration : CommandRegistration R} {serial serial' : Nat}
    {command : ResolvedCommand R} (h : registration.resolve serial = .ok (command, serial'))
    (hscopes : registration.subcommandPermissions ≠ []) :
    ∃ rootKey keys, ScopedCommand registration serial command.root rootKey keys := by
  obtain ⟨⟨permission, derivedRoot⟩, hpermission, hroot⟩ := resolve_eq_ok h
  unfold applyRegistrationRequirements at hroot
  rw [if_neg hscopes] at hroot
  split at hroot
  · simp at hroot
  · rename_i rootKey hkey
    dsimp only at hkey
    subst hkey
    obtain ⟨keys, hkeys, hroot⟩ := bind_eq_ok.mp hroot
    obtain ⟨hkey, hderived⟩ := rootPermission_derived hpermission
    subst hkey
    refine ⟨rootKey, keys, hpermission, hderived, scopedPermissions_eq_ok hkeys, ?_⟩
    exact (congrArg Prod.fst (Except.ok.inj hroot)).symm

theorem secure_of_resolve {registration : CommandRegistration R} {serial serial' : Nat} {command : ResolvedCommand R}
    (hvalid : Valid registration) (h : registration.resolve serial = .ok (command, serial')) :
    Secure (fun route (source : S) => Granted registration source (governingScope registration route)) []
      (fun _ => True) command.root := by
  by_cases hscopes : registration.subcommandPermissions = []
  · obtain ⟨permission, hpermission, hroot⟩ := resolve_eq_ok h
    unfold applyRegistrationRequirements at hroot
    rw [if_pos hscopes] at hroot
    have hroot := congrArg Prod.fst (Except.ok.inj hroot)
    dsimp only at hroot
    have hgranted : ∀ source : S, command.root.requirement.allows source →
        ∀ route, Granted registration source (governingScope registration route) := by
      intro source hallows route
      have hnone : governingScope registration route = none := by simp [governingScope, hscopes, deepestPrefix]
      rw [hnone]
      refine ⟨permission, hpermission, ?_⟩
      rw [← hroot] at hallows
      simp only [alsoRequires, CommandRequirement.and_allows, rootPermissionRequirement_allows, Bool.and_eq_true]
        at hallows
      have hallows := hallows.2
      unfold rootAllows at hallows
      split at hallows
      · rename_i hdefault
        simpa [hdefault] using hallows
      · rename_i hdefault
        rw [if_neg hdefault]
        exact of_decide_eq_true hallows
    refine .node (fun _ source _ hallows _ => hgranted source hallows _) fun child _ => ?_
    exact secure_of_reached child fun source hsource route => hgranted source hsource.2 route
  · obtain ⟨rootKey, keys, hscoped⟩ := scopedCommand_of_resolve h hscopes
    rw [hscoped.root]
    have hasks := requirementsFor_asks (S := S) rootKey keys (.key rootKey) registration.defaultAccess
    have hmemory : ∀ traverses executes, RequirementMemory.Asks (S := S) traverses executes ⟨serial, []⟩ := by
      intro traverses executes entry hentry
      simp at hentry
    have hsecure := secure_of_scoped hasks registration.factory (fun _ _ => rfl) (hmemory _ _)
      (tracks_root hvalid.paths registration.factory) (show ∀ (source : S) parent, none = some parent → True → _ by simp)
    apply Secure.mono _ _ hsecure
    rintro route source ⟨governing, hgoverning, hallows⟩
    cases governing with
    | none =>
      have hnone : governingScope registration route = none := hgoverning
      rw [hnone]
      refine ⟨_, hscoped.rootPermission, ?_⟩
      simp only [routeAllows, Option.bind_none, List.filterMap_nil, rootAllows] at hallows
      split at hallows
      · rename_i hdefault
        simpa [hdefault] using hallows
      · rename_i hdefault
        rw [if_neg hdefault]
        exact of_decide_eq_true hallows
    | some index =>
      obtain ⟨path, hpath, hdeepest⟩ := hgoverning
      have hsome : governingScope registration route = some path := hdeepest
      obtain ⟨key, hkey, hderived⟩ := hscoped.declared index path hpath
      rw [hsome]
      refine ⟨rootKey, key, hscoped.derived, hderived, ?_⟩
      simp only [routeAllows, Option.bind_some, hkey] at hallows
      exact of_decide_eq_true hallows

/-! ## Ways down to a scope -/

omit [CommandPermissionSource S] in
theorem matchCount_pos_of_descends {tree target : CommandTree R Target} {below : List (CommandTree R Target)}
    (hbelow : Descends tree below) (htarget : below.getLast? = some target) (hliteral : target.literalName.isSome) :
    0 < tree.literalPathMatchCount (below.flatMap fun node => node.data.literals) := by
  induction below generalizing tree with
  | nil => simp at htarget
  | cons child below ih =>
    obtain ⟨hchild, hbelow⟩ := hbelow
    have hrest : below = [] ∨ 0 < child.literalPathMatchCount (below.flatMap fun node => node.data.literals) := by
      cases below with
      | nil => exact .inl rfl
      | cons next below => exact .inr (ih hbelow (by simpa using htarget))
    cases hdata : child.data with
    | literal name =>
      simp only [List.flatMap_cons, hdata, CommandNodeData.literals, List.singleton_append]
      apply matchCount_pos_of_literal hchild hdata
      exact hrest.imp_left fun h => by simp [h]
    | argument name argumentType =>
      have hnil : child.data.literals = [] := by simp [hdata, CommandNodeData.literals]
      simp only [List.flatMap_cons, hnil, List.nil_append]
      apply matchCount_pos_of_argument hchild hnil
      rcases hrest with rfl | h
      · -- the way would end at an argument
        have : target = child := by simpa using htarget.symm
        simp [this, literalName, hdata] at hliteral
      · exact h

/-- Scoping leaves every way down to a declared path open to those who are granted the path. -/
theorem descends_of_scoped {requirementsFor : Option Nat → List Nat → Nat → CommandRequirementRoute × Nat}
    {traverses : RequirementRouteKey → S → Bool} {executes : Option Nat → S → Bool}
    (hasks : ∀ governing descendants serial,
      Asks traverses executes ⟨governing, descendants⟩ (requirementsFor governing descendants serial).1)
    {paths : List (List Text)} {index : Nat} {source : S}
    (htraverses : ∀ route : RequirementRouteKey, index ∈ route.descendantScopes → traverses route source)
    {remaining : List Text} {above : List (CommandTree R Target)} :
    ∀ {tree : CommandTree R Target} {route : List Text} {inherited : Option Nat} {active : List ActiveRequirementScope}
      (parentRoute : Option RequirementRouteKey) {memory : RequirementMemory},
      RequirementMemory.Asks traverses executes memory → Tracks paths route inherited active tree →
      Descends tree above → paths[index]? = some (route ++ above.flatMap (fun node => node.data.literals) ++ remaining) →
      0 < (above.getLastD tree).literalPathMatchCount remaining → (above.getLastD tree).requirement.allows source →
      ∃ above', Descends (tree.applyScopedRequirementsInner requirementsFor inherited active parentRoute memory).1 above' ∧
        above'.map name = above.map name ∧ (above'.getLastD
          (tree.applyScopedRequirementsInner requirementsFor inherited active parentRoute memory).1).requirement.allows
            source := by
  induction above with
  | nil =>
    intro tree route inherited active parentRoute memory hmemory htracks _ hpath hcount hallows
    obtain ⟨hrequirement, -, -⟩ :=
      applyScopedRequirementsInner_spec hasks tree inherited active parentRoute hmemory
    refine ⟨[], trivial, rfl, ?_⟩
    simp only [List.getLastD_nil] at hcount hallows ⊢
    have hactive := htracks.complete index remaining (by simpa using hpath) hcount
    have hdescendant : index ∈ (requirementRoute inherited active).descendantScopes := by
      refine List.mem_map.mpr ⟨_, List.mem_filter.mpr ⟨hactive, ?_⟩, rfl⟩
      rw [decide_eq_true_eq]
      rintro rfl
      simp at hcount
    rw [hrequirement, hallows, htraverses _ hdescendant]
    simp
  | cons child above ih =>
    intro tree route inherited active parentRoute memory hmemory htracks hdescends hpath hcount hallows
    obtain ⟨hchild, hdescends⟩ := hdescends
    obtain ⟨-, -, memory', hmemory', hchildren⟩ :=
      applyScopedRequirementsInner_spec hasks tree inherited active parentRoute hmemory
    obtain ⟨memory'', hmemory'', hmem⟩ := applyScopedRequirementsChildren_mem hasks
      active (requirementRoute inherited active) hmemory' hchild
    rw [List.getLastD_cons] at hcount hallows
    obtain ⟨above', hdescends', hnames, hallows'⟩ := ih (some (requirementRoute inherited active))
      hmemory'' (htracks.of_child hchild) hdescends (by simpa using hpath) hcount hallows
    refine ⟨_ :: above', ⟨hchildren ▸ hmem, hdescends'⟩, ?_, ?_⟩
    · simp only [List.map_cons, hnames, name, applyScopedRequirementsInner_data]
    · rw [List.getLastD_cons]
      exact hallows'

theorem ancestors_of_resolve {registration : CommandRegistration R} {serial serial' : Nat} {command : ResolvedCommand R}
    (hvalid : Valid registration) (h : registration.resolve serial = .ok (command, serial')) {path : List Text}
    (hpath : path ∈ registration.subcommandPermissions) {rootKey key : PermissionKey} {source : S}
    (hroot : derivedCommandPermissionKey registration.id = .ok rootKey)
    (hkey : derivedSubcommandPermission registration.id rootKey path = .ok key)
    (hallow : permissionState source (.key key) = some .allow) {above below : List (CommandNodeBuilder R)}
    {target : CommandNodeBuilder R} (hdescends : Descends registration.factory above)
    (hbelow : Descends (above.getLastD registration.factory) below) (htarget : below.getLast? = some target)
    (hliteral : target.literalName.isSome)
    (hliterals : (above ++ below).flatMap (fun node => node.data.literals) = path)
    (hown : (above.getLastD registration.factory).requirement.allows source) :
    ∃ above', Descends command.root above' ∧ above'.map name = above.map name ∧
      (above'.getLastD command.root).requirement.allows source := by
  obtain ⟨rootKey', keys, hscoped⟩ := scopedCommand_of_resolve h (List.ne_nil_of_mem hpath)
  have hrootKey : rootKey' = rootKey := Except.ok.inj (hscoped.derived.symm.trans hroot)
  subst hrootKey
  obtain ⟨index, hindex⟩ := List.mem_iff_getElem?.mp hpath
  obtain ⟨key', hkey', hderived⟩ := hscoped.declared index path hindex
  have hsame : key' = key := Except.ok.inj (hderived.symm.trans hkey)
  subst hsame
  rw [hscoped.root]
  have hasks := requirementsFor_asks (S := S) rootKey' keys (.key rootKey') registration.defaultAccess
  have hmemory : ∀ traverses executes, RequirementMemory.Asks (S := S) traverses executes ⟨serial, []⟩ := by
    intro traverses executes entry hentry
    simp at hentry
  rw [List.flatMap_append] at hliterals
  refine descends_of_scoped hasks ?_ none (hmemory _ _) (tracks_root hvalid.paths registration.factory) hdescends
    (by simpa [hliterals] using hindex) (matchCount_pos_of_descends hbelow htarget hliteral) hown
  intro route hmem
  exact routeAllows_of_descendant rootKey' keys registration.defaultAccess hmem hkey' hallow

/-! ## Nodes of the dispatcher -/

/-- The literals on the way from a command's root to a node. -/
def routeBelow : CommandNode R → NodeId → List Text
  | _, [] => []
  | tree, name :: path =>
    match findChild tree.children name with
    | none => []
    | some child => child.data.literals ++ routeBelow child path

def nodeBelow : CommandNode R → NodeId → Option (CommandNode R)
  | tree, [] => some tree
  | tree, name :: path =>
    match findChild tree.children name with
    | none => none
    | some child => nodeBelow child path

/-- The literals of a node and of the nodes above it, up to the root of its command. -/
def CommandDispatcher.route (dispatcher : CommandDispatcher R) : NodeId → List Text
  | [] => []
  | name :: path =>
    match findChild dispatcher.roots name with
    | none => []
    | some root => routeBelow root path

section
omit [CommandPermissionSource S]

theorem nodeBelow_concat (tree : CommandNode R) (path : NodeId) (name : Text) :
    nodeBelow tree (path ++ [name]) = findChild (CommandDispatcher.childrenBelow tree.children path) name := by
  induction path generalizing tree with
  | nil =>
    simp only [List.nil_append, nodeBelow, CommandDispatcher.childrenBelow]
    cases findChild tree.children name <;> rfl
  | cons first path ih =>
    simp only [List.cons_append, nodeBelow, CommandDispatcher.childrenBelow]
    cases findChild tree.children first with
    | none => rfl
    | some child => exact ih child

theorem CommandDispatcher.node_cons (dispatcher : CommandDispatcher R) (name : Text) (path : NodeId) :
    dispatcher.node (name :: path) = (findChild dispatcher.roots name).bind fun root => nodeBelow root path := by
  cases path using List.reverseRecOn with
  | nil =>
    rw [← List.nil_append [name], node_concat]
    simp only [children, childrenBelow, nodeBelow]
    cases findChild dispatcher.roots name <;> rfl
  | append_singleton path last =>
    rw [← List.cons_append, node_concat]
    simp only [children, childrenBelow]
    cases findChild dispatcher.roots name with
    | none => rfl
    | some root => exact (nodeBelow_concat root path last).symm

theorem nodeBelow_of_descends {tree : CommandNode R} {chain : List (CommandNode R)} (hdistinct : Distinct tree)
    (h : Descends tree chain) : nodeBelow tree (chain.map name) = some (chain.getLastD tree) := by
  induction chain generalizing tree with
  | nil => rfl
  | cons child chain ih =>
    obtain ⟨hchild, hchain⟩ := h
    cases hdistinct with
    | node hnames hchildren =>
      rw [List.map_cons, nodeBelow, CommandDispatcher.findChild_of_mem hnames hchild, List.getLastD_cons]
      exact ih (hchildren child hchild) hchain

end

/-- Who gets to a node of a guarded tree and may execute it is granted what it is guarded by. -/
theorem granted_of_admits {granted : List Text → S → Prop} {source : S} {path : NodeId} : ∀ {tree node : CommandNode R}
    {route : List Text} {reached : S → Prop}, Secure granted route reached tree → reached source →
      tree.requirement.allows source → CommandDispatcher.Admits source tree.children path →
      nodeBelow tree path = some node → node.executor.isSome → node.executionRequirement.allows source →
      granted (route ++ routeBelow tree path) source := by
  induction path with
  | nil =>
    rintro tree node route reached ⟨hown, -⟩ hreached hallows - hnode hexecutor hexecutes
    cases hnode
    simpa [routeBelow] using hown hexecutor source hreached hallows hexecutes
  | cons name path ih =>
    rintro tree node route reached ⟨-, hchildren⟩ hreached hallows ⟨child, hfind, hchild, hadmits⟩ hnode hexecutor hexecutes
    simp only [nodeBelow, hfind] at hnode
    simp only [routeBelow, hfind, ← List.append_assoc]
    have hmem := (CommandDispatcher.mem_of_findChild hfind).1
    exact ih (hchildren child hmem) ⟨hreached, hallows⟩ hchild hadmits hnode hexecutor hexecutes

theorem secure_of_isRootOf {registration : CommandRegistration R} {root : CommandNode R} (hvalid : Valid registration)
    (h : IsRootOf registration root) :
    Secure (fun route (source : S) => Granted registration source (governingScope registration route)) []
      (fun _ => True) root := by
  obtain ⟨serial, serial', command, node, hcommand, hnode, hroot⟩ := h
  rw [hroot]
  apply secure_resolveCommandRoot
  exact secure_normalize _ _ _ _ ((secure_of_resolve hvalid hcommand).rename _) hnode

omit [CommandPermissionSource S] in
theorem covers_of_isRootOf {registration : CommandRegistration R} {root : CommandNode R} (h : IsRootOf registration root) :
    ∃ serial serial' command, registration.resolve serial = .ok (command, serial') ∧ Covers command.root root := by
  obtain ⟨serial, serial', command, node, hcommand, hnode, hroot⟩ := h
  refine ⟨serial, serial', command, hcommand, ?_⟩
  have hrename : Covers command.root { command.root with data := .literal root.name } :=
    .node rfl (CoversAll.refl _)
  rw [hroot]
  rw [hroot] at hrename hnode
  exact (hrename.trans (covers_normalize _ _ hnode)).trans (covers_resolveCommandRoot _ _)

/-! ## The built dispatcher -/

/-- A parse ends with an executor only if the governing scope of its node is granted; if a source is granted one scope
only, that is the scope. It still gets to every node above the scope. -/
theorem executors_are_granted {builder : CommandDispatcherBuilder R} {dispatcher : CommandDispatcher R}
    (hbuild : builder.build = .ok dispatcher) :
    (∀ (source : S) (input : Text), ∃ results, dispatcher.parse input source = some results ∧
      ∀ segment ∈ results.context.segments, ∀ executor, segment.executor = some executor →
        ∃ id registration, segment.nodes.getLast?.map Prod.fst = some id ∧
          (dispatcher.node id).bind CommandTree.executor = some executor ∧ registration ∈ builder.registrations ∧
          id.head?.bind (owner builder.registrations) = some registration ∧
          Granted registration source (governingScope registration (dispatcher.route id)) ∧
          ∀ path, (∀ scope, Granted registration source scope → scope = some path) →
            governingScope registration (dispatcher.route id) = some path) ∧
    ∀ (source : S) (registration : CommandRegistration R) (name : Text) (path : List Text) (rootKey key : PermissionKey),
      owner builder.registrations name = some registration → name ∈ dispatcher.roots.map CommandTree.name →
      path ∈ registration.subcommandPermissions → derivedCommandPermissionKey registration.id = .ok rootKey →
      derivedSubcommandPermission registration.id rootKey path = .ok key →
      permissionState source (.key key) = some .allow →
      ∀ (above below : List (CommandNodeBuilder R)) (target : CommandNodeBuilder R),
        Descends registration.factory above → Descends (above.getLastD registration.factory) below →
        below.getLast? = some target → target.literalName.isSome →
        (above ++ below).flatMap (fun node => node.data.literals) = path →
        (above.getLastD registration.factory).requirement.allows source →
        ∃ node, dispatcher.node (name :: above.map CommandTree.name) = some node ∧ node.requirement.allows source := by
  have howned := CommandDispatcherBuilder.build_owned hbuild
  have hvalid : ∀ registration ∈ builder.registrations, Valid registration :=
    fun registration hmem => valid_of_validate (builder.valid registration hmem)
  constructor
  · intro source input
    obtain ⟨results, hresults, hall⟩ := CommandDispatcher.parse_spec howned.wellFormed input source
    refine ⟨results, hresults, fun segment hsegment executor hexecutor => ?_⟩
    obtain ⟨id, node, hlast, hnode, hnodeExecutor, hexecutes, hadmits⟩ := (hall segment hsegment).2 executor hexecutor
    cases id with
    | nil => simp [CommandDispatcher.node] at hnode
    | cons name path =>
      obtain ⟨root, hfind, hallows, hbelow⟩ := hadmits
      obtain ⟨hmem, hname⟩ := CommandDispatcher.mem_of_findChild hfind
      obtain ⟨registration, hregistration, howner, hroot⟩ := howned.roots root hmem
      have hbelowNode : nodeBelow root path = some node := by
        rw [CommandDispatcher.node_cons, hfind] at hnode
        exact hnode
      have hgranted := granted_of_admits (secure_of_isRootOf (hvalid registration hregistration) hroot) trivial hallows
        hbelow hbelowNode (by simp [hnodeExecutor]) hexecutes
      have hroute : dispatcher.route (name :: path) = routeBelow root path := by
        simp only [CommandDispatcher.route, hfind]
      rw [List.nil_append, ← hroute] at hgranted
      refine ⟨name :: path, registration, hlast, by simp [hnode, hnodeExecutor], hregistration, ?_, hgranted, ?_⟩
      · rw [← hname]
        exact howner
      · exact fun only honly => honly _ hgranted
  · intro source registration name path rootKey key howner hname hpath hrootKey hkey hallow above below target habove hbelow
      htarget hliteral hliterals hown
    obtain ⟨root, hmem, rfl⟩ := List.mem_map.mp hname
    obtain ⟨registration', hregistration, howner', hroot⟩ := howned.roots root hmem
    have hsame : registration' = registration := Option.some.inj (howner'.symm.trans howner)
    subst hsame
    obtain ⟨serial, serial', command, hcommand, hcovers⟩ := covers_of_isRootOf hroot
    obtain ⟨chain, hchain, hnames, hallows⟩ := ancestors_of_resolve (hvalid _ hregistration) hcommand hpath hrootKey hkey
      hallow habove hbelow htarget hliteral hliterals hown
    obtain ⟨chain', hchain', hnames', hrequirement⟩ := hcovers chain hchain
    refine ⟨chain'.getLastD root, ?_, ?_⟩
    · rw [CommandDispatcher.node_cons, CommandDispatcher.findChild_of_mem howned.wellFormed.names hmem, ← hnames, ← hnames']
      exact nodeBelow_of_descends (howned.wellFormed.distinct root hmem) hchain'
    · rw [CommandRequirement.allows, hrequirement]
      exact hallows

/-- A player who is granted `m.command.tick.freeze`, and the console. -/
inductive Sender where
  | player
  | console

def freezeKey : Text :=
  ['m', '.', 'c', 'o', 'm', 'm', 'a', 'n', 'd', '.', 't', 'i', 'c', 'k', '.', 'f', 'r', 'e', 'e', 'z', 'e']

def freezeOnly : PermissionSet where
  resolveKeyIn key := if key.text = freezeKey then some .allow else none
  resolveScopedKeyIn _ key := if key.text = freezeKey then some .allow else none

instance : CommandPermissionSource Sender where
  playerPermissions sender := match sender with
    | .player => some freezeOnly
    | .console => none
  answers _ _ := true

def wordRuntime : CommandRuntime Sender where
  Argument := Unit
  Executor := Nat
  Modifier := Unit
  ArgumentValue := Text
  parse _ text _ := .ok (text.takeWhile fun c => c ≠ ' ', (text.takeWhile fun c => c ≠ ' ').length)

def freezeNode : CommandNodeBuilder wordRuntime :=
  ⟨.literal ['f', 'r', 'e', 'e', 'z', 'e'], [], some (1 : Nat), .allowAll, .allowAll, none⟩

def tickNode : CommandNodeBuilder wordRuntime :=
  ⟨.literal ['t', 'i', 'c', 'k'], [freezeNode], some (0 : Nat), .allowAll, .allowAll, none⟩

def tickCommand : CommandRegistration wordRuntime where
  id := ⟨['m'], ['t', 'i', 'c', 'k']⟩
  aliases := []
  permission := none
  subcommandPermissions := [[['f', 'r', 'e', 'e', 'z', 'e']]]
  defaultAccess := false
  factory := tickNode

def tickCommands : CommandDispatcherBuilder wordRuntime where
  registrations := [tickCommand]
  valid := by decide +kernel
  ids := by simp

def tickKey : PermissionKey where
  text := ['m', '.', 'c', 'o', 'm', 'm', 'a', 'n', 'd', '.', 't', 'i', 'c', 'k']
  valid := by decide +kernel

def freezePermission : PermissionKey where
  text := freezeKey
  valid := by decide +kernel

def tickFreeze : Text := ['t', 'i', 'c', 'k', ' ', 'f', 'r', 'e', 'e', 'z', 'e']

/-- The executor that a parse by the player ends with, and the names of the dispatcher. -/
def tickParse : Option (List Text × Nat) :=
  match tickCommands.build with
  | .ok dispatcher =>
    match dispatcher.parse tickFreeze Sender.player with
    | some results => (show Option Nat from results.context.executor).map fun executor =>
        (dispatcher.roots.map CommandTree.name, executor)
    | none => none
  | .error _ => none

/-- The player runs `tick freeze`, which is granted, and gets through `tick` to it. -/
theorem freeze_is_granted : ∃ dispatcher, tickCommands.build = .ok dispatcher ∧
    (∃ results, dispatcher.parse tickFreeze Sender.player = some results ∧
      results.context.executor = some (show wordRuntime.Executor from (1 : Nat)) ∧
        ∃ id registration, registration ∈ tickCommands.registrations ∧
          Granted registration Sender.player (governingScope registration (dispatcher.route id))) ∧
    ∃ node, dispatcher.node [['t', 'i', 'c', 'k']] = some node ∧ node.requirement.allows Sender.player := by
  have hparse : tickParse = some ([['t', 'i', 'c', 'k']], 1) := by decide +kernel
  unfold tickParse at hparse
  split at hparse
  · rename_i dispatcher hbuild
    split at hparse
    · rename_i results hresults
      obtain ⟨executor, hexecutor, heq⟩ := Option.map_eq_some_iff.mp hparse
      obtain ⟨hnames, hone⟩ := Prod.mk.inj heq
      rw [hone] at hexecutor
      obtain ⟨hall, hancestors⟩ := executors_are_granted hbuild
      refine ⟨dispatcher, hbuild, ⟨results, hresults, hexecutor, ?_⟩, ?_⟩
      · obtain ⟨results', hresults', hsegments⟩ := hall Sender.player tickFreeze
        have hsame : results' = results := Option.some.inj (hresults'.symm.trans hresults)
        subst hsame
        have hmem : results'.context ∈ results'.context.segments := by
          rw [CommandDispatcher.segments_eq]
          exact List.mem_cons_self
        obtain ⟨id, registration, -, -, hregistration, -, hgranted, -⟩ := hsegments _ hmem _ hexecutor
        exact ⟨id, registration, hregistration, hgranted⟩
      · exact hancestors Sender.player tickCommand ['t', 'i', 'c', 'k'] [['f', 'r', 'e', 'e', 'z', 'e']] tickKey
          freezePermission rfl (by rw [hnames]; simp) (by simp [tickCommand]) (by decide +kernel) (by decide +kernel)
          rfl [] [freezeNode] freezeNode trivial ⟨List.mem_singleton_self _, trivial⟩ rfl rfl rfl rfl
    · simp at hparse
  · simp at hparse

end Foton.Brigadier
