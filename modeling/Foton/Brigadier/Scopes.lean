import Foton.Brigadier.Builder
import Foton.Lib.PathMap

/-!
# Scoped requirements guard the executors

The scopes that are active at a node are the declared paths that its literals
begin, as far as they lead into the node's subtree. So a node is governed by the
deepest declared path its literals contain, and whoever reaches its executor has
met the requirement of that path.
-/

namespace Foton.Brigadier

variable {S : Type} [CommandPermissionSource S] {R : CommandRuntime S} {Target : Type}

/-- `reached` says who gets to the node, `granted` who may run an executor below given literals. -/
inductive Secure (granted : List Text → S → Prop) : (route : List Text) → (reached : S → Prop) → CommandTree R Target → Prop
  | node {route : List Text} {reached : S → Prop} {tree : CommandTree R Target}
    (own : tree.executor.isSome → ∀ source, reached source → tree.requirement.allows source →
      tree.executionRequirement.allows source → granted route source)
    (children : ∀ child ∈ tree.children, Secure granted (route ++ child.data.literals)
      (fun source => reached source ∧ tree.requirement.allows source) child) : Secure granted route reached tree

/-- The scope of an index is the deepest declared path that the literals of a node contain. -/
def Governs (paths : List (List Text)) (route : List Text) : Option Nat → Prop
  | none => deepestPrefix paths route = none
  | some index => ∃ path, paths[index]? = some path ∧ deepestPrefix paths route = some path

namespace CommandTree

omit [CommandPermissionSource S] in
theorem literalName_eq (tree : CommandTree R Target) :
    tree.literalName = tree.data.literals.head? := by
  unfold literalName
  cases tree.data <;> rfl

/-! ## Occurrences of literal paths -/

omit [CommandPermissionSource S] in
@[simp] theorem literalPathMatchCount_nil (tree : CommandTree R Target) : tree.literalPathMatchCount [] = 0 := by
  cases tree
  simp [literalPathMatchCount]

section
omit [CommandPermissionSource S]
variable {tree child : CommandTree R Target} {name : Text} {remaining : List Text}

theorem childrenMatchCount_le (hchild : child ∈ tree.children) :
    childrenMatchCount [child] name remaining ≤ tree.literalPathMatchCount (name :: remaining) := by
  obtain ⟨_, children, _, _, _, _⟩ := tree
  simp only [literalPathMatchCount]
  simp only at hchild
  induction children with
  | nil => simp at hchild
  | cons first children ih =>
    simp only [childrenMatchCount] at *
    rcases List.mem_cons.mp hchild with rfl | h
    · omega
    · have := ih h
      omega

theorem matchCount_pos_of_literal (hchild : child ∈ tree.children) (hname : child.data = .literal name)
    (h : remaining = [] ∨ 0 < child.literalPathMatchCount remaining) :
    0 < tree.literalPathMatchCount (name :: remaining) := by
  apply Nat.lt_of_lt_of_le _ (childrenMatchCount_le hchild)
  simp only [childrenMatchCount, literalName, hname, ne_eq, not_true_eq_false, if_false]
  rcases h with rfl | h
  · simp
  · split
    · omega
    · omega

theorem matchCount_pos_of_argument {path : List Text} (hchild : child ∈ tree.children)
    (hargument : child.data.literals = []) (h : 0 < child.literalPathMatchCount path) :
    0 < tree.literalPathMatchCount path := by
  cases path with
  | nil => simp at h
  | cons name remaining =>
    apply Nat.lt_of_lt_of_le _ (childrenMatchCount_le hchild)
    simp only [childrenMatchCount, literalName_eq, hargument, List.head?_nil]
    omega

end

/-! ## Active scopes -/

/-- What the active scopes of a node stand for. -/
structure Tracks (paths : List (List Text)) (route : List Text) (inherited : Option Nat)
    (active : List ActiveRequirementScope) (tree : CommandTree R Target) : Prop where
  sound : ∀ scope ∈ active, paths[scope.index]? = some (route ++ scope.remaining)
  complete : ∀ index remaining, paths[index]? = some (route ++ remaining) → 0 < tree.literalPathMatchCount remaining →
    ⟨index, remaining⟩ ∈ active
  governing : Governs paths route (requirementRoute inherited active).governingScope

section
omit [CommandPermissionSource S]
variable {paths : List (List Text)} {route : List Text} {inherited : Option Nat}
  {active : List ActiveRequirementScope} {tree child : CommandTree R Target}

theorem childActive_of_literal {name : Text} (hname : child.data = .literal name) (scope : ActiveRequirementScope) :
    scope ∈ childActive active child ↔ ⟨scope.index, name :: scope.remaining⟩ ∈ active := by
  simp only [childActive, literalName, hname, List.mem_filterMap]
  constructor
  · rintro ⟨⟨index, remaining⟩, hmem, h⟩
    cases remaining with
    | nil => simp at h
    | cons first remaining =>
      simp only [Option.ite_none_right_eq_some, Option.some.injEq] at h
      obtain ⟨rfl, rfl⟩ := h
      exact hmem
  · intro h
    exact ⟨_, h, by simp⟩

theorem childActive_of_argument (hargument : child.data.literals = []) (scope : ActiveRequirementScope) :
    scope ∈ childActive active child ↔
      scope ∈ active ∧ scope.remaining ≠ [] ∧ 0 < child.literalPathMatchCount scope.remaining := by
  simp [childActive, literalName_eq, hargument]

theorem Tracks.of_literal {name : Text} (h : Tracks paths route inherited active tree)
    (hchild : child ∈ tree.children) (hname : child.data = .literal name) :
    Tracks paths (route ++ [name]) (requirementRoute inherited active).governingScope (childActive active child) child where
  sound scope hscope := by
    rw [childActive_of_literal hname] at hscope
    simpa using h.sound _ hscope
  complete index remaining hindex hcount := by
    rw [childActive_of_literal hname]
    apply h.complete
    · simpa using hindex
    · exact matchCount_pos_of_literal hchild hname (.inr hcount)
  governing := by
    simp only [requirementRoute]
    split
    · rename_i hfind
      have hnone : route ++ [name] ∉ paths := by
        intro hmem
        obtain ⟨index, hindex⟩ := List.mem_iff_getElem?.mp hmem
        have hactive := h.complete index [name] hindex (matchCount_pos_of_literal hchild hname (.inl rfl))
        have := List.find?_eq_none.mp hfind ⟨index, []⟩ ((childActive_of_literal hname _).mpr hactive)
        simp at this
      have hgoverning := h.governing
      simp only [requirementRoute] at hgoverning
      unfold Governs at *
      simpa only [deepestPrefix_concat, if_neg hnone] using hgoverning
    · rename_i scope hfind
      have hempty : scope.remaining = [] := by simpa using List.find?_some hfind
      have hactive := (childActive_of_literal hname _).mp (List.mem_of_find?_eq_some hfind)
      have hindex := h.sound _ hactive
      simp only [hempty] at hindex
      have hmem : route ++ [name] ∈ paths := List.mem_of_getElem? hindex
      exact ⟨route ++ [name], hindex, by rw [deepestPrefix_concat, if_pos hmem]⟩

theorem Tracks.of_argument (h : Tracks paths route inherited active tree)
    (hchild : child ∈ tree.children) (hargument : child.data.literals = []) :
    Tracks paths route (requirementRoute inherited active).governingScope (childActive active child) child where
  sound scope hscope := h.sound scope ((childActive_of_argument hargument _).mp hscope).1
  complete index remaining hindex hcount := by
    rw [childActive_of_argument hargument]
    refine ⟨h.complete index remaining hindex (matchCount_pos_of_argument hchild hargument hcount), ?_, hcount⟩
    intro hnil
    subst hnil
    simp at hcount
  governing := by
    have hnone : (childActive active child).find? (fun scope => scope.remaining = []) = none := by
      apply List.find?_eq_none.mpr
      intro scope hscope
      simpa using ((childActive_of_argument hargument _).mp hscope).2.1
    have hgoverning := h.governing
    simp only [requirementRoute, hnone] at *
    exact hgoverning

theorem Tracks.of_child (h : Tracks paths route inherited active tree) (hchild : child ∈ tree.children) :
    Tracks paths (route ++ child.data.literals) (requirementRoute inherited active).governingScope
      (childActive active child) child := by
  cases hdata : child.data with
  | literal name => exact h.of_literal hchild hdata
  | argument name argumentType =>
    have hargument : child.data.literals = [] := by rw [hdata]; rfl
    simpa [CommandNodeData.literals] using h.of_argument hchild hargument

theorem tracks_root (hpaths : [] ∉ paths) (tree : CommandTree R Target) :
    Tracks paths [] none (paths.zipIdx.map fun path => ⟨path.2, path.1⟩) tree where
  sound scope hscope := by
    obtain ⟨path, hpath, rfl⟩ := List.mem_map.mp hscope
    simpa using List.mem_zipIdx_iff_getElem?.mp hpath
  complete index remaining hindex _ := by
    apply List.mem_map.mpr
    exact ⟨(remaining, index), List.mem_zipIdx_iff_getElem?.mpr (by simpa using hindex), rfl⟩
  governing := by
    have hnone : (paths.zipIdx.map fun path => (⟨path.2, path.1⟩ : ActiveRequirementScope)).find?
        (fun scope => scope.remaining = []) = none := by
      apply List.find?_eq_none.mpr
      intro scope hscope
      obtain ⟨path, hpath, rfl⟩ := List.mem_map.mp hscope
      have hmem : path.1 ∈ paths := List.mem_of_getElem? (List.mem_zipIdx_iff_getElem?.mp hpath)
      simp only [decide_eq_true_eq]
      intro hnil
      rw [hnil] at hmem
      exact hpaths hmem
    simp only [requirementRoute, hnone, Governs]
    exact deepestPrefix_nil paths hpaths

end

/-! ## The scoped tree -/

section
omit [CommandPermissionSource S]
variable (requirementsFor : Option Nat → List Nat → Nat → CommandRequirementRoute × Nat) (inherited : Option Nat)
  (active : List ActiveRequirementScope) (parentRoute : Option RequirementRouteKey) (memory : RequirementMemory)

theorem applyScopedRequirementsInner_eq (tree : CommandTree R Target) :
    tree.applyScopedRequirementsInner requirementsFor inherited active parentRoute memory =
      let route := requirementRoute inherited active
      let requirements := cachedRouteRequirements requirementsFor route memory
      let traversal := if parentRoute ≠ some route then requirements.2.and tree.requirement requirements.1.traversal
        else (tree.requirement, requirements.2)
      let execution := if route.descendantScopes ≠ [] ∧ tree.executor.isSome then
          traversal.2.and tree.executionRequirement requirements.1.execution
        else (tree.executionRequirement, traversal.2)
      let whole := applyScopedRequirementsChildren requirementsFor tree.children active route execution.2
      ({ tree with children := whole.1, requirement := traversal.1, executionRequirement := execution.1 }, whole.2) := by
  cases tree
  simp only [applyScopedRequirementsInner]

theorem applyScopedRequirementsInner_data (tree : CommandTree R Target) :
    (tree.applyScopedRequirementsInner requirementsFor inherited active parentRoute memory).1.data = tree.data := by
  rw [applyScopedRequirementsInner_eq]

theorem applyScopedRequirementsInner_executor (tree : CommandTree R Target) :
    (tree.applyScopedRequirementsInner requirementsFor inherited active parentRoute memory).1.executor =
      tree.executor := by
  rw [applyScopedRequirementsInner_eq]

end

section
variable {requirementsFor : Option Nat → List Nat → Nat → CommandRequirementRoute × Nat}
  {traverses : RequirementRouteKey → S → Bool} {executes : Option Nat → S → Bool}

/-- The requirements of a route say `traverses` and `executes`. -/
def Asks (traverses : RequirementRouteKey → S → Bool) (executes : Option Nat → S → Bool) (route : RequirementRouteKey)
    (requirements : CommandRequirementRoute) : Prop :=
  ∀ source, requirements.traversal.allows source = traverses route source ∧
    requirements.execution.allows source = executes route.governingScope source

/-- What the cache holds is what would be made. -/
def RequirementMemory.Asks (traverses : RequirementRouteKey → S → Bool) (executes : Option Nat → S → Bool)
    (memory : RequirementMemory) : Prop :=
  ∀ entry ∈ memory.cache, CommandTree.Asks traverses executes entry.1 entry.2

variable (hasks : ∀ governing descendants serial,
  Asks traverses executes ⟨governing, descendants⟩ (requirementsFor governing descendants serial).1)
include hasks

theorem cachedRouteRequirements_asks {memory : RequirementMemory} (hmemory : RequirementMemory.Asks traverses executes memory)
    (route : RequirementRouteKey) :
    Asks traverses executes route (cachedRouteRequirements requirementsFor route memory).1 ∧
      RequirementMemory.Asks traverses executes (cachedRouteRequirements requirementsFor route memory).2 := by
  unfold cachedRouteRequirements
  split
  · rename_i key requirements hfind
    have hkey : key = route := by simpa using List.find?_some hfind
    subst hkey
    exact ⟨hmemory _ (List.mem_of_find?_eq_some hfind), hmemory⟩
  · refine ⟨hasks _ _ _, fun entry hentry => ?_⟩
    rcases List.mem_append.mp hentry with h | h
    · exact hmemory entry h
    · rw [List.mem_singleton.mp h]
      exact hasks _ _ _

theorem applyScopedRequirementsInner_asks (tree : CommandTree R Target) : ∀ (inherited : Option Nat)
    (active : List ActiveRequirementScope) (parentRoute : Option RequirementRouteKey) (memory : RequirementMemory),
    RequirementMemory.Asks traverses executes memory → RequirementMemory.Asks traverses executes
      (tree.applyScopedRequirementsInner requirementsFor inherited active parentRoute memory).2 := by
  induction tree using induct with
  | node tree ih =>
    intro inherited active parentRoute memory hmemory
    have hchildren : ∀ (children : List (CommandTree R Target)) (memory : RequirementMemory),
        (∀ child ∈ children, child ∈ tree.children) → RequirementMemory.Asks traverses executes memory →
        RequirementMemory.Asks traverses executes (applyScopedRequirementsChildren requirementsFor children active
          (requirementRoute inherited active) memory).2 := by
      intro children
      induction children with
      | nil => intro memory _ h; simpa [applyScopedRequirementsChildren] using h
      | cons child children ihc =>
        intro memory hmem h
        simp only [applyScopedRequirementsChildren]
        apply ihc _ fun c hc => hmem c (List.mem_cons_of_mem _ hc)
        exact ih child (hmem child List.mem_cons_self) _ _ _ _ h
    rw [applyScopedRequirementsInner_eq]
    apply hchildren _ _ fun _ h => h
    have hcache := (cachedRouteRequirements_asks hasks hmemory (requirementRoute inherited active)).2
    intro entry hentry
    apply hcache
    split at hentry <;> split at hentry <;> exact hentry

theorem mem_applyScopedRequirementsChildren {children : List (CommandTree R Target)} {active : List ActiveRequirementScope}
    {route : RequirementRouteKey} {memory : RequirementMemory} {result : CommandTree R Target}
    (hmemory : RequirementMemory.Asks traverses executes memory)
    (hresult : result ∈ (applyScopedRequirementsChildren requirementsFor children active route memory).1) :
    ∃ child ∈ children, ∃ memory, RequirementMemory.Asks traverses executes memory ∧ result =
      (child.applyScopedRequirementsInner requirementsFor route.governingScope (childActive active child) (some route)
        memory).1 := by
  induction children generalizing memory with
  | nil => simp [applyScopedRequirementsChildren] at hresult
  | cons child children ih =>
    simp only [applyScopedRequirementsChildren] at hresult
    rcases List.mem_cons.mp hresult with rfl | h
    · exact ⟨child, List.mem_cons_self, memory, hmemory, rfl⟩
    · obtain ⟨c, hc, hrest⟩ := ih (applyScopedRequirementsInner_asks hasks child _ _ _ _ hmemory) h
      exact ⟨c, List.mem_cons_of_mem _ hc, hrest⟩

theorem applyScopedRequirementsChildren_mem {children : List (CommandTree R Target)} (active : List ActiveRequirementScope)
    (route : RequirementRouteKey) {memory : RequirementMemory} {child : CommandTree R Target}
    (hmemory : RequirementMemory.Asks traverses executes memory) (hchild : child ∈ children) :
    ∃ memory', RequirementMemory.Asks traverses executes memory' ∧
      (child.applyScopedRequirementsInner requirementsFor route.governingScope (childActive active child) (some route)
        memory').1 ∈ (applyScopedRequirementsChildren requirementsFor children active route memory).1 := by
  induction children generalizing memory with
  | nil => simp at hchild
  | cons first children ih =>
    simp only [applyScopedRequirementsChildren]
    rcases List.mem_cons.mp hchild with rfl | h
    · exact ⟨memory, hmemory, List.mem_cons_self⟩
    · obtain ⟨memory', hmemory', hmem⟩ := ih (applyScopedRequirementsInner_asks hasks first _ _ _ _ hmemory) h
      exact ⟨memory', hmemory', List.mem_cons_of_mem _ hmem⟩

/-- What scoping makes of one node: its requirements, and the children scoped in some memory. -/
theorem applyScopedRequirementsInner_spec (tree : CommandTree R Target) (inherited : Option Nat)
    (active : List ActiveRequirementScope) (parentRoute : Option RequirementRouteKey) {memory : RequirementMemory}
    (hmemory : RequirementMemory.Asks traverses executes memory) :
    let route := requirementRoute inherited active
    let result := (tree.applyScopedRequirementsInner requirementsFor inherited active parentRoute memory).1
    (∀ source, result.requirement.allows source =
      (tree.requirement.allows source && (parentRoute = some route || traverses route source))) ∧
    (∀ source, result.executionRequirement.allows source = (tree.executionRequirement.allows source &&
      (route.descendantScopes = [] || !tree.executor.isSome || executes route.governingScope source))) ∧
    ∃ memory', RequirementMemory.Asks traverses executes memory' ∧ result.children =
      (applyScopedRequirementsChildren requirementsFor tree.children active route memory').1 := by
  dsimp only
  obtain ⟨hroute, hcache⟩ := cachedRouteRequirements_asks hasks hmemory (requirementRoute inherited active)
  rw [applyScopedRequirementsInner_eq]
  dsimp only
  refine ⟨fun source => ?_, fun source => ?_, _, ?_, rfl⟩
  · split
    · rename_i h
      simp [RequirementMemory.and, h, (hroute source).1]
    · rename_i h
      simp [not_not.mp h]
  · split
    · rename_i h
      obtain ⟨hne, hsome⟩ := h
      simp [RequirementMemory.and, hne, hsome, (hroute source).2]
    · rename_i h
      by_cases hne : (requirementRoute inherited active).descendantScopes = []
      · simp [hne]
      · have hsome : tree.executor.isSome = false := by simpa [hne] using h
        simp [hsome]
  · intro entry hentry
    apply hcache
    split at hentry <;> split at hentry <;> exact hentry

/-! ## Who reaches an executor -/

theorem secure_of_scoped {paths : List (List Text)} (tree : CommandTree R Target) : ∀ {route : List Text}
    {reached : S → Prop} {inherited : Option Nat} {active : List ActiveRequirementScope}
    {parentRoute : Option RequirementRouteKey} {memory : RequirementMemory},
    (∀ governing source, traverses ⟨governing, []⟩ source = executes governing source) →
    RequirementMemory.Asks traverses executes memory → Tracks paths route inherited active tree →
    (∀ source parent, parentRoute = some parent → reached source → traverses parent source) →
    Secure (fun route source => ∃ governing, Governs paths route governing ∧ executes governing source) route reached
      (tree.applyScopedRequirementsInner requirementsFor inherited active parentRoute memory).1 := by
  induction tree using induct with
  | node tree ih =>
    intro route reached inherited active parentRoute memory hlast hmemory htracks hreached
    obtain ⟨hrequirement, hexecution, memory', hmemory', hchildren⟩ :=
      applyScopedRequirementsInner_spec hasks tree inherited active parentRoute hmemory
    have htraverses : ∀ source, reached source → (tree.applyScopedRequirementsInner requirementsFor inherited active
        parentRoute memory).1.requirement.allows source → traverses (requirementRoute inherited active) source := by
      intro source hsource hallows
      rw [hrequirement, Bool.and_eq_true, Bool.or_eq_true] at hallows
      rcases hallows.2 with h | h
      · exact hreached source _ (of_decide_eq_true h) hsource
      · exact h
    refine .node ?_ ?_
    · intro hexecutor source hsource hallows hexecutes
      refine ⟨_, htracks.governing, ?_⟩
      rw [applyScopedRequirementsInner_executor] at hexecutor
      rw [hexecution, Bool.and_eq_true, hexecutor] at hexecutes
      by_cases hnil : (requirementRoute inherited active).descendantScopes = []
      · rw [← hlast, ← hnil]
        exact htraverses source hsource hallows
      · simpa [hnil] using hexecutes.2
    · intro result hresult
      rw [hchildren] at hresult
      obtain ⟨child, hchild, memory'', hmemory'', rfl⟩ := mem_applyScopedRequirementsChildren hasks hmemory' hresult
      rw [applyScopedRequirementsInner_data]
      apply ih child hchild hlast hmemory'' (htracks.of_child hchild)
      intro source parent hparent hsource
      cases hparent
      exact htraverses source hsource.1 hsource.2

end

end CommandTree

end Foton.Brigadier
