import Foton.Brigadier.Parse
import Foton.Brigadier.Registration

/-!
# What the requirements of a command grant

The requirements made for a route allow a source that is granted the governing
scope, and let those pass who are granted a scope further down.
-/

namespace Foton.Brigadier

open CommandTree

variable {S : Type} [CommandPermissionSource S] {R : CommandRuntime S}

/-- The deepest declared path among the literals of a node governs it, or else the root. -/
def governingScope (registration : CommandRegistration R) (route : List Text) : Option (List Text) :=
  deepestPrefix registration.subcommandPermissions route

/-- The permission of a scope is granted; without a path it is that of the root. -/
def Granted (registration : CommandRegistration R) (source : S) : Option (List Text) → Prop
  | none => ∃ permission, registration.rootPermission = .ok permission ∧
    if registration.defaultAccess then permissionState source permission.1 ≠ some .deny
    else permissionState source permission.1 = some .allow
  | some path => ∃ root key, derivedCommandPermissionKey registration.id = .ok root ∧
    derivedSubcommandPermission registration.id root path = .ok key ∧
    permissionState source (.scopedKey root key) = some .allow

/-! ## Expressions with alternatives -/

theorem withAlternatives_any (children : List PermissionExpr) (alternatives : List PermissionKey) :
    withAlternatives (.any children) alternatives = .any (children ++ alternatives.map .key) := by
  induction alternatives generalizing children with
  | nil => simp [withAlternatives]
  | cons key alternatives ih =>
    have hor : (PermissionExpr.any children).bitOr (.key key) = .any (children ++ [.key key]) := rfl
    have hrest := ih (children ++ [.key key])
    simp only [withAlternatives] at hrest
    simp [withAlternatives, hor, hrest]

theorem withAlternatives_eq (permission : PermissionExpr) (alternatives : List PermissionKey)
    (hpermission : ∀ key, permission.bitOr (.key key) = .any [permission, .key key]) :
    withAlternatives permission alternatives =
      if alternatives = [] then permission else .any (permission :: alternatives.map .key) := by
  cases alternatives with
  | nil => simp [withAlternatives]
  | cons key alternatives =>
    have hrest := withAlternatives_any [permission, .key key] alternatives
    simp only [withAlternatives] at hrest
    simp [withAlternatives, hpermission, hrest]

theorem permissionState_withAlternatives {source : S} {permission : PermissionExpr} {alternatives : List PermissionKey}
    {key : PermissionKey} (hpermission : ∀ key, permission.bitOr (.key key) = .any [permission, .key key])
    (hkey : key ∈ alternatives) (hallow : permissionState source (.key key) = some .allow) :
    permissionState source (withAlternatives permission alternatives) = some .allow := by
  rw [withAlternatives_eq permission alternatives hpermission, if_neg (List.ne_nil_of_mem hkey)]
  exact permissionState_any_of_mem (List.mem_cons_of_mem _ (List.mem_map_of_mem hkey)) hallow

/-! ## Requirements of a route -/

/-- What the root's requirement asks for. -/
def rootAllows (root : PermissionExpr) (alternatives : List PermissionKey) (defaultAccess : Bool) (source : S) : Bool :=
  if defaultAccess then
    permissionState source root ≠ some .deny ||
      (alternatives ≠ [] && permissionState source (.any (alternatives.map .key)) = some .allow)
  else permissionState source (withAlternatives root alternatives) = some .allow

/-- What the requirement of a route asks for; the indices are those of the declared paths. -/
def routeAllows (derivedRoot : PermissionKey) (keys : List PermissionKey) (rootPermission : PermissionExpr)
    (defaultAccess : Bool) (governing : Option Nat) (descendants : List Nat) (source : S) : Bool :=
  let alternatives := descendants.filterMap fun index => keys[index]?
  match governing.bind fun index => keys[index]? with
  | some key => permissionState source (withAlternatives (.scopedKey derivedRoot key) alternatives) = some .allow
  | none => rootAllows rootPermission alternatives defaultAccess source

theorem permissionRequirement_allows (permission : PermissionExpr) (serial : Nat) (source : S) :
    (permissionRequirement permission serial).1.allows source =
      decide (permissionState source permission = some .allow) := by
  simp [permissionRequirement, CommandRequirement.authorization, CommandRequirement.allows, RequirementPredicate.holds]

theorem rootPermissionRequirement_allows (root : PermissionExpr) (alternatives : List PermissionKey)
    (defaultAccess : Bool) (serial : Nat) (source : S) :
    (rootPermissionRequirement root alternatives defaultAccess serial).1.allows source =
      rootAllows root alternatives defaultAccess source := by
  unfold rootPermissionRequirement rootAllows
  split
  · by_cases h : alternatives = [] <;>
      simp [CommandRequirement.contextual, CommandRequirement.allows, RequirementPredicate.holds, h]
  · exact permissionRequirement_allows _ _ _

section
variable (derivedRoot : PermissionKey) (keys : List PermissionKey) (rootPermission : PermissionExpr)
  (defaultAccess : Bool)

theorem requirementsFor_asks (governing : Option Nat) (descendants : List Nat) (serial : Nat) :
    Asks (fun (route : RequirementRouteKey) (source : S) =>
        routeAllows derivedRoot keys rootPermission defaultAccess route.governingScope route.descendantScopes source)
      (fun governing source => routeAllows derivedRoot keys rootPermission defaultAccess governing [] source)
      ⟨governing, descendants⟩
      (requirementsFor derivedRoot keys rootPermission defaultAccess governing descendants serial).1 := by
  intro source
  simp only [requirementsFor, routeAllows]
  cases governing.bind fun index => keys[index]? with
  | some key => exact ⟨permissionRequirement_allows _ _ _, permissionRequirement_allows _ _ _⟩
  | none => exact ⟨rootPermissionRequirement_allows _ _ _ _ _, rootPermissionRequirement_allows _ _ _ _ _⟩

theorem routeAllows_of_descendant {rootKey : PermissionKey} {governing : Option Nat} {descendants : List Nat}
    {index : Nat} {key : PermissionKey} {source : S} (hindex : index ∈ descendants) (hkey : keys[index]? = some key)
    (hallow : permissionState source (.key key) = some .allow) :
    routeAllows derivedRoot keys (.key rootKey) defaultAccess governing descendants source := by
  have hmem : key ∈ descendants.filterMap fun index => keys[index]? := List.mem_filterMap.mpr ⟨index, hindex, hkey⟩
  unfold routeAllows
  dsimp only
  split
  · simpa using permissionState_withAlternatives (fun _ => rfl) hmem hallow
  · unfold rootAllows
    split
    · have hany := permissionState_any_of_mem (show .key key ∈ (descendants.filterMap fun index => keys[index]?).map PermissionExpr.key from
        List.mem_map_of_mem hmem) hallow
      simp [List.ne_nil_of_mem hmem, hany]
    · simpa using permissionState_withAlternatives (fun _ => rfl) hmem hallow

end

omit [CommandPermissionSource S] in
theorem scopedPermissions_eq_ok {root : CommandNodeBuilder R} {id : Identifier} {derivedRoot : PermissionKey}
    {paths : List (List Text)} {keys : List PermissionKey} (h : scopedPermissions root id derivedRoot paths = .ok keys) :
    ∀ (index : Nat) (path : List Text), paths[index]? = some path →
      ∃ key, keys[index]? = some key ∧ derivedSubcommandPermission id derivedRoot path = .ok key := by
  induction paths generalizing keys with
  | nil => simp
  | cons first paths ih =>
    simp only [scopedPermissions] at h
    obtain ⟨permission, hpermission, h⟩ := bind_eq_ok.mp h
    split at h
    · obtain ⟨rest, hrest, h⟩ := bind_eq_ok.mp h
      cases h
      intro index path hpath
      cases index with
      | zero => exact ⟨permission, rfl, by simp_all⟩
      | succ index => exact ih hrest index path (by simpa using hpath)
    · simp at h
    · simp at h

end Foton.Brigadier
