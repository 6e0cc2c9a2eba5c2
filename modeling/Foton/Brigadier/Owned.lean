import Mathlib.Data.List.Nodup
import Foton.Brigadier.Granted

/-!
# The commands of a dispatcher

Every root of a built dispatcher is the tree of one declaration: the first that
claims its name, or the one whose id it is.
-/

namespace Foton.Brigadier

open CommandTree

variable {S : Type} {R : CommandRuntime S}

/-- The declaration that a root of the dispatcher belongs to. -/
def owner (registrations : List (CommandRegistration R)) (name : Text) : Option (CommandRegistration R) :=
  (registrations.find? fun registration => registration.roots.contains name).or
    (registrations.find? fun registration => registration.id.text = name)

/-- A root is a declaration's tree with its requirements, under the root's name. -/
def IsRootOf (registration : CommandRegistration R) (root : CommandNode R) : Prop :=
  ∃ serial serial' command node, registration.resolve serial = .ok (command, serial') ∧
    CommandTree.normalize { command.root with data := .literal root.name } = .ok node ∧ root = node.resolveCommandRoot [root.name]

/-! ## Valid declarations -/

theorem colon_notMem_of_validateAliases {id : Identifier} {aliases roots : List Text}
    (h : validateAliases id aliases roots = .ok ()) : ∀ name ∈ aliases, ':' ∉ name := by
  induction aliases generalizing roots with
  | nil => simp
  | cons first aliases ih =>
    simp only [validateAliases, bind_eq_ok] at h
    obtain ⟨⟨⟩, hfirst, h⟩ := h
    split at h
    · simp at h
    · refine List.forall_mem_cons.mpr ⟨?_, ih h⟩
      unfold validateAlias at hfirst
      grind

theorem nil_notMem_of_validatePaths {id : Identifier} {paths : List (List Text)} {permissionPaths : List Text}
    (h : validatePaths id paths permissionPaths = .ok ()) : [] ∉ paths := by
  induction paths generalizing permissionPaths with
  | nil => simp
  | cons path paths ih =>
    simp only [validatePaths] at h
    split at h
    · simp at h
    · rename_i hpath
      obtain ⟨⟨⟩, -, h⟩ := bind_eq_ok.mp h
      split at h
      · simp at h
      · simp [Ne.symm hpath, ih h]

/-- What validation ensures of a declaration. -/
structure Valid (registration : CommandRegistration R) : Prop where
  nameSpace : ':' ∉ registration.id.nameSpace
  roots : ∀ name ∈ registration.roots, ':' ∉ name
  paths : [] ∉ registration.subcommandPermissions

theorem valid_of_validate {registration : CommandRegistration R} (h : registration.validate = .ok ()) :
    Valid registration := by
  unfold CommandRegistration.validate at h
  dsimp only at h
  split at h
  · simp at h
  · rename_i hid
    simp only [not_or, not_not] at hid
    obtain ⟨-, -, hid⟩ := hid
    simp only [Identifier.validate, Bool.and_eq_true, List.all_eq_true] at hid
    obtain ⟨⟨-, hnameSpace⟩, hpath⟩ := hid
    obtain ⟨⟨⟩, haliases, h⟩ := bind_eq_ok.mp h
    split at h
    · simp at h
    · refine ⟨fun hmem => ?_, ?_, nil_notMem_of_validatePaths h⟩
      · have := hnameSpace ':' hmem
        simp [Identifier.validNamespaceChar] at this
      · refine List.forall_mem_cons.mpr ⟨fun hmem => ?_, colon_notMem_of_validateAliases haliases⟩
        have := hpath ':' hmem
        simp [Identifier.validChar, Identifier.validNamespaceChar] at this

theorem Identifier.text_injective {first second : Identifier} (hfirst : ':' ∉ first.nameSpace)
    (hsecond : ':' ∉ second.nameSpace) (h : first.text = second.text) : first = second := by
  obtain ⟨a, p⟩ := first
  obtain ⟨b, q⟩ := second
  simp only [Identifier.text] at *
  have hcut : ∀ (x y : Text), ':' ∉ x → (x ++ ':' :: y).takeWhile (fun c => c ≠ ':') = x := by
    intro x y hx
    rw [List.takeWhile_append_of_pos (by grind)]
    simp
  have hab : a = b := by rw [← hcut a p hfirst, h, hcut b q hsecond]
  subst hab
  simpa using h

/-! ## Registering one root -/

theorem withLiteralName_eq {root renamed : CommandNodeBuilder R} {name : Text}
    (h : root.withLiteralName name = some renamed) : renamed = { root with data := .literal name } := by
  unfold withLiteralName at h
  split at h
  · cases h
    rfl
  · simp at h

theorem registerRenamedRoot_of_new {registration : CommandRegistration R} {serial serial' : Nat}
    {command : ResolvedCommand R} {dispatcher result : CommandDispatcher R} {name : Text}
    (hcommand : registration.resolve serial = .ok (command, serial')) (hwell : dispatcher.WellFormed)
    (hnew : name ∉ dispatcher.roots.map CommandTree.name)
    (h : registerRenamedRoot dispatcher command.root name = .ok result) :
    result.WellFormed ∧ ∃ root, result.roots = dispatcher.roots ++ [root] ∧ root.name = name ∧ IsRootOf registration root := by
  unfold registerRenamedRoot at h
  split at h
  · simp at h
  · rename_i renamed hrenamed
    have hrenamed := withLiteralName_eq hrenamed
    have hname : renamed.name = name := by
      rw [hrenamed]
      rfl
    rw [mapError_eq_ok] at h
    obtain ⟨node, hnode, hroots⟩ := CommandDispatcher.register_of_new (hname ▸ hnew) h
    have hnodeName : node.name = name := by
      rw [(normalize_eq_ok hnode).2]
      exact hname
    rw [hname] at hroots
    refine ⟨⟨?_, ?_, ?_⟩, node.resolveCommandRoot [name], hroots, by simpa using hnodeName, ?_⟩
    · rw [hroots, List.map_append, List.nodup_append]
      refine ⟨hwell.names, by simp, ?_⟩
      intro a ha b hb heq
      have hb : b = name := by simpa [hnodeName] using hb
      rw [heq, hb] at ha
      exact hnew ha
    · rw [hroots]
      simp only [List.mem_append, List.mem_singleton]
      rintro root (hold | rfl)
      · exact hwell.distinct root hold
      · exact distinct_resolveCommandRoot _ _ (distinct_normalize renamed node hnode)
    · rw [hroots]
      simp only [List.mem_append, List.mem_singleton]
      rintro root (hold | rfl)
      · exact hwell.redirects root hold
      · simpa [hnodeName] using redirectsTo_resolveCommandRoot [name] node
    · refine ⟨serial, serial', command, node, hcommand, ?_, ?_⟩
      · rw [resolveCommandRoot_name, hnodeName, ← hrenamed]
        exact hnode
      · rw [resolveCommandRoot_name, hnodeName]

/-! ## Registering all of them -/

/-- Every root belongs to its owner. -/
structure Owned (registrations : List (CommandRegistration R)) (dispatcher : CommandDispatcher R) : Prop where
  wellFormed : dispatcher.WellFormed
  roots : ∀ root ∈ dispatcher.roots, ∃ registration ∈ registrations,
    owner registrations root.name = some registration ∧ IsRootOf registration root

theorem Owned.register {registrations : List (CommandRegistration R)} {registration : CommandRegistration R}
    {serial serial' : Nat} {command : ResolvedCommand R} {dispatcher result : CommandDispatcher R} {name : Text}
    (howned : Owned registrations dispatcher) (hcommand : registration.resolve serial = .ok (command, serial'))
    (hmem : registration ∈ registrations) (howner : owner registrations name = some registration)
    (hnew : name ∉ dispatcher.roots.map CommandTree.name)
    (h : registerRenamedRoot dispatcher command.root name = .ok result) :
    Owned registrations result ∧ result.roots.map CommandTree.name = dispatcher.roots.map CommandTree.name ++ [name] := by
  obtain ⟨hwell, root, hroots, hname, hroot⟩ := registerRenamedRoot_of_new hcommand howned.wellFormed hnew h
  refine ⟨⟨hwell, ?_⟩, by simp [hroots, hname]⟩
  rw [hroots]
  simp only [List.mem_append, List.mem_singleton]
  rintro other (hold | rfl)
  · exact howned.roots other hold
  · exact ⟨registration, hmem, by rw [hname]; exact howner, hroot⟩

theorem resolve_roots {registration : CommandRegistration R} {serial serial' : Nat} {command : ResolvedCommand R}
    (h : registration.resolve serial = .ok (command, serial')) :
    command.id = registration.id ∧ command.roots = registration.roots := by
  unfold CommandRegistration.resolve at h
  obtain ⟨permission, -, h⟩ := bind_eq_ok.mp h
  obtain ⟨made, -, h⟩ := bind_eq_ok.mp h
  split at h
  · simp at h
  · split at h
    · simp at h
    · cases h
      exact ⟨rfl, rfl⟩

theorem owner_of_first {before after : List (CommandRegistration R)} {registration : CommandRegistration R} {name : Text}
    (hname : name ∈ registration.roots) (hbefore : ∀ other ∈ before, name ∉ other.roots) :
    owner (before ++ registration :: after) name = some registration := by
  have hnone : before.find? (fun other => name ∈ other.roots) = none := by
    simpa [List.find?_eq_none] using hbefore
  simp [owner, List.find?_append, hnone, hname]

/-- An id is not claimed as a name, so it leads to the command it is the id of. -/
theorem owner_of_text {registrations : List (CommandRegistration R)} {registration : CommandRegistration R}
    (hvalid : ∀ other ∈ registrations, Valid other) (hids : (registrations.map CommandRegistration.id).Nodup)
    (hmem : registration ∈ registrations) : owner registrations registration.id.text = some registration := by
  have hcolon : ':' ∈ registration.id.text := by simp [Identifier.text]
  have hnone : registrations.find? (fun other => registration.id.text ∈ other.roots) = none := by
    simp only [List.find?_eq_none, decide_eq_true_eq]
    exact fun other hother hclaimed => (hvalid other hother).roots _ hclaimed hcolon
  have hfind : registrations.find? (fun other => other.id.text = registration.id.text) = some registration := by
    cases h : registrations.find? (fun other => other.id.text = registration.id.text) with
    | none =>
      have := List.find?_eq_none.mp h registration hmem
      simp at this
    | some other =>
      have hother := List.mem_of_find?_eq_some h
      have htext : other.id.text = registration.id.text := by simpa using List.find?_some h
      have hid := Identifier.text_injective (hvalid other hother).nameSpace (hvalid registration hmem).nameSpace htext
      rw [List.inj_on_of_nodup_map hids hother hmem hid]
  simp [owner, hnone, hfind]

theorem registerRoots_owned {before after : List (CommandRegistration R)} {registration : CommandRegistration R}
    {serial serial' : Nat} {command : ResolvedCommand R}
    (hcommand : registration.resolve serial = .ok (command, serial')) {names claimed : List Text}
    {dispatcher : CommandDispatcher R} {result : List Text × CommandDispatcher R}
    (howned : Owned (before ++ registration :: after) dispatcher)
    (hclaimed : dispatcher.roots.map CommandTree.name = claimed)
    (hbefore : ∀ other ∈ before, ∀ name ∈ other.roots, name ∈ claimed)
    (hnames : ∀ name ∈ names, name ∈ registration.roots)
    (h : registerRoots command.root names claimed dispatcher = .ok result) :
    Owned (before ++ registration :: after) result.2 ∧ result.2.roots.map CommandTree.name = result.1 ∧
      (∀ name ∈ claimed, name ∈ result.1) ∧ (∀ name ∈ names, name ∈ result.1) ∧
      ∀ name ∈ result.1, name ∈ claimed ∨ name ∈ registration.roots := by
  induction names generalizing claimed dispatcher with
  | nil =>
    cases h
    exact ⟨howned, hclaimed, fun _ h => h, by simp, fun _ h => .inl h⟩
  | cons name names ih =>
    obtain ⟨hname, hnames⟩ := List.forall_mem_cons.mp hnames
    simp only [registerRoots] at h
    split at h
    · rename_i hold
      obtain ⟨hresult, heq, hkeep, hall, honly⟩ := ih howned hclaimed hbefore hnames h
      exact ⟨hresult, heq, hkeep, List.forall_mem_cons.mpr ⟨hkeep name hold, hall⟩, honly⟩
    · rename_i hnew
      obtain ⟨next, hnext, h⟩ := bind_eq_ok.mp h
      have howner : owner (before ++ registration :: after) name = some registration :=
        owner_of_first hname fun other hother hmem => hnew (hbefore other hother name hmem)
      obtain ⟨hownedNext, hnextNames⟩ := howned.register hcommand (by simp) howner (hclaimed ▸ hnew) hnext
      rw [hclaimed] at hnextNames
      obtain ⟨hresult, heq, hkeep, hall, honly⟩ := ih hownedNext hnextNames
        (fun other hother n hn => List.mem_append_left _ (hbefore other hother n hn)) hnames h
      refine ⟨hresult, heq, fun n hn => hkeep n (List.mem_append_left _ hn), ?_, fun n hn => ?_⟩
      · exact List.forall_mem_cons.mpr ⟨hkeep name (by simp), hall⟩
      · rcases honly n hn with h | h
        · rcases List.mem_append.mp h with h | h
          · exact .inl h
          · rw [List.mem_singleton.mp h]
            exact .inr hname
        · exact .inr h

theorem registerCommands_owned {before rest : List (CommandRegistration R)} {serial : Nat}
    {commands : List (ResolvedCommand R)} (hcommands : resolveAll rest serial = .ok commands) {claimed : List Text}
    {dispatcher result : CommandDispatcher R} (howned : Owned (before ++ rest) dispatcher)
    (hclaimed : dispatcher.roots.map CommandTree.name = claimed)
    (hbefore : ∀ other ∈ before, ∀ name ∈ other.roots, name ∈ claimed)
    (honly : ∀ name ∈ claimed, ∃ other ∈ before, name ∈ other.roots)
    (h : registerCommands commands claimed dispatcher = .ok result) :
    Owned (before ++ rest) result ∧ ∀ root ∈ result.roots, ∃ other ∈ before ++ rest, root.name ∈ other.roots := by
  induction rest generalizing before serial commands claimed dispatcher with
  | nil =>
    cases hcommands
    cases h
    refine ⟨howned, fun root hroot => ?_⟩
    simpa using honly root.name (hclaimed ▸ List.mem_map_of_mem hroot)
  | cons registration rest ih =>
    simp only [resolveAll] at hcommands
    obtain ⟨⟨command, serial'⟩, hcommand, hcommands⟩ := bind_eq_ok.mp hcommands
    obtain ⟨commands', hrest, hcommands⟩ := bind_eq_ok.mp hcommands
    cases hcommands
    simp only [registerCommands] at h
    obtain ⟨registered, hregistered, h⟩ := bind_eq_ok.mp h
    have hroots := (resolve_roots hcommand).2
    obtain ⟨hownedNext, hnames, hkeep, hall, hnew⟩ := registerRoots_owned hcommand howned hclaimed hbefore
      (fun name hname => hroots ▸ hname) hregistered
    have hsplit : before ++ registration :: rest = (before ++ [registration]) ++ rest := by simp
    rw [hsplit] at hownedNext ⊢
    refine ih hrest hownedNext hnames ?_ ?_ h
    · simp only [List.mem_append, List.mem_singleton]
      rintro other (hother | rfl) name hname
      · exact hkeep name (hbefore other hother name hname)
      · exact hall name (hroots.symm ▸ hname)
    · intro name hname
      rcases hnew name hname with h | h
      · obtain ⟨other, hother, hmem⟩ := honly name h
        exact ⟨other, List.mem_append_left _ hother, hmem⟩
      · exact ⟨registration, by simp, h⟩

theorem registerCollided_owned {registrations rest : List (CommandRegistration R)} {counts : Text → Nat} {serial : Nat}
    {commands : List (ResolvedCommand R)} (hcommands : resolveAll rest serial = .ok commands)
    (hvalid : ∀ registration ∈ registrations, Valid registration)
    (hids : (registrations.map CommandRegistration.id).Nodup) (hsub : rest.Sublist registrations)
    {dispatcher result : CommandDispatcher R} (howned : Owned registrations dispatcher)
    (hnew : ∀ registration ∈ rest, registration.id.text ∉ dispatcher.roots.map CommandTree.name)
    (h : registerCollided counts commands dispatcher = .ok result) : Owned registrations result := by
  induction rest generalizing serial commands dispatcher with
  | nil =>
    cases hcommands
    cases h
    exact howned
  | cons registration rest ih =>
    simp only [resolveAll] at hcommands
    obtain ⟨⟨command, serial'⟩, hcommand, hcommands⟩ := bind_eq_ok.mp hcommands
    obtain ⟨commands', hrest, hcommands⟩ := bind_eq_ok.mp hcommands
    cases hcommands
    have hmem : registration ∈ registrations := hsub.subset List.mem_cons_self
    have hsubRest : rest.Sublist registrations := (List.sublist_cons_self _ _).trans hsub
    obtain ⟨hnewFirst, hnewRest⟩ := List.forall_mem_cons.mp hnew
    simp only [registerCollided] at h
    split at h
    · obtain ⟨next, hnext, h⟩ := bind_eq_ok.mp h
      rw [(resolve_roots hcommand).1] at hnext
      obtain ⟨hownedNext, hnames⟩ := howned.register hcommand hmem (owner_of_text hvalid hids hmem) hnewFirst hnext
      refine ih hrest hsubRest hownedNext ?_ h
      intro other hother hclaimed
      rw [hnames] at hclaimed
      rcases List.mem_append.mp hclaimed with hold | hsame
      · exact hnewRest other hother hold
      · -- two commands with one id would be the same declaration twice
        have hotherMem := hsubRest.subset hother
        have hid := Identifier.text_injective (hvalid other hotherMem).nameSpace (hvalid registration hmem).nameSpace
          (List.mem_singleton.mp hsame)
        have hnodup : ((registration :: rest).map CommandRegistration.id).Nodup := hids.sublist (hsub.map _)
        simp only [List.map_cons, List.nodup_cons] at hnodup
        exact hnodup.1 (hid ▸ List.mem_map_of_mem hother)
    · exact ih hrest hsubRest howned hnewRest h

theorem CommandDispatcherBuilder.build_owned {builder : CommandDispatcherBuilder R} {dispatcher : CommandDispatcher R}
    (h : builder.build = .ok dispatcher) : Owned builder.registrations dispatcher := by
  unfold CommandDispatcherBuilder.build at h
  obtain ⟨resolved, hresolved, h⟩ := bind_eq_ok.mp h
  obtain ⟨first, hfirst, h⟩ := bind_eq_ok.mp h
  have hvalid : ∀ registration ∈ builder.registrations, Valid registration :=
    fun registration hmem => valid_of_validate (builder.valid registration hmem)
  have hempty : Owned ([] ++ builder.registrations) (CommandDispatcher.new : CommandDispatcher R) :=
    ⟨⟨by simp [CommandDispatcher.new], by simp [CommandDispatcher.new], by simp [CommandDispatcher.new]⟩,
      by simp [CommandDispatcher.new]⟩
  obtain ⟨howned, hnames⟩ := registerCommands_owned hresolved hempty rfl (by simp) (by simp [CommandDispatcher.new]) hfirst
  refine registerCollided_owned hresolved hvalid builder.ids (List.Sublist.refl _) howned ?_ h
  intro registration hmem hclaimed
  obtain ⟨root, hroot, hname⟩ := List.mem_map.mp hclaimed
  obtain ⟨other, hother, hroots⟩ := hnames root hroot
  apply (hvalid other hother).roots _ hroots
  rw [hname]
  simp [Identifier.text]

end Foton.Brigadier
