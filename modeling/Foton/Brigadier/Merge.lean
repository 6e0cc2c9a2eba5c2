import Foton.Brigadier.Scopes
import Foton.Lib.Fallible

/-!
# Normalization keeps what requirements guard

Siblings of one name are merged only if they share their requirements, so the
merged node guards what both of them did, and every way down is still there.
-/

namespace Foton.Brigadier.CommandTree

variable {S : Type} {R : CommandRuntime S} {Target : Type}

/-- No two siblings have the same name, so a path of names leads to one node. -/
inductive Distinct : CommandTree R Target → Prop
  | node {tree : CommandTree R Target} (names : (tree.children.map name).Nodup)
    (children : ∀ child ∈ tree.children, Distinct child) : Distinct tree

/-- The nodes of `chain` lead down from `tree`. -/
def Descends : CommandTree R Target → List (CommandTree R Target) → Prop
  | _, [] => True
  | tree, child :: chain => child ∈ tree.children ∧ Descends child chain

def SameRequirement {Target' : Type} (tree : CommandTree R Target) (result : CommandTree R Target') : Prop :=
  result.requirement.predicate = tree.requirement.predicate

/-- Every way down from `tree` is also one down from `result`, and ends in the same requirement. -/
def Covers {Target' : Type} (tree : CommandTree R Target) (result : CommandTree R Target') : Prop :=
  ∀ chain, Descends tree chain → ∃ chain', Descends result chain' ∧ chain'.map name = chain.map name ∧
    SameRequirement (chain.getLastD tree) (chain'.getLastD result)

def CoversAll {Target' : Type} (nodes : List (CommandTree R Target)) (results : List (CommandTree R Target')) : Prop :=
  ∀ node ∈ nodes, ∃ result ∈ results, result.name = node.name ∧ Covers node result

theorem Covers.refl (tree : CommandTree R Target) : Covers tree tree := fun chain h => ⟨chain, h, rfl, rfl⟩

theorem Covers.trans {T T' : Type} {a : CommandTree R Target} {b : CommandTree R T} {c : CommandTree R T'}
    (hab : Covers a b) (hbc : Covers b c) : Covers a c := by
  intro chain h
  obtain ⟨chain', h', hnames, hsame⟩ := hab chain h
  obtain ⟨chain'', h'', hnames', hsame'⟩ := hbc chain' h'
  exact ⟨chain'', h'', hnames'.trans hnames, Eq.trans hsame' hsame⟩

theorem CoversAll.refl (nodes : List (CommandTree R Target)) : CoversAll nodes nodes :=
  fun node h => ⟨node, h, rfl, .refl node⟩

theorem CoversAll.trans {T T' : Type} {a : List (CommandTree R Target)} {b : List (CommandTree R T)}
    {c : List (CommandTree R T')} (hab : CoversAll a b) (hbc : CoversAll b c) : CoversAll a c := by
  intro node h
  obtain ⟨node', h', hname, hcovers⟩ := hab node h
  obtain ⟨node'', h'', hname', hcovers'⟩ := hbc node' h'
  exact ⟨node'', h'', hname'.trans hname, hcovers.trans hcovers'⟩

theorem Covers.node {T : Type} {tree : CommandTree R Target} {result : CommandTree R T}
    (hrequirement : SameRequirement tree result) (hchildren : CoversAll tree.children result.children) :
    Covers tree result := by
  intro chain h
  cases chain with
  | nil => exact ⟨[], trivial, rfl, hrequirement⟩
  | cons child chain =>
    obtain ⟨hchild, hchain⟩ := h
    obtain ⟨child', hchild', hname, hcovers⟩ := hchildren child hchild
    obtain ⟨chain', hchain', hnames, hsame⟩ := hcovers chain hchain
    refine ⟨child' :: chain', ⟨hchild', hchain'⟩, by simp [hname, hnames], ?_⟩
    simpa only [List.getLastD_cons] using hsame

/-! ## Merging one node -/

variable [DecidableEq Target]

/-- Nodes are merged only if they agree on everything but their children and executors. -/
theorem validateCompatible_eq_ok {existing incoming : CommandTree R Target}
    (h : existing.validateCompatible incoming = .ok ()) :
    existing.data = incoming.data ∧ existing.requirement = incoming.requirement ∧
      existing.executionRequirement = incoming.executionRequirement ∧ existing.redirect = incoming.redirect := by
  unfold validateCompatible at h
  split at h
  · simp at h
  · rename_i hdata
    have heq : ∀ {a b : CommandRequirement}, a.isCompatibleWith b = true → a = b := by
      intro a b hab
      cases a
      cases b
      simp_all [CommandRequirement.isCompatibleWith]
    split at h
    · simp at h
    · rename_i hrequirement
      split at h
      · simp at h
      · rename_i hexecution
        split at h
        · simp at h
        · rename_i hredirect
          exact ⟨CommandNodeData.eq_of_collisionWith hdata, heq (not_not.mp hrequirement), heq (not_not.mp hexecution),
            not_not.mp hredirect⟩

/-- A merged node is the existing one, with the children and the executor of both. -/
structure Merged (existing incoming merged : CommandTree R Target) : Prop where
  data : existing.data = incoming.data
  requirement : existing.requirement = incoming.requirement
  executionRequirement : existing.executionRequirement = incoming.executionRequirement
  result : merged = { existing with executor := incoming.executor <|> existing.executor, children := merged.children }
  children : mergeChildren incoming.children existing.children = .ok merged.children

theorem mergeInto_eq_ok {existing incoming merged : CommandTree R Target}
    (h : incoming.mergeInto existing = .ok merged) : Merged existing incoming merged := by
  obtain ⟨data, children, executor, requirement, executionRequirement, redirect⟩ := incoming
  simp only [mergeInto, bind_eq_ok] at h
  obtain ⟨⟨⟩, hvalid, children', hchildren, hmerged⟩ := h
  obtain ⟨hdata, hrequirement, hexecution, -⟩ := validateCompatible_eq_ok hvalid
  cases hmerged
  exact ⟨hdata, hrequirement, hexecution, rfl, hchildren⟩

theorem redirect_mergeInto {existing incoming merged : CommandTree R Target} (h : incoming.mergeInto existing = .ok merged) :
    existing.redirect = incoming.redirect := by
  obtain ⟨data, children, executor, requirement, executionRequirement, redirect⟩ := incoming
  simp only [mergeInto, bind_eq_ok] at h
  obtain ⟨⟨⟩, hvalid, -⟩ := h
  exact (validateCompatible_eq_ok hvalid).2.2.2

theorem Merged.name_eq {existing incoming merged : CommandTree R Target} (h : Merged existing incoming merged) :
    merged.name = existing.name := by
  rw [h.result]
  rfl

/-! ## Merging into a list of nodes -/

section
variable {mergeInto : CommandTree R Target → Except RegistrationErrorKind (CommandTree R Target)}
  {incoming : CommandTree R Target} {nodes results : List (CommandTree R Target)}
omit [DecidableEq Target]

theorem forall_mergeOrPush {good : CommandTree R Target → Prop} (hincoming : good incoming)
    (hnodes : ∀ node ∈ nodes, good node)
    (hmerge : ∀ node merged, good node → mergeInto node = .ok merged → good merged)
    (h : mergeOrPush mergeInto incoming nodes = .ok results) : ∀ node ∈ results, good node := by
  induction nodes generalizing results with
  | nil =>
    cases h
    simpa using hincoming
  | cons node nodes ih =>
    obtain ⟨hnode, hnodes⟩ := List.forall_mem_cons.mp hnodes
    simp only [mergeOrPush] at h
    split at h
    · obtain ⟨merged, hmerged, hresults⟩ := bind_eq_ok.mp h
      cases hresults
      exact List.forall_mem_cons.mpr ⟨hmerge node merged hnode hmerged, hnodes⟩
    · obtain ⟨rest, hrest, hresults⟩ := bind_eq_ok.mp h
      cases hresults
      exact List.forall_mem_cons.mpr ⟨hnode, ih hnodes hrest⟩

theorem names_mergeOrPush (hmerge : ∀ node merged, mergeInto node = .ok merged → merged.name = node.name)
    (h : mergeOrPush mergeInto incoming nodes = .ok results) :
    results.map name = if incoming.name ∈ nodes.map name then nodes.map name else nodes.map name ++ [incoming.name] := by
  induction nodes generalizing results with
  | nil =>
    cases h
    simp
  | cons node nodes ih =>
    simp only [mergeOrPush] at h
    split at h
    · rename_i hname
      obtain ⟨merged, hmerged, hresults⟩ := bind_eq_ok.mp h
      cases hresults
      simp [hmerge node merged hmerged, hname]
    · rename_i hname
      obtain ⟨rest, hrest, hresults⟩ := bind_eq_ok.mp h
      cases hresults
      simp only [List.map_cons, ih hrest, List.mem_cons, Ne.symm hname, false_or]
      split <;> simp

theorem nodup_mergeOrPush (hmerge : ∀ node merged, mergeInto node = .ok merged → merged.name = node.name)
    (hnodes : (nodes.map name).Nodup) (h : mergeOrPush mergeInto incoming nodes = .ok results) :
    (results.map name).Nodup := by
  rw [names_mergeOrPush hmerge h]
  split
  · exact hnodes
  · rename_i hnew
    apply List.nodup_append.mpr
    refine ⟨hnodes, by simp, ?_⟩
    simp only [List.mem_singleton]
    rintro a ha b rfl rfl
    exact hnew ha

theorem coversAll_mergeOrPush (hmerge : ∀ node merged, mergeInto node = .ok merged →
      merged.name = node.name ∧ Covers node merged ∧ Covers incoming merged)
    (h : mergeOrPush mergeInto incoming nodes = .ok results) : CoversAll (incoming :: nodes) results := by
  induction nodes generalizing results with
  | nil =>
    cases h
    exact .refl _
  | cons node nodes ih =>
    simp only [mergeOrPush] at h
    split at h
    · rename_i hname
      obtain ⟨merged, hmerged, hresults⟩ := bind_eq_ok.mp h
      cases hresults
      obtain ⟨hsame, hnode, hincoming⟩ := hmerge node merged hmerged
      intro other hother
      rcases List.mem_cons.mp hother with rfl | hother
      · exact ⟨merged, List.mem_cons_self, hsame.trans hname, hincoming⟩
      · rcases List.mem_cons.mp hother with rfl | hother
        · exact ⟨merged, List.mem_cons_self, hsame, hnode⟩
        · exact ⟨other, List.mem_cons_of_mem _ hother, rfl, .refl other⟩
    · obtain ⟨rest, hrest, hresults⟩ := bind_eq_ok.mp h
      cases hresults
      have hrest := ih hrest
      intro other hother
      by_cases hnode : other = node
      · subst hnode
        exact ⟨other, List.mem_cons_self, rfl, .refl other⟩
      · have hmem : other ∈ incoming :: nodes := by
          simp only [List.mem_cons] at hother ⊢
          tauto
        obtain ⟨result, hresult, hcovers⟩ := hrest other hmem
        exact ⟨result, List.mem_cons_of_mem _ hresult, hcovers⟩

end

/-! ## Merging trees -/

section
variable {incoming nodes results : List (CommandTree R Target)}

theorem forall_mergeChildren {good : CommandTree R Target → Prop} (hincoming : ∀ child ∈ incoming, good child)
    (hnodes : ∀ node ∈ nodes, good node)
    (hmerge : ∀ child ∈ incoming, ∀ node merged, good child → good node → child.mergeInto node = .ok merged → good merged)
    (h : mergeChildren incoming nodes = .ok results) : ∀ node ∈ results, good node := by
  induction incoming generalizing nodes with
  | nil =>
    cases h
    exact hnodes
  | cons child incoming ih =>
    simp only [mergeChildren] at h
    obtain ⟨next, hnext, h⟩ := bind_eq_ok.mp h
    obtain ⟨hchild, hincoming⟩ := List.forall_mem_cons.mp hincoming
    obtain ⟨hmergeChild, hmerge⟩ := List.forall_mem_cons.mp hmerge
    apply ih hincoming _ hmerge h
    exact forall_mergeOrPush hchild hnodes (fun node merged hnode => hmergeChild node merged hchild hnode) hnext

theorem nodup_mergeChildren (hnodes : (nodes.map name).Nodup) (h : mergeChildren incoming nodes = .ok results) :
    (results.map name).Nodup := by
  induction incoming generalizing nodes with
  | nil =>
    cases h
    exact hnodes
  | cons child incoming ih =>
    simp only [mergeChildren] at h
    obtain ⟨next, hnext, h⟩ := bind_eq_ok.mp h
    exact ih (nodup_mergeOrPush (fun node merged hm => (mergeInto_eq_ok hm).name_eq) hnodes hnext) h

theorem coversAll_mergeChildren (hmerge : ∀ child ∈ incoming, ∀ node merged, child.mergeInto node = .ok merged →
      Covers node merged ∧ Covers child merged)
    (h : mergeChildren incoming nodes = .ok results) : CoversAll incoming results ∧ CoversAll nodes results := by
  induction incoming generalizing nodes with
  | nil =>
    cases h
    exact ⟨by simp [CoversAll], .refl _⟩
  | cons child incoming ih =>
    simp only [mergeChildren] at h
    obtain ⟨next, hnext, h⟩ := bind_eq_ok.mp h
    obtain ⟨hmergeChild, hmerge⟩ := List.forall_mem_cons.mp hmerge
    obtain ⟨hincoming, hrest⟩ := ih hmerge h
    have hcovers : CoversAll (child :: nodes) next := coversAll_mergeOrPush
      (fun node merged hm => ⟨(mergeInto_eq_ok hm).name_eq, hmergeChild node merged hm⟩) hnext
    have hall := hcovers.trans hrest
    refine ⟨List.forall_mem_cons.mpr ⟨hall child List.mem_cons_self, hincoming⟩, ?_⟩
    exact fun node hnode => hall node (List.mem_cons_of_mem _ hnode)

end

theorem distinct_mergeInto (incoming : CommandTree R Target) : ∀ existing merged : CommandTree R Target,
    Distinct incoming → Distinct existing → incoming.mergeInto existing = .ok merged → Distinct merged := by
  induction incoming using induct with
  | node incoming ih =>
    intro existing merged hincoming hexisting h
    have hmerged := mergeInto_eq_ok h
    cases hincoming with
    | node _ hincoming =>
      cases hexisting with
      | node hnames hexisting =>
        refine .node (nodup_mergeChildren hnames hmerged.children) ?_
        exact forall_mergeChildren hincoming hexisting
          (fun child hchild node merged hc hn => ih child hchild node merged hc hn) hmerged.children

theorem covers_mergeInto (incoming : CommandTree R Target) : ∀ existing merged : CommandTree R Target,
    incoming.mergeInto existing = .ok merged → Covers existing merged ∧ Covers incoming merged := by
  induction incoming using induct with
  | node incoming ih =>
    intro existing merged h
    have hmerged := mergeInto_eq_ok h
    obtain ⟨hincoming, hexisting⟩ := coversAll_mergeChildren ih hmerged.children
    have hrequirement : merged.requirement = existing.requirement := by rw [hmerged.result]
    constructor
    · exact .node (by rw [SameRequirement, hrequirement]) hexisting
    · exact .node (by rw [SameRequirement, hrequirement, hmerged.requirement]) hincoming

theorem secure_mergeInto [CommandPermissionSource S] {granted : List Text → S → Prop} (incoming : CommandTree R Target) :
    ∀ (route : List Text) (reached : S → Prop) (existing merged : CommandTree R Target),
      Secure granted route reached incoming → Secure granted route reached existing →
      incoming.mergeInto existing = .ok merged → Secure granted route reached merged := by
  induction incoming using induct with
  | node incoming ih =>
    intro route reached existing merged hincoming hexisting h
    have hmerged := mergeInto_eq_ok h
    cases hincoming with
    | node hownIncoming hincoming =>
      cases hexisting with
      | node hownExisting hexisting =>
        rw [hmerged.result]
        refine .node ?_ ?_
        · intro hexecutor source hreached hallows hexecutes
          dsimp only at hexecutor hallows hexecutes
          cases hi : incoming.executor with
          | none => exact hownExisting (by simpa [hi] using hexecutor) source hreached hallows hexecutes
          | some executor =>
            apply hownIncoming (by simp [hi]) source hreached
            · rwa [← hmerged.requirement]
            · rwa [← hmerged.executionRequirement]
        · rw [← hmerged.requirement] at hincoming
          let good := fun child : CommandTree R Target => Secure granted (route ++ child.data.literals)
            (fun source => reached source ∧ existing.requirement.allows source) child
          have hmerge : ∀ child ∈ incoming.children, ∀ node next, good child → good node →
              child.mergeInto node = .ok next → good next := by
            intro child hchild node next hc hn hm
            have hnext := mergeInto_eq_ok hm
            have hdata : next.data = child.data := by rw [hnext.result, ← hnext.data]
            have hn : Secure granted (route ++ child.data.literals)
              (fun source => reached source ∧ existing.requirement.allows source) node := hnext.data ▸ hn
            have := ih child hchild _ _ node next hc hn hm
            rwa [← hdata] at this
          exact forall_mergeChildren hincoming hexisting hmerge hmerged.children

/-! ## Normalized trees -/

theorem normalize_eq_ok {tree result : CommandTree R Target} (h : tree.normalize = .ok result) :
    normalizeChildren tree.children [] = .ok result.children ∧ result = { tree with children := result.children } := by
  obtain ⟨data, children, executor, requirement, executionRequirement, redirect⟩ := tree
  simp only [normalize] at h
  obtain ⟨children', hchildren, h⟩ := bind_eq_ok.mp h
  split at h
  · simp at h
  · cases h
    exact ⟨hchildren, rfl⟩

theorem leaf_normalize {tree result : CommandTree R Target} (h : tree.normalize = .ok result) (hredirect : result.redirect.isSome) :
    result.children = [] := by
  obtain ⟨data, children, executor, requirement, executionRequirement, redirect⟩ := tree
  simp only [normalize] at h
  obtain ⟨children', -, h⟩ := bind_eq_ok.mp h
  split at h
  · simp at h
  · rename_i hleaf
    cases h
    by_contra hchildren
    exact hleaf ⟨hredirect, hchildren⟩

section
variable {children nodes results : List (CommandTree R Target)}

theorem forall_normalizeChildren {good : CommandTree R Target → Prop}
    (hchildren : ∀ child ∈ children, ∀ result, child.normalize = .ok result → good result)
    (hnodes : ∀ node ∈ nodes, good node)
    (hmerge : ∀ incoming node merged, good incoming → good node → incoming.mergeInto node = .ok merged → good merged)
    (h : normalizeChildren children nodes = .ok results) : ∀ node ∈ results, good node := by
  induction children generalizing nodes with
  | nil =>
    cases h
    exact hnodes
  | cons child children ih =>
    simp only [normalizeChildren] at h
    obtain ⟨incoming, hincoming, h⟩ := bind_eq_ok.mp h
    obtain ⟨next, hnext, h⟩ := bind_eq_ok.mp h
    obtain ⟨hchild, hchildren⟩ := List.forall_mem_cons.mp hchildren
    apply ih hchildren _ h
    have hgood := hchild incoming hincoming
    exact forall_mergeOrPush hgood hnodes (fun node merged hnode => hmerge incoming node merged hgood hnode) hnext

theorem nodup_normalizeChildren (hnodes : (nodes.map name).Nodup) (h : normalizeChildren children nodes = .ok results) :
    (results.map name).Nodup := by
  induction children generalizing nodes with
  | nil =>
    cases h
    exact hnodes
  | cons child children ih =>
    simp only [normalizeChildren] at h
    obtain ⟨incoming, -, h⟩ := bind_eq_ok.mp h
    obtain ⟨next, hnext, h⟩ := bind_eq_ok.mp h
    exact ih (nodup_mergeOrPush (fun node merged hm => (mergeInto_eq_ok hm).name_eq) hnodes hnext) h

theorem coversAll_normalizeChildren
    (hchildren : ∀ child ∈ children, ∀ result, child.normalize = .ok result → Covers child result)
    (h : normalizeChildren children nodes = .ok results) : CoversAll children results ∧ CoversAll nodes results := by
  induction children generalizing nodes with
  | nil =>
    cases h
    exact ⟨by simp [CoversAll], .refl _⟩
  | cons child children ih =>
    simp only [normalizeChildren] at h
    obtain ⟨incoming, hincoming, h⟩ := bind_eq_ok.mp h
    obtain ⟨next, hnext, h⟩ := bind_eq_ok.mp h
    obtain ⟨hchild, hchildren⟩ := List.forall_mem_cons.mp hchildren
    obtain ⟨hrest, hnext'⟩ := ih hchildren h
    have hmerge : CoversAll (incoming :: nodes) next := coversAll_mergeOrPush
      (fun node merged hm => ⟨(mergeInto_eq_ok hm).name_eq, covers_mergeInto incoming node merged hm⟩) hnext
    have hall := hmerge.trans hnext'
    refine ⟨List.forall_mem_cons.mpr ⟨?_, hrest⟩, fun node hnode => hall node (List.mem_cons_of_mem _ hnode)⟩
    obtain ⟨result, hresult, hname, hcovers⟩ := hall incoming List.mem_cons_self
    refine ⟨result, hresult, ?_, (hchild incoming hincoming).trans hcovers⟩
    rw [hname, (normalize_eq_ok hincoming).2]
    rfl

end

theorem distinct_normalize (tree : CommandTree R Target) : ∀ result, tree.normalize = .ok result → Distinct result := by
  induction tree using induct with
  | node tree ih =>
    intro result h
    obtain ⟨hchildren, -⟩ := normalize_eq_ok h
    refine .node (nodup_normalizeChildren (by simp) hchildren) ?_
    exact forall_normalizeChildren ih (by simp) distinct_mergeInto hchildren

theorem covers_normalize (tree : CommandTree R Target) : ∀ result, tree.normalize = .ok result → Covers tree result := by
  induction tree using induct with
  | node tree ih =>
    intro result h
    obtain ⟨hchildren, hresult⟩ := normalize_eq_ok h
    refine .node ?_ (coversAll_normalizeChildren ih hchildren).1
    rw [SameRequirement, hresult]

theorem secure_normalize [CommandPermissionSource S] {granted : List Text → S → Prop} (tree : CommandTree R Target) :
    ∀ (route : List Text) (reached : S → Prop) (result : CommandTree R Target), Secure granted route reached tree →
      tree.normalize = .ok result → Secure granted route reached result := by
  induction tree using induct with
  | node tree ih =>
    intro route reached result hsecure h
    obtain ⟨hchildren, hresult⟩ := normalize_eq_ok h
    cases hsecure with
    | node hown hsecure =>
      rw [hresult]
      refine .node hown ?_
      let good := fun child : CommandTree R Target => Secure granted (route ++ child.data.literals)
        (fun source => reached source ∧ tree.requirement.allows source) child
      have hgood : ∀ child ∈ tree.children, ∀ next, child.normalize = .ok next → good next := by
        intro child hchild next hnext
        have hdata : next.data = child.data := by rw [(normalize_eq_ok hnext).2]
        have := ih child hchild _ _ next (hsecure child hchild) hnext
        rwa [← hdata] at this
      have hmerge : ∀ incoming node next, good incoming → good node → incoming.mergeInto node = .ok next →
          good next := by
        intro incoming node next hi hn hm
        have hnext := mergeInto_eq_ok hm
        have hdata : next.data = incoming.data := by rw [hnext.result, ← hnext.data]
        have hn : Secure granted (route ++ incoming.data.literals)
          (fun source => reached source ∧ tree.requirement.allows source) node := hnext.data ▸ hn
        have := secure_mergeInto incoming _ _ node next hi hn hm
        rwa [← hdata] at this
      exact forall_normalizeChildren hgood (by simp) hmerge hchildren

end Foton.Brigadier.CommandTree
