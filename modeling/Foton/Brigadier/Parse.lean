import Foton.Brigadier.Register

/-!
# What a parse has passed

A parse reaches a node only if every node on the way to it, itself included,
allows the source, also where a redirect leads back to the dispatcher or to the
command's own root. It always ends: every call of it has read a character.
-/

namespace Foton.Brigadier.CommandDispatcher

open CommandTree

variable {S : Type} [CommandPermissionSource S] {R : CommandRuntime S}

/-- Every node of a path allows the source. -/
def Admits (source : S) : List (CommandNode R) → NodeId → Prop
  | _, [] => True
  | nodes, name :: path => ∃ node, findChild nodes name = some node ∧ node.requirement.allows source ∧
      Admits source node.children path

/-- Siblings have their own names, and a tree redirects to the dispatcher's root or to its own. -/
structure WellFormed (dispatcher : CommandDispatcher R) : Prop where
  names : (dispatcher.roots.map name).Nodup
  distinct : ∀ root ∈ dispatcher.roots, Distinct root
  redirects : ∀ root ∈ dispatcher.roots, RedirectsTo (fun target => target = [] ∨ target = [root.name]) root

/-! ## Paths -/

section
omit [CommandPermissionSource S]

theorem mem_of_findChild {nodes : List (CommandNode R)} {name : Text} {node : CommandNode R}
    (h : findChild nodes name = some node) : node ∈ nodes ∧ node.name = name :=
  ⟨List.mem_of_find?_eq_some h, by simpa using List.find?_some h⟩

theorem findChild_of_mem {nodes : List (CommandNode R)} {node : CommandNode R} (hnames : (nodes.map name).Nodup)
    (h : node ∈ nodes) : findChild nodes node.name = some node := by
  induction nodes with
  | nil => simp at h
  | cons first nodes ih =>
    obtain ⟨hfirst, hnames⟩ := List.nodup_cons.mp hnames
    rcases List.mem_cons.mp h with rfl | h
    · simp [findChild]
    · have hne : first.name ≠ node.name := by
        intro heq
        rw [heq] at hfirst
        exact hfirst (List.mem_map_of_mem h)
      have := ih hnames h
      simp only [findChild] at this
      simp [findChild, hne, this]

theorem node_concat (dispatcher : CommandDispatcher R) (path : NodeId) (name : Text) :
    dispatcher.node (path ++ [name]) = findChild (dispatcher.children path) name := by
  simp [node]

theorem childrenBelow_concat (nodes : List (CommandNode R)) (path : NodeId) (name : Text) :
    childrenBelow nodes (path ++ [name]) = match findChild (childrenBelow nodes path) name with
      | none => []
      | some node => node.children := by
  induction path generalizing nodes with
  | nil => rfl
  | cons first path ih =>
    simp only [List.cons_append, childrenBelow]
    split
    · rfl
    · exact ih _

theorem forall_childrenBelow {good : CommandNode R → Prop} (hgood : ∀ node child, good node → child ∈ node.children → good child)
    {nodes : List (CommandNode R)} (hnodes : ∀ node ∈ nodes, good node) (path : NodeId) :
    ∀ node ∈ childrenBelow nodes path, good node := by
  induction path generalizing nodes with
  | nil => exact hnodes
  | cons name path ih =>
    simp only [childrenBelow]
    split
    · simp
    · rename_i node hnode
      apply ih
      exact fun child hchild => hgood node child (hnodes node (mem_of_findChild hnode).1) hchild

theorem WellFormed.distinct_children {dispatcher : CommandDispatcher R} (h : dispatcher.WellFormed) (path : NodeId) :
    ((dispatcher.children path).map name).Nodup ∧ ∀ node ∈ dispatcher.children path, Distinct node := by
  have hchild : ∀ node child : CommandNode R, Distinct node → child ∈ node.children → Distinct child := by
    rintro node child ⟨-, hchildren⟩ hmem
    exact hchildren child hmem
  refine ⟨?_, forall_childrenBelow hchild h.distinct path⟩
  cases path using List.reverseRecOn with
  | nil => exact h.names
  | append_singleton path name =>
    simp only [children, childrenBelow_concat]
    split
    · simp
    · rename_i node hnode
      have hdistinct := forall_childrenBelow hchild h.distinct path node (mem_of_findChild hnode).1
      cases hdistinct with
      | node hnames _ => exact hnames

theorem WellFormed.redirect {dispatcher : CommandDispatcher R} (h : dispatcher.WellFormed) {path : NodeId}
    {child : CommandNode R} (hchild : child ∈ dispatcher.children path) {redirect : CommandRedirect R.Modifier NodeId}
    (hredirect : child.redirect = some redirect) :
    redirect.target = [] ∨ redirect.target = (path ++ [child.name]).take 1 := by
  cases path with
  | nil =>
    cases h.redirects child hchild with
    | node hown _ => exact hown redirect hredirect
  | cons name path =>
    simp only [children, childrenBelow] at hchild
    split at hchild
    · simp at hchild
    · rename_i root hroot
      obtain ⟨hmem, rfl⟩ := mem_of_findChild hroot
      have hroot : ∀ node ∈ root.children, RedirectsTo (fun target => target = [] ∨ target = [root.name]) node := by
        cases h.redirects root hmem with
        | node _ hchildren => exact hchildren
      have hbelow := forall_childrenBelow (fun node next hnode hnext => by
        cases hnode with
        | node _ hchildren => exact hchildren next hnext) hroot path child hchild
      cases hbelow with
      | node hown _ => exact hown redirect hredirect

end

theorem admits_concat {source : S} {nodes : List (CommandNode R)} {path : NodeId} {name : Text} :
    Admits source nodes (path ++ [name]) ↔ Admits source nodes path ∧
      ∃ node, findChild (childrenBelow nodes path) name = some node ∧ node.requirement.allows source := by
  induction path generalizing nodes with
  | nil => simp [Admits, childrenBelow]
  | cons first path ih =>
    simp only [List.cons_append, Admits, childrenBelow]
    constructor
    · rintro ⟨node, hnode, hallows, h⟩
      obtain ⟨hpath, hlast⟩ := ih.mp h
      exact ⟨⟨node, hnode, hallows, hpath⟩, by simpa [hnode] using hlast⟩
    · rintro ⟨⟨node, hnode, hallows, hpath⟩, hlast⟩
      exact ⟨node, hnode, hallows, ih.mpr ⟨hpath, by simpa [hnode] using hlast⟩⟩

theorem Admits.take_one {source : S} {nodes : List (CommandNode R)} {path : NodeId} (h : Admits source nodes path) :
    Admits source nodes (path.take 1) := by
  cases path with
  | nil => exact trivial
  | cons name path =>
    obtain ⟨node, hnode, hallows, -⟩ := h
    exact ⟨node, hnode, hallows, trivial⟩

/-! ## One step of a parse -/

section
omit [CommandPermissionSource S]

/-- The characters that are left to read. -/
def left (reader : StringReader) : Nat := reader.input.length - reader.position

theorem canRead_of_canReadLength {reader : StringReader} {length : Nat} (hpos : 0 < length)
    (h : reader.canReadLength length) : reader.position < reader.input.length := by
  by_contra hge
  have htake : reader.input.take reader.position = reader.input := List.take_of_length_le (by omega)
  have hle : utf16Length (reader.input.take reader.position) + length ≤ utf16Length reader.input := of_decide_eq_true h
  rw [htake] at hle
  omega

theorem left_skip_lt {reader : StringReader} {length : Nat} (hpos : 0 < length) (h : reader.canReadLength length) :
    left reader.skip < left reader := by
  have hlt := canRead_of_canReadLength hpos h
  simp only [left, StringReader.skip, StringReader.canRead, hlt, decide_true, if_true, StringReader.advance]
  omega

theorem left_tryReadLiteral {reader after : StringReader} {literal : Text}
    (h : reader.tryReadLiteral literal = some after) : left after ≤ left reader := by
  unfold StringReader.tryReadLiteral at h
  split at h
  · split at h
    · cases h
      simp only [left, StringReader.advance]
      omega
    · split at h
      · simp at h
      · cases h
        simp only [left, StringReader.advance]
        omega
  · simp at h

/-- A node that is parsed is the last node of the branch, and nothing that was read is given back. -/
theorem parseNode_eq_ok {id : NodeId} {child : CommandNode R} {reader after : StringReader}
    {context branch : ParsedCommandContext R} (h : parseNode id child reader context = .ok (after, branch)) :
    left after ≤ left reader ∧ branch.source = context.source ∧ branch.child = context.child ∧
      branch.nodes.getLast?.map Prod.fst = some id := by
  unfold parseNode at h
  split at h
  · split at h
    · simp at h
    · rename_i hread
      cases h
      exact ⟨left_tryReadLiteral hread, rfl, rfl, by simp [ParsedCommandContext.withNode]⟩
  · split at h
    · simp at h
    · cases h
      refine ⟨?_, rfl, rfl, by simp [ParsedCommandContext.withNode]⟩
      simp only [left, StringReader.advance]
      omega

theorem segments_eq (context : ParsedCommandContext R) : context.segments = context ::
    match context.child with
    | none => []
    | some child => child.segments := by
  obtain ⟨_, _, _, _, _, _, child, _, _⟩ := context
  cases child with
  | none => rw [ParsedCommandContext.segments]
  | some child => rw [ParsedCommandContext.segments]

theorem mem_relevantNodes {children : List (CommandNode R)} {reader : StringReader} {child : CommandNode R}
    (h : child ∈ relevantNodes children reader) : child ∈ children := by
  unfold relevantNodes at h
  dsimp only at h
  split at h
  · rename_i found hfind
    rw [List.mem_singleton.mp h]
    exact List.mem_of_find?_eq_some hfind
  · exact List.mem_of_mem_filter h

end

/-! ## Whole parses -/

/-- The executor of a parse context is that of its last node, which the source got to and may execute. -/
def Executes (dispatcher : CommandDispatcher R) (source : S) (segment : ParsedCommandContext R) : Prop :=
  segment.source = source ∧ ∀ executor, segment.executor = some executor →
    ∃ id node, segment.nodes.getLast?.map Prod.fst = some id ∧ dispatcher.node id = some node ∧
      node.executor = some executor ∧ node.executionRequirement.allows source ∧ Admits source dispatcher.roots id

/-- The results of a parse, with every one of their contexts. -/
def ExecutesAll (dispatcher : CommandDispatcher R) (source : S) (context : ParsedCommandContext R) : Prop :=
  ∀ segment ∈ context.segments, dispatcher.Executes source segment

section
variable {dispatcher : CommandDispatcher R} {source : S}

theorem executesAll_of_child_none {context : ParsedCommandContext R} (hchild : context.child = none)
    (h : dispatcher.Executes source context) : dispatcher.ExecutesAll source context := by
  intro segment hsegment
  rw [segments_eq, hchild] at hsegment
  rw [List.mem_singleton.mp hsegment]
  exact h

theorem executesAll_best {best : ParseResults R} {potentials : List (ParseResults R)}
    (hbest : dispatcher.ExecutesAll source best.context)
    (h : ∀ potential ∈ potentials, dispatcher.ExecutesAll source potential.context) :
    dispatcher.ExecutesAll source (potentials.foldl (fun best potential =>
      if isBetterParse potential best then potential else best) best).context := by
  induction potentials generalizing best with
  | nil => exact hbest
  | cons potential potentials ih =>
    obtain ⟨hpotential, hrest⟩ := List.forall_mem_cons.mp h
    rw [List.foldl_cons]
    apply ih _ hrest
    split
    · exact hpotential
    · exact hbest

variable (hwell : dispatcher.WellFormed)
include hwell

theorem parseChildren_spec {parse : NodeId → StringReader → ParsedCommandContext R → Option (ParseResults R)}
    {parent : NodeId} {reader : StringReader} {context : ParsedCommandContext R}
    (hparse : ∀ target after branch, left after < left reader → Admits source dispatcher.roots target →
      branch.child = none → dispatcher.Executes source branch →
      ∃ results, parse target after branch = some results ∧ dispatcher.ExecutesAll source results.context)
    (hparent : Admits source dispatcher.roots parent) (hchild : context.child = none)
    (hcontext : dispatcher.Executes source context) {children : List (CommandNode R)}
    (hchildren : ∀ child ∈ children, child ∈ dispatcher.children parent) :
    ∀ (errors : List (NodeId × CommandSyntaxError)) (potentials : List (ParseResults R)),
      (∀ potential ∈ potentials, dispatcher.ExecutesAll source potential.context) →
      ∃ results, parseChildren parse parent reader context children errors potentials = some results ∧
        dispatcher.ExecutesAll source results.context := by
  induction children with
  | nil =>
    intro errors potentials hpotentials
    cases potentials with
    | nil => exact ⟨_, rfl, executesAll_of_child_none hchild hcontext⟩
    | cons best potentials =>
      obtain ⟨hbest, hrest⟩ := List.forall_mem_cons.mp hpotentials
      exact ⟨_, rfl, executesAll_best hbest hrest⟩
  | cons child children ih =>
    intro errors potentials hpotentials
    obtain ⟨hmem, hchildren⟩ := List.forall_mem_cons.mp hchildren
    have ih := ih hchildren
    rw [parseChildren]
    dsimp only
    split
    · exact ih _ _ hpotentials
    · rename_i hallows
      rw [not_not, hcontext.1] at hallows
      have hfind := findChild_of_mem (hwell.distinct_children parent).1 hmem
      have hadmits : Admits source dispatcher.roots (parent ++ [child.name]) :=
        admits_concat.mpr ⟨hparent, child, hfind, hallows⟩
      split
      · exact ih _ _ hpotentials
      · rename_i after branch hnode
        obtain ⟨hleft, hsource, hbranch, hlast⟩ := parseNode_eq_ok hnode
        split
        · exact ih _ _ hpotentials
        · -- the branch ends at the child, with its executor if the source may execute it
          generalize hfinal : ({ branch with
            executor := if child.executionRequirement.allows branch.source then child.executor else none } :
              ParsedCommandContext R) = final
          have hexecutes : dispatcher.Executes source final := by
            rw [← hfinal]
            refine ⟨hsource.trans hcontext.1, fun executor hexecutor => ?_⟩
            rw [Option.ite_none_right_eq_some, hsource, hcontext.1] at hexecutor
            refine ⟨_, child, hlast, ?_, hexecutor.2, hexecutor.1, hadmits⟩
            rw [node_concat]
            exact hfind
          have hfinalChild : final.child = none := by
            rw [← hfinal]
            exact hbranch.trans hchild
          have hadd : ∀ results : ParseResults R, dispatcher.ExecutesAll source results.context →
              ∀ potential ∈ potentials ++ [results], dispatcher.ExecutesAll source potential.context := by
            intro results h potential hpotential
            rcases List.mem_append.mp hpotential with hold | hnew
            · exact hpotentials potential hold
            · rw [List.mem_singleton.mp hnew]
              exact h
          have hhere := executesAll_of_child_none hfinalChild hexecutes
          split
          · rename_i redirect hredirect
            split
            · rename_i hread
              have htarget : Admits source dispatcher.roots redirect.target := by
                rcases hwell.redirect hmem hredirect with h | h
                · rw [h]
                  exact trivial
                · rw [h]
                  exact hadmits.take_one
              obtain ⟨results, hresults, hall⟩ := hparse redirect.target after.skip
                (.new branch.source redirect.target after.skip.cursor)
                (Nat.lt_of_lt_of_le (left_skip_lt Nat.one_pos hread) hleft) htarget rfl
                ⟨hsource.trans hcontext.1, fun executor h => by simp [ParsedCommandContext.new] at h⟩
              simp only [hresults, Option.bind_eq_bind, Option.bind_some]
              refine ⟨_, rfl, fun segment hsegment => ?_⟩
              rw [segments_eq] at hsegment
              rcases List.mem_cons.mp hsegment with rfl | hsegment
              · rw [← hfinal] at hexecutes
                exact hexecutes
              · exact hall segment hsegment
            · exact ih _ _ (hadd _ hhere)
          · split
            · rename_i hread
              obtain ⟨results, hresults, hall⟩ := hparse _ after.skip _
                (Nat.lt_of_lt_of_le (left_skip_lt Nat.two_pos hread) hleft) hadmits hfinalChild hexecutes
              simp only [hresults, Option.bind_eq_bind, Option.bind_some]
              exact ih _ _ (hadd _ hall)
            · exact ih _ _ (hadd _ hhere)

theorem parseNodes_spec (fuel : Nat) : ∀ (parent : NodeId) (reader : StringReader) (context : ParsedCommandContext R),
    left reader < fuel → Admits source dispatcher.roots parent → context.child = none →
    dispatcher.Executes source context →
    ∃ results, dispatcher.parseNodes fuel parent reader context = some results ∧
      dispatcher.ExecutesAll source results.context := by
  induction fuel with
  | zero => intro parent reader context h; omega
  | succ fuel ih =>
    intro parent reader context hfuel hparent hchild hcontext
    rw [parseNodes]
    apply parseChildren_spec hwell _ hparent hchild hcontext (fun child h => mem_relevantNodes h) _ _ (by simp)
    intro target after branch hleft
    exact ih target after branch (by omega)

theorem parse_spec (input : Text) (source : S) :
    ∃ results, dispatcher.parse input source = some results ∧ dispatcher.ExecutesAll source results.context := by
  apply parseNodes_spec hwell
  · simp [left, StringReader.new]
  · exact trivial
  · rfl
  · exact ⟨rfl, fun executor h => by simp [ParsedCommandContext.new] at h⟩

end

end Foton.Brigadier.CommandDispatcher
