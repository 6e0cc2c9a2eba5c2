import Foton.Brigadier.Arena.Tried
import Foton.Lib.Fallible

/-!
# What a parse has passed in the arena

A parse is made of children that took their part one after the other. Its nodes
allow the source, its executors may be executed by it, and its ranges follow
each other with one space between them.
-/

namespace Foton.Brigadier.Arena.CommandDispatcher

variable {S : Type} {R : CommandRuntime S} {d : CommandDispatcher R} {parent id : NodeId} {child : CommandNode R}
  {reader after : StringReader} {context branch : ParsedCommandContext R} {results : ParseResults R}
  {children : List (NodeId × CommandNode R)}

/-! ## Children -/

theorem Shaped.childNodes_isSome (h : d.Shaped) (parent : NodeId) : (d.childNodes parent).isSome := by
  unfold childNodes
  split
  · rfl
  · rename_i node hnode
    refine isSome_mapM fun id hmem => ?_
    have hlt := (h.child (node_eq_some.mp hnode).2 hmem).2.1
    rw [List.getElem?_eq_getElem hlt]
    rfl

theorem Shaped.node_of_childNodes (h : d.Shaped) (hchildren : d.childNodes parent = some children) (hmem : (id, child) ∈ children) :
    d.node id = some child := by
  unfold childNodes at hchildren
  split at hchildren
  · cases hchildren
    cases hmem
  · rename_i node hnode
    obtain ⟨given, hgiven, hentry⟩ := exists_of_mem_mapM hchildren hmem
    obtain ⟨found, hfound, heq⟩ := Option.map_eq_some_iff.mp hentry
    cases heq
    exact node_eq_some.mpr ⟨(h.child (node_eq_some.mp hnode).2 hgiven).1, hfound⟩

theorem mem_relevantNodes {entry : NodeId × CommandNode R} (h : entry ∈ relevantNodes children reader) :
    entry ∈ children ∧ entry.2.data.isSome := by
  unfold relevantNodes at h
  dsimp only at h
  split at h
  · rename_i found hfound
    rw [List.mem_singleton.mp h]
    refine ⟨List.mem_of_find?_eq_some hfound, ?_⟩
    have hliteral := List.find?_some hfound
    rw [decide_eq_true_eq] at hliteral
    unfold CommandNode.literalName at hliteral
    split at hliteral
    · rename_i hdata
      rw [hdata]
      rfl
    · cases hliteral
  · obtain ⟨hmem, hargument⟩ := List.mem_filter.mp h
    refine ⟨hmem, ?_⟩
    unfold CommandNode.isArgument at hargument
    split at hargument
    · rename_i hdata
      rw [hdata]
      rfl
    · cases hargument

section
variable [CommandPermissionSource S] {parse parse' : NodeId → StringReader → ParsedCommandContext R → Option (ParseResults R)}

/-! ## Recursion -/

theorem parseChild_congr (h : ∀ id next branch, reader.Before next → parse id next branch = parse' id next branch) (id : NodeId)
    (child : CommandNode R) : parseChild parse reader context id child = parseChild parse' reader context id child := by
  unfold parseChild
  split
  · rfl
  · rename_i hallows
    rw [not_not] at hallows
    split
    · rfl
    · rfl
    · rename_i after branch hnode
      split
      · rfl
      · rename_i hseparator
        have htakes : Takes context.source child reader after :=
          ⟨hallows, (parseNode_eq_ok hnode).1, separator_of_not hseparator⟩
        dsimp only
        split
        · split
          · rename_i hmore
            have hlt := Brigadier.CommandDispatcher.canRead_of_canReadLength Nat.two_pos hmore
            rw [h _ _ _ (htakes.before (decide_eq_true hlt))]
          · rfl
        · rfl
        · split
          · rename_i hmore
            rw [h _ _ _ (htakes.before (StringReader.canReadLength_one ▸ hmore))]
          · rfl

theorem parseChildren_congr (h : ∀ id next branch, reader.Before next → parse id next branch = parse' id next branch) :
    ∀ errors potentials, parseChildren parse reader context children errors potentials =
      parseChildren parse' reader context children errors potentials := by
  induction children with
  | nil =>
    intro errors potentials
    cases potentials <;> rfl
  | cons entry children ih =>
    intro errors potentials
    rw [parseChildren, parseChildren, parseChild_congr h]
    simp only [ih]

theorem parseNodes_fuel (fuel : Nat) : ∀ (fuel' : Nat) (parent : NodeId) (reader : StringReader) (context : ParsedCommandContext R),
    Brigadier.CommandDispatcher.left reader < fuel → Brigadier.CommandDispatcher.left reader < fuel' →
      d.parseNodes fuel parent reader context = d.parseNodes fuel' parent reader context := by
  induction fuel with
  | zero =>
    intro fuel' parent reader context h
    omega
  | succ fuel ih =>
    intro fuel' parent reader context h h'
    cases fuel' with
    | zero => omega
    | succ fuel' =>
      rw [parseNodes, parseNodes]
      split
      · rfl
      · apply parseChildren_congr
        intro id next branch hbefore
        have hlt := hbefore.left_lt
        apply ih fuel' <;> omega

theorem parseChildren_isSome (hchild : ∀ entry ∈ children, (parseChild parse reader context entry.1 entry.2).isSome) :
    ∀ errors potentials, (parseChildren parse reader context children errors potentials).isSome := by
  induction children with
  | nil =>
    intro errors potentials
    cases potentials <;> rfl
  | cons entry children ih =>
    intro errors potentials
    rw [List.forall_mem_cons] at hchild
    obtain ⟨attempt, hattempt⟩ := Option.isSome_iff_exists.mp hchild.1
    rw [parseChildren, hattempt]
    cases attempt with
    | denied => exact ih hchild.2 _ _
    | failed error => exact ih hchild.2 _ _
    | potential results => exact ih hchild.2 _ _
    | returned results => rfl

theorem Sound.parseNodes_isSome (h : d.Sound) (fuel : Nat) : ∀ (parent : NodeId) (reader : StringReader) (context : ParsedCommandContext R),
    Brigadier.CommandDispatcher.left reader < fuel → (d.parseNodes fuel parent reader context).isSome := by
  induction fuel with
  | zero =>
    intro parent reader context hfuel
    omega
  | succ fuel ih =>
    intro parent reader context hfuel
    obtain ⟨children, hchildren⟩ := Option.isSome_iff_exists.mp (h.shaped.childNodes_isSome parent)
    rw [parseNodes, hchildren]
    refine parseChildren_isSome (fun entry hmem => ?_) [] []
    obtain ⟨hmem, hdata⟩ := mem_relevantNodes hmem
    have hnode := h.shaped.node_of_childNodes hchildren hmem
    refine parseChild_isSome hdata ?_ ?_
    · intro redirect hredirect
      obtain ⟨target, htarget, -⟩ := h.redirects (List.mem_of_getElem? (node_eq_some.mp hnode).2) hredirect
      exact ⟨target, htarget⟩
    · intro id next branch hbefore
      have hlt := hbefore.left_lt
      exact ih id next branch (by omega)

/-! ## The steps of a parse -/

/-- The results of a parse below `parent`. -/
inductive Parses (d : CommandDispatcher R) : NodeId → StringReader → ParsedCommandContext R → ParseResults R → Prop
  | stop (parent : NodeId) (reader : StringReader) (context : ParsedCommandContext R) (errors : List (NodeId × CommandSyntaxError)) :
    Parses d parent reader context ⟨context, reader, errors⟩
  | last {parent id : NodeId} {child : CommandNode R} {reader after : StringReader} {context branch : ParsedCommandContext R}
    (here : d.node id = some child) (took : Took id child reader context after branch) : Parses d parent reader context ⟨branch, after, []⟩
  | down {parent id : NodeId} {child : CommandNode R} {reader after : StringReader} {context branch : ParsedCommandContext R}
    {results : ParseResults R} (here : d.node id = some child) (took : Took id child reader context after branch) (more : after.canRead)
    (rest : Parses d id after.skip branch results) : Parses d parent reader context results
  | redirect {parent id target : NodeId} {child : CommandNode R} {reader after : StringReader} {context branch : ParsedCommandContext R}
    {results : ParseResults R} (here : d.node id = some child) (took : Took id child reader context after branch) (more : after.canRead)
    (rest : Parses d target after.skip (.new branch.source target after.skip.cursor) results) :
    Parses d parent reader context { results with context := { branch with child := some results.context } }

omit [CommandPermissionSource S] in
theorem best_mem (best : ParseResults R) (potentials : List (ParseResults R)) :
    potentials.foldl (fun best potential => if isBetterParse potential best then potential else best) best ∈ best :: potentials := by
  induction potentials generalizing best with
  | nil => exact List.mem_singleton_self best
  | cons potential potentials ih =>
    rw [List.foldl_cons]
    split
    · exact List.mem_cons_of_mem _ (ih potential)
    · rcases List.mem_cons.mp (ih best) with heq | hmem
      · rw [heq]
        exact List.mem_cons_self
      · exact List.mem_cons_of_mem _ (List.mem_cons_of_mem _ hmem)

theorem Tried.parses (hparse : ∀ id next branch results, parse id next branch = some results → Parses d id next branch results)
    (hnode : d.node id = some child) {attempt : Attempt R} (h : Tried parse reader context id child attempt) (parent : NodeId) :
    ∀ results, attempt = .potential results ∨ attempt = .returned results → Parses d parent reader context results := by
  have hread : ∀ {after : StringReader} {length : Nat}, 0 < length → after.canReadLength length = true → after.canRead = true :=
    fun hpos hmore => decide_eq_true (Brigadier.CommandDispatcher.canRead_of_canReadLength hpos hmore)
  intro results hresults
  cases h with
  | denied => simp at hresults
  | failed => simp at hresults
  | last took more =>
    rcases hresults with heq | heq
    · cases heq
      exact .last hnode took
    · cases heq
  | down took more stays rest =>
    rcases hresults with heq | heq
    · cases heq
      exact .down hnode took (hread Nat.two_pos more) (hparse _ _ _ _ rest)
    · cases heq
  | redirect took more leaves leads rest =>
    rcases hresults with heq | heq
    · cases heq
    · cases heq
      exact .redirect hnode took (hread Nat.one_pos more) (hparse _ _ _ _ rest)

theorem parseChildren_parses (hparse : ∀ id next branch results, parse id next branch = some results → Parses d id next branch results)
    (hchildren : ∀ entry ∈ children, d.node entry.1 = some entry.2) : ∀ errors potentials,
    (∀ potential ∈ potentials, Parses d parent reader context potential) →
      ∀ results, parseChildren parse reader context children errors potentials = some results → Parses d parent reader context results := by
  induction children with
  | nil =>
    intro errors potentials hpotentials results hresults
    cases potentials with
    | nil =>
      cases hresults
      exact .stop parent reader context errors
    | cons best potentials =>
      cases hresults
      exact hpotentials _ (best_mem best potentials)
  | cons entry children ih =>
    intro errors potentials hpotentials results hresults
    rw [List.forall_mem_cons] at hchildren
    rw [parseChildren] at hresults
    split at hresults
    · cases hresults
    · exact ih hchildren.2 _ _ hpotentials results hresults
    · exact ih hchildren.2 _ _ hpotentials results hresults
    · rename_i found hattempt
      refine ih hchildren.2 _ _ ?_ results hresults
      intro potential hmem
      rcases List.mem_append.mp hmem with hold | hnew
      · exact hpotentials potential hold
      · rw [List.mem_singleton.mp hnew]
        exact (parseChild_tried hattempt).parses hparse hchildren.1 parent found (Or.inl rfl)
    · rename_i found hattempt
      cases hresults
      exact (parseChild_tried hattempt).parses hparse hchildren.1 parent results (Or.inr rfl)

theorem Shaped.parseNodes_parses (h : d.Shaped) (fuel : Nat) : ∀ (parent : NodeId) (reader : StringReader) (context : ParsedCommandContext R)
    (results : ParseResults R), d.parseNodes fuel parent reader context = some results → Parses d parent reader context results := by
  induction fuel with
  | zero =>
    intro parent reader context results hresults
    cases hresults
  | succ fuel ih =>
    intro parent reader context results hresults
    rw [parseNodes] at hresults
    split at hresults
    · cases hresults
    · rename_i children hchildren
      refine parseChildren_parses ih ?_ [] [] (fun potential hmem => nomatch hmem) results hresults
      intro entry hmem
      exact h.node_of_childNodes hchildren (mem_relevantNodes hmem).1

/-! ## Permissions -/

/-- The nodes of a context allow the source, and its executor is that of the last of them. -/
structure Allowed (d : CommandDispatcher R) (source : S) (segment : ParsedCommandContext R) : Prop where
  sender : segment.source = source
  nodes : ∀ entry ∈ segment.nodes, ∃ node, d.node entry.1 = some node ∧ node.requirement.allows source
  executor : ∀ executor, segment.executor = some executor → ∃ id range node, segment.nodes.getLast? = some (id, range) ∧
    d.node id = some node ∧ node.executor = some executor ∧ node.executionRequirement.allows source

variable {source : S}

theorem Allowed.new (d : CommandDispatcher R) (source : S) (root : NodeId) (start : Nat) : Allowed d source (.new source root start) where
  sender := rfl
  nodes := by simp [ParsedCommandContext.new]
  executor := by simp [ParsedCommandContext.new]

theorem Allowed.took (h : Allowed d source context) (here : d.node id = some child) (took : Took id child reader context after branch) :
    Allowed d source branch where
  sender := took.source.trans h.sender
  nodes := by
    intro entry hmem
    rw [took.nodes] at hmem
    rcases List.mem_append.mp hmem with hold | hnew
    · exact h.nodes entry hold
    · rw [List.mem_singleton.mp hnew]
      exact ⟨child, here, h.sender ▸ took.takes.allows⟩
  executor := by
    intro executor hexecutor
    rw [took.executor, Option.ite_none_right_eq_some, h.sender] at hexecutor
    refine ⟨id, ⟨reader.cursor, after.cursor⟩, child, ?_, here, hexecutor.2, hexecutor.1⟩
    rw [took.nodes, List.getLast?_concat]

omit [CommandPermissionSource S] in
theorem segments_eq (context : ParsedCommandContext R) : context.segments = context :: match context.child with
    | none => []
    | some child => child.segments := by
  obtain ⟨_, _, _, _, _, _, child, _, _⟩ := context
  cases child with
  | none => rw [ParsedCommandContext.segments]
  | some child => rw [ParsedCommandContext.segments]

omit [CommandPermissionSource S] in
theorem segments_of_child_none (h : context.child = none) : context.segments = [context] := by
  rw [segments_eq, h]

theorem Parses.allowed (h : Parses d parent reader context results) (hchild : context.child = none) (hcontext : Allowed d source context) :
    ∀ segment ∈ results.context.segments, Allowed d source segment := by
  induction h with
  | stop parent reader context errors =>
    rw [segments_of_child_none hchild]
    exact List.forall_mem_singleton.mpr hcontext
  | last here took =>
    rw [segments_of_child_none (took.below.trans hchild)]
    exact List.forall_mem_singleton.mpr (hcontext.took here took)
  | down here took _ _ ih => exact ih (took.below.trans hchild) (hcontext.took here took)
  | redirect here took _ _ ih =>
    have hbranch := hcontext.took here took
    rw [segments_eq]
    refine List.forall_mem_cons.mpr ⟨⟨hbranch.sender, hbranch.nodes, hbranch.executor⟩, ?_⟩
    exact ih rfl (hbranch.sender ▸ Allowed.new d _ _ _)

/-! ## Ranges -/

/-- A space at a position in UTF-16 code units. -/
def SpaceAt (input : Text) (position : Nat) : Prop := ∃ before after, input = before ++ ' ' :: after ∧ utf16Length before = position

/-- Ranges from `start` on, with exactly one space from each to the next. -/
def Laid (input : Text) : Nat → List StringRange → Prop
  | _, [] => True
  | start, range :: ranges => range.start = start ∧ start ≤ range.stop ∧ (ranges ≠ [] → SpaceAt input range.stop) ∧ Laid input (range.stop + 1) ranges

/-- The ranges of all nodes of a parse, across redirects. -/
def ranges (context : ParsedCommandContext R) : List StringRange :=
  context.segments.flatMap fun segment => segment.nodes.map Prod.snd

omit [CommandPermissionSource S] in
theorem ranges_of_child_none (h : context.child = none) : ranges context = context.nodes.map Prod.snd := by
  unfold ranges
  rw [segments_of_child_none h, List.flatMap_singleton]

theorem Takes.laid (h : Takes source child reader after) (hmore : after.canRead) {ranges : List StringRange}
    (hranges : Laid reader.input after.skip.cursor ranges) : Laid reader.input reader.cursor (⟨reader.cursor, after.cursor⟩ :: ranges) := by
  obtain ⟨hinput, hposition⟩ := h.reads.forward
  have hspace := h.separator hmore
  refine ⟨rfl, StringReader.cursor_mono hinput hposition, fun _ => ?_, ?_⟩
  · obtain ⟨rest, hsplit, -⟩ := StringReader.input_eq_of_peek hspace
    rw [hinput] at hsplit
    exact ⟨_, rest, hsplit, by rw [← hinput]; rfl⟩
  · rw [StringReader.cursor_skip hspace] at hranges
    exact hranges

theorem Parses.laid (h : Parses d parent reader context results) (hchild : context.child = none) :
    results.reader.input = reader.input ∧
      ∃ rest, ranges results.context = context.nodes.map Prod.snd ++ rest ∧ Laid reader.input reader.cursor rest := by
  induction h with
  | stop parent reader context errors =>
    refine ⟨rfl, [], ?_, trivial⟩
    rw [ranges_of_child_none hchild, List.append_nil]
  | @last parent id child reader after context branch here took =>
    obtain ⟨hinput, hposition⟩ := took.takes.reads.forward
    refine ⟨hinput, [⟨reader.cursor, after.cursor⟩], ?_, rfl, StringReader.cursor_mono hinput hposition, fun h => absurd rfl h, trivial⟩
    rw [ranges_of_child_none (took.below.trans hchild), took.nodes, List.map_append, List.map_singleton]
  | down here took more _ ih =>
    obtain ⟨hinput, hposition⟩ := took.takes.reads.forward
    obtain ⟨hinput', rest, hranges, hlaid⟩ := ih (took.below.trans hchild)
    rw [StringReader.input_skip, hinput] at hinput' hlaid
    refine ⟨hinput', _ :: rest, ?_, took.takes.laid more hlaid⟩
    rw [hranges, took.nodes, List.map_append, List.map_singleton, List.append_assoc, List.singleton_append]
  | redirect here took more _ ih =>
    obtain ⟨hinput, hposition⟩ := took.takes.reads.forward
    obtain ⟨hinput', rest, hranges, hlaid⟩ := ih rfl
    rw [StringReader.input_skip, hinput] at hinput' hlaid
    refine ⟨hinput', _ :: rest, ?_, took.takes.laid more hlaid⟩
    unfold ranges at hranges ⊢
    rw [segments_eq]
    dsimp only
    rw [List.flatMap_cons, hranges, took.nodes, List.map_append, List.map_singleton, List.append_assoc, List.singleton_append]
    rfl

end

end Foton.Brigadier.Arena.CommandDispatcher
