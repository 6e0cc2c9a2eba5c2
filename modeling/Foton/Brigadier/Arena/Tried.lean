import Foton.Brigadier.Arena.Parse
import Foton.Brigadier.Arena.Union
import Foton.Brigadier.Parse
import Foton.Brigadier.Dispatcher

/-!
# What a parse does with one child

A child takes a part of the input if it allows the source, reads, and ends at a
space or at the end. All that a parse does next starts after that space, so the
cursor has grown with every recursion.
-/

namespace Foton.Brigadier

/-! ## Cursors -/

namespace StringReader

variable {reader after : StringReader}

/-- `next` reads the same input from a larger cursor. -/
def Before (reader next : StringReader) : Prop := next.input = reader.input ∧ reader.cursor < next.cursor

theorem cursor_mono (hinput : after.input = reader.input) (h : reader.position ≤ after.position) : reader.cursor ≤ after.cursor := by
  unfold cursor
  rw [hinput]
  exact positionOf_mono h

theorem Before.left_lt (h : reader.Before after) : CommandDispatcher.left after < CommandDispatcher.left reader := by
  obtain ⟨hinput, hcursor⟩ := h
  have hpos : reader.position < after.position := by
    by_contra hle
    exact absurd (cursor_mono hinput.symm (Nat.le_of_not_lt hle)) (Nat.not_le_of_lt hcursor)
  have hlength : reader.position < reader.input.length := by
    by_contra hge
    have hall : reader.input.take reader.position = reader.input.take after.position := by
      rw [List.take_of_length_le (Nat.le_of_not_lt hge), List.take_of_length_le (Nat.le_trans (Nat.le_of_not_lt hge) (Nat.le_of_lt hpos))]
    unfold cursor at hcursor
    rw [hinput, hall] at hcursor
    exact absurd hcursor (Nat.lt_irrefl _)
  unfold CommandDispatcher.left
  rw [hinput]
  omega

theorem canRead_of_peek {c : Char} (h : reader.peek = some c) : ∃ rest, reader.remaining = c :: rest := by
  unfold peek at h
  exact List.head?_eq_some_iff.mp h

/-- The input splits at a reader that is at the character `c`. -/
theorem input_eq_of_peek {c : Char} (h : reader.peek = some c) :
    ∃ rest, reader.input = reader.input.take reader.position ++ c :: rest ∧ reader.canRead = true := by
  obtain ⟨rest, hrest⟩ := canRead_of_peek h
  refine ⟨rest, ?_, ?_⟩
  · rw [← hrest]
    exact (List.take_append_drop _ _).symm
  · have hlength := congrArg List.length hrest
    unfold remaining at hlength
    rw [List.length_drop, List.length_cons] at hlength
    unfold canRead
    simp only [decide_eq_true_eq]
    omega

theorem cursor_skip {c : Char} (h : reader.peek = some c) : reader.skip.cursor = reader.cursor + utf16Length [c] := by
  obtain ⟨rest, hinput, hread⟩ := input_eq_of_peek h
  obtain ⟨rest', hrest⟩ := canRead_of_peek h
  unfold skip
  rw [if_pos hread]
  unfold cursor advance
  dsimp only
  have htake : reader.input.take (reader.position + 1) = reader.input.take reader.position ++ [c] := by
    rw [List.take_add]
    refine congrArg _ ?_
    unfold remaining at hrest
    rw [hrest]
    rfl
  rw [htake, utf16Length_append]

theorem input_skip (reader : StringReader) : reader.skip.input = reader.input := by
  unfold skip
  split <;> rfl

theorem peek_of_canRead (h : reader.canRead = true) : ∃ c, reader.peek = some c := by
  unfold canRead at h
  rw [decide_eq_true_eq] at h
  unfold peek remaining
  rw [List.head?_drop]
  exact ⟨_, List.getElem?_eq_getElem h⟩

theorem canReadLength_one : reader.canReadLength 1 = reader.canRead := by
  rw [Bool.eq_iff_iff]
  constructor
  · intro h
    have hlt := CommandDispatcher.canRead_of_canReadLength Nat.one_pos h
    unfold canRead
    exact decide_eq_true hlt
  · intro h
    obtain ⟨c, hc⟩ := peek_of_canRead h
    have hle : reader.skip.cursor ≤ utf16Length reader.skip.input := positionOf_le _ _
    rw [cursor_skip hc, input_skip] at hle
    have hpos := utf16Length_singleton_pos c
    unfold canReadLength
    exact decide_eq_true (by omega)

end StringReader

namespace Arena

variable {S : Type} {R : CommandRuntime S}

/-! ## Reading a node -/

/-- The node reads from `reader` to `after`. -/
def Reads (source : S) (node : CommandNode R) (reader after : StringReader) : Prop :=
  match node.data with
  | none => False
  | some (.literal literal) => reader.tryReadLiteral literal = some after
  | some (.argument _ argumentType) => ∃ val count, R.parse argumentType reader.remaining source = .ok (val, count) ∧ after = reader.advance count

theorem Reads.unique {source : S} {node : CommandNode R} {reader after after' : StringReader} (h : Reads source node reader after)
    (h' : Reads source node reader after') : after = after' := by
  unfold Reads at h h'
  split at h
  · cases h
  · rename_i literal hdata
    rw [hdata] at h'
    exact Option.some.inj (h.symm.trans h')
  · rename_i name argumentType hdata
    rw [hdata] at h'
    obtain ⟨val, count, hparse, rfl⟩ := h
    obtain ⟨val', count', hparse', rfl⟩ := h'
    cases hparse.symm.trans hparse'
    rfl

theorem Reads.forward {source : S} {node : CommandNode R} {reader after : StringReader} (h : Reads source node reader after) :
    after.input = reader.input ∧ reader.position ≤ after.position := by
  unfold Reads at h
  split at h
  · cases h
  · unfold StringReader.tryReadLiteral at h
    split at h
    · split at h
      · cases h
        exact ⟨rfl, Nat.le_add_right _ _⟩
      · split at h
        · cases h
        · cases h
          exact ⟨rfl, Nat.le_add_right _ _⟩
    · cases h
  · obtain ⟨val, count, -, rfl⟩ := h
    exact ⟨rfl, Nat.le_add_right _ _⟩

namespace CommandDispatcher

variable {d : CommandDispatcher R} {id : NodeId} {child : CommandNode R} {reader after : StringReader} {context branch : ParsedCommandContext R}

theorem parseNode_of_reads (id : NodeId) (h : Reads context.source child reader after) :
    ∃ branch, parseNode id child reader context = some (.ok (after, branch)) := by
  unfold parseNode
  cases hdata : child.data with
  | none => simp only [Reads, hdata] at h
  | some data =>
    cases data with
    | literal literal =>
      simp only [Reads, hdata] at h
      dsimp only
      rw [h]
      exact ⟨_, rfl⟩
    | argument name argumentType =>
      simp only [Reads, hdata] at h
      obtain ⟨val, count, hparse, rfl⟩ := h
      dsimp only
      rw [hparse]
      exact ⟨_, rfl⟩

theorem parseNode_eq_ok (h : parseNode id child reader context = some (.ok (after, branch))) :
    Reads context.source child reader after ∧ branch.source = context.source ∧ branch.child = context.child ∧
      branch.nodes = context.nodes ++ [(id, ⟨reader.cursor, after.cursor⟩)] := by
  unfold parseNode at h
  cases hdata : child.data with
  | none => simp [hdata] at h
  | some data =>
    cases data with
    | literal literal =>
      simp only [Reads, hdata] at h ⊢
      split at h
      · cases h
      · rename_i hread
        cases h
        exact ⟨hread, rfl, rfl, rfl⟩
    | argument name argumentType =>
      simp only [Reads, hdata] at h ⊢
      split at h
      · cases h
      · rename_i val count hparse
        cases h
        exact ⟨⟨val, count, hparse, rfl⟩, rfl, rfl, rfl⟩

theorem parseNode_isSome (h : child.data.isSome) (id : NodeId) (reader : StringReader) (context : ParsedCommandContext R) :
    (parseNode id child reader context).isSome := by
  unfold parseNode
  split
  · rename_i hdata
    rw [hdata] at h
    cases h
  · split <;> rfl
  · split <;> rfl

/-! ## Trying a child -/

section
variable [CommandPermissionSource S] {source : S}

/-- A child that allows the source takes the input up to `after`, where it ends or has a space. -/
structure Takes (source : S) (child : CommandNode R) (reader after : StringReader) : Prop where
  allows : child.requirement.allows source
  reads : Reads source child reader after
  separator : after.canRead → after.peek = some ' '

theorem Takes.unique {after' : StringReader} (h : Takes source child reader after) (h' : Takes source child reader after') : after = after' :=
  h.reads.unique h'.reads

theorem Takes.before (h : Takes source child reader after) (hread : after.canRead) : reader.Before after.skip := by
  obtain ⟨hinput, hposition⟩ := h.reads.forward
  refine ⟨(StringReader.input_skip after).trans hinput, ?_⟩
  rw [StringReader.cursor_skip (h.separator hread)]
  have hmono := StringReader.cursor_mono hinput hposition
  have hpos := utf16Length_singleton_pos ' '
  omega

omit [CommandPermissionSource S] in
theorem separator_of_not (h : ¬(after.canRead && decide (after.peek ≠ some ' ')) = true) : after.canRead → after.peek = some ' ' := by
  intro hread
  by_contra hne
  exact h (by simp [hread, hne])

/-- `branch` is `context` after a child took its part. -/
structure Took (id : NodeId) (child : CommandNode R) (reader : StringReader) (context : ParsedCommandContext R) (after : StringReader)
    (branch : ParsedCommandContext R) : Prop where
  takes : Takes context.source child reader after
  source : branch.source = context.source
  below : branch.child = context.child
  nodes : branch.nodes = context.nodes ++ [(id, ⟨reader.cursor, after.cursor⟩)]
  executor : branch.executor = if child.executionRequirement.allows context.source then child.executor else none

variable {parse parse' : NodeId → StringReader → ParsedCommandContext R → Option (ParseResults R)}

/-- All that trying a child can come to. -/
inductive Tried (parse : NodeId → StringReader → ParsedCommandContext R → Option (ParseResults R)) (reader : StringReader)
    (context : ParsedCommandContext R) (id : NodeId) (child : CommandNode R) : Attempt R → Prop
  | denied (h : ∀ after, ¬Takes context.source child reader after) : Tried parse reader context id child .denied
  | failed {error : NodeId × CommandSyntaxError} (h : ∀ after, ¬Takes context.source child reader after) :
    Tried parse reader context id child (.failed error)
  | last {after : StringReader} {branch : ParsedCommandContext R} (took : Took id child reader context after branch)
    (more : after.canReadLength (if child.redirect.isSome then 1 else 2) = false) :
    Tried parse reader context id child (.potential ⟨branch, after, []⟩)
  | down {after : StringReader} {branch : ParsedCommandContext R} {results : ParseResults R} (took : Took id child reader context after branch)
    (more : after.canReadLength 2) (stays : child.redirect = none) (rest : parse id after.skip branch = some results) :
    Tried parse reader context id child (.potential results)
  | redirect {after : StringReader} {branch : ParsedCommandContext R} {redirect : CommandRedirect R.Modifier RedirectTarget} {target : NodeId}
    {results : ParseResults R} (took : Took id child reader context after branch) (more : after.canReadLength 1)
    (leaves : child.redirect = some redirect) (leads : redirect.target = .node target)
    (rest : parse target after.skip (.new branch.source target after.skip.cursor) = some results) :
    Tried parse reader context id child (.returned { results with context := { branch with child := some results.context } })

theorem parseChild_tried {attempt : Attempt R} (h : parseChild parse reader context id child = some attempt) :
    Tried parse reader context id child attempt := by
  unfold parseChild at h
  split at h
  · rename_i hdenied
    cases h
    exact .denied fun after htakes => hdenied htakes.allows
  · rename_i hallows
    rw [not_not] at hallows
    split at h
    · cases h
    · rename_i error hnode
      cases h
      refine .failed fun after htakes => ?_
      obtain ⟨branch, hbranch⟩ := parseNode_of_reads id htakes.reads
      rw [hnode] at hbranch
      cases hbranch
    · rename_i after branch hnode
      obtain ⟨hreads, hsource, hchild, hnodes⟩ := parseNode_eq_ok hnode
      split at h
      · rename_i hseparator
        cases h
        refine .failed fun after' htakes => ?_
        rw [htakes.reads.unique hreads] at htakes
        simp only [Bool.and_eq_true, decide_eq_true_eq] at hseparator
        exact hseparator.2 (htakes.separator hseparator.1)
      · rename_i hseparator
        dsimp only at h
        have htook : Took id child reader context after
            { branch with executor := if child.executionRequirement.allows branch.source then child.executor else none } :=
          ⟨⟨hallows, hreads, separator_of_not hseparator⟩, hsource, hchild, hnodes, by rw [hsource]⟩
        split at h
        · rename_i hredirect
          split at h
          · rename_i hmore
            obtain ⟨results, hresults, rfl⟩ := Option.map_eq_some_iff.mp h
            exact .down htook hmore hredirect hresults
          · rename_i hmore
            cases h
            refine .last htook ?_
            rw [hredirect]
            exact Bool.not_eq_true _ ▸ hmore
        · cases h
        · rename_i target modifier forks hredirect
          split at h
          · rename_i hmore
            obtain ⟨results, hresults, rfl⟩ := Option.map_eq_some_iff.mp h
            exact .redirect htook hmore hredirect rfl hresults
          · rename_i hmore
            cases h
            refine .last htook ?_
            rw [hredirect]
            exact Bool.not_eq_true _ ▸ hmore

theorem parseChild_isSome (hdata : child.data.isSome) (hredirect : ∀ redirect, child.redirect = some redirect → ∃ target, redirect.target = .node target)
    (hparse : ∀ id next context, reader.Before next → (parse id next context).isSome) :
    (parseChild parse reader context id child).isSome := by
  unfold parseChild
  split
  · rfl
  · rename_i hallows
    rw [not_not] at hallows
    split
    · rename_i hnode
      have hsome := parseNode_isSome hdata id reader context
      rw [hnode] at hsome
      cases hsome
    · rfl
    · rename_i after branch hnode
      obtain ⟨hreads, hsource, -, -⟩ := parseNode_eq_ok hnode
      split
      · rfl
      · rename_i hseparator
        have htakes : Takes context.source child reader after := ⟨hallows, hreads, separator_of_not hseparator⟩
        dsimp only
        split
        · split
          · rename_i hmore
            rw [Option.isSome_map]
            have hlt := Brigadier.CommandDispatcher.canRead_of_canReadLength Nat.two_pos hmore
            exact hparse _ _ _ (htakes.before (decide_eq_true hlt))
          · rfl
        · rename_i hcommand
          obtain ⟨target, htarget⟩ := hredirect _ hcommand
          cases htarget
        · split
          · rename_i hmore
            rw [Option.isSome_map]
            exact hparse _ _ _ (htakes.before (StringReader.canReadLength_one ▸ hmore))
          · rfl

end

end CommandDispatcher

end Arena

end Foton.Brigadier
