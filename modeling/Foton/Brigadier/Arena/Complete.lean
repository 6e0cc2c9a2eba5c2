import Foton.Brigadier.Arena.Passed

/-!
# Complete parses

A parse reads the whole input if some way down does that no redirect of a
sibling takes away. The first child with a redirect and more to read wins over
all its siblings, those before it included.
-/

namespace Foton.Brigadier.Arena.CommandDispatcher

variable {S : Type} [CommandPermissionSource S] {R : CommandRuntime S} {d : CommandDispatcher R} {source : S} {parent id : NodeId}
  {child : CommandNode R} {reader after : StringReader} {context : ParsedCommandContext R} {results : ParseResults R}
  {children before rest : List (NodeId × CommandNode R)}
  {parse : NodeId → StringReader → ParsedCommandContext R → Option (ParseResults R)}

/-- The child's redirect is followed. -/
def Leaves (source : S) (reader : StringReader) (entry : NodeId × CommandNode R) : Prop :=
  entry.2.redirect.isSome ∧ ∃ after, Takes source entry.2 reader after ∧ after.canRead

/-- Some way down from `parent` reads the rest of the input. No earlier sibling on
the way leaves, and, if `Later` holds, no later sibling of a child that stays. -/
inductive Completes (Later : Prop) (d : CommandDispatcher R) (source : S) : NodeId → StringReader → Prop
  | done {parent : NodeId} {reader : StringReader} (read : reader.canRead = false) : Completes Later d source parent reader
  | last {parent : NodeId} {reader after : StringReader} {children before rest : List (NodeId × CommandNode R)} {entry : NodeId × CommandNode R}
    (below : d.childNodes parent = some children) (relevant : relevantNodes children reader = before ++ entry :: rest)
    (earlier : ∀ other ∈ before, ¬Leaves source reader other) (later : Later → ∀ other ∈ rest, ¬Leaves source reader other)
    (takes : Takes source entry.2 reader after) (read : after.canRead = false) : Completes Later d source parent reader
  | down {parent : NodeId} {reader after : StringReader} {children before rest : List (NodeId × CommandNode R)} {entry : NodeId × CommandNode R}
    (below : d.childNodes parent = some children) (relevant : relevantNodes children reader = before ++ entry :: rest)
    (earlier : ∀ other ∈ before, ¬Leaves source reader other) (later : Later → ∀ other ∈ rest, ¬Leaves source reader other)
    (takes : Takes source entry.2 reader after) (stays : entry.2.redirect = none) (more : after.canReadLength 2)
    (next : Completes Later d source entry.1 after.skip) : Completes Later d source parent reader
  | redirect {parent target : NodeId} {reader after : StringReader} {children before rest : List (NodeId × CommandNode R)}
    {entry : NodeId × CommandNode R} {redirect : CommandRedirect R.Modifier RedirectTarget}
    (below : d.childNodes parent = some children) (relevant : relevantNodes children reader = before ++ entry :: rest)
    (earlier : ∀ other ∈ before, ¬Leaves source reader other) (takes : Takes source entry.2 reader after)
    (leaves : entry.2.redirect = some redirect) (leads : redirect.target = .node target) (more : after.canRead)
    (next : Completes Later d source target after.skip) : Completes Later d source parent reader

/-! ## The loop over the children -/

section
omit [CommandPermissionSource S]

theorem isBetterParse_complete (candidate current : ParseResults R)
    (h : candidate.reader.canRead = false ∨ current.reader.canRead = false) :
    (if isBetterParse candidate current then candidate else current).reader.canRead = false := by
  unfold isBetterParse
  cases hcandidate : candidate.reader.canRead with
  | false =>
    cases hcurrent : current.reader.canRead with
    | false => rw [apply_ite fun results : ParseResults R => results.reader.canRead, hcandidate, hcurrent, ite_self]
    | true => simp [hcandidate]
  | true =>
    cases hcurrent : current.reader.canRead with
    | false => simp [hcurrent]
    | true => simp [hcandidate, hcurrent] at h

theorem best_complete (best : ParseResults R) (potentials : List (ParseResults R))
    (h : ∃ potential ∈ best :: potentials, potential.reader.canRead = false) :
    (potentials.foldl (fun best potential => if isBetterParse potential best then potential else best) best).reader.canRead = false := by
  induction potentials generalizing best with
  | nil =>
    obtain ⟨potential, hmem, hread⟩ := h
    rw [List.mem_singleton.mp hmem] at hread
    exact hread
  | cons next potentials ih =>
    rw [List.foldl_cons]
    apply ih
    obtain ⟨potential, hmem, hread⟩ := h
    rcases List.mem_cons.mp hmem with rfl | hmem
    · exact ⟨_, List.mem_cons_self, isBetterParse_complete _ _ (Or.inr hread)⟩
    · rcases List.mem_cons.mp hmem with rfl | hmem
      · exact ⟨_, List.mem_cons_self, isBetterParse_complete _ _ (Or.inl hread)⟩
      · exact ⟨potential, List.mem_cons_of_mem _ hmem, hread⟩

end

/-- The child's branch reads everything and waits for the other branches. -/
def Waits (parse : NodeId → StringReader → ParsedCommandContext R → Option (ParseResults R)) (reader : StringReader)
    (context : ParsedCommandContext R) (entry : NodeId × CommandNode R) : Prop :=
  ∀ attempt, parseChild parse reader context entry.1 entry.2 = some attempt →
    ∃ results, attempt = .potential results ∧ results.reader.canRead = false

theorem leaves_of_returned (h : parseChild parse reader context id child = some (.returned results)) :
    Leaves context.source reader (id, child) := by
  cases parseChild_tried h with
  | redirect took more leaves _ _ =>
    rw [StringReader.canReadLength_one] at more
    exact ⟨Option.isSome_of_eq_some leaves, _, took.takes, more⟩

theorem parseChildren_complete (stays : ∀ entry ∈ children, ¬Leaves context.source reader entry) : ∀ errors potentials,
    ((∃ potential ∈ potentials, potential.reader.canRead = false) ∨ ∃ entry ∈ children, Waits parse reader context entry) →
      parseChildren parse reader context children errors potentials = some results → results.reader.canRead = false := by
  induction children with
  | nil =>
    intro errors potentials hgood hresults
    have hgood : ∃ potential ∈ potentials, potential.reader.canRead = false := by simpa using hgood
    cases potentials with
    | nil => simp at hgood
    | cons best potentials =>
      cases hresults
      exact best_complete best potentials hgood
  | cons entry children ih =>
    intro errors potentials hgood hresults
    rw [List.forall_mem_cons] at stays
    rw [parseChildren] at hresults
    -- the first child's own branch is no longer needed once it is among the others
    have hskip : ∀ {attempt : Attempt R}, parseChild parse reader context entry.1 entry.2 = some attempt →
        (∀ results, attempt ≠ .potential results) →
        (∃ potential ∈ potentials, potential.reader.canRead = false) ∨ ∃ entry ∈ children, Waits parse reader context entry := by
      intro attempt hattempt hnot
      rcases hgood with hold | ⟨found, hmem, hwaits⟩
      · exact Or.inl hold
      · rcases List.mem_cons.mp hmem with rfl | hmem
        · obtain ⟨given, hgiven, -⟩ := hwaits attempt hattempt
          exact absurd hgiven (hnot given)
        · exact Or.inr ⟨found, hmem, hwaits⟩
    split at hresults
    · cases hresults
    · rename_i hattempt
      exact ih stays.2 _ _ (hskip hattempt (by simp)) hresults
    · rename_i hattempt
      exact ih stays.2 _ _ (hskip hattempt (by simp)) hresults
    · rename_i given hattempt
      refine ih stays.2 _ _ ?_ hresults
      rcases hgood with ⟨potential, hmem, hread⟩ | ⟨found, hmem, hwaits⟩
      · exact Or.inl ⟨potential, List.mem_append_left _ hmem, hread⟩
      · rcases List.mem_cons.mp hmem with rfl | hmem
        · obtain ⟨same, hsame, hread⟩ := hwaits _ hattempt
          cases hsame
          exact Or.inl ⟨given, List.mem_append_right _ (List.mem_singleton_self _), hread⟩
        · exact Or.inr ⟨found, hmem, hwaits⟩
    · rename_i hattempt
      exact absurd (leaves_of_returned hattempt) stays.1

theorem parseChildren_returned {entry : NodeId × CommandNode R} (stays : ∀ other ∈ before, ¬Leaves context.source reader other)
    (leaves : ∀ attempt, parseChild parse reader context entry.1 entry.2 = some attempt →
      ∃ results, attempt = .returned results ∧ results.reader.canRead = false) : ∀ errors potentials,
    parseChildren parse reader context (before ++ entry :: rest) errors potentials = some results → results.reader.canRead = false := by
  induction before with
  | nil =>
    intro errors potentials hresults
    rw [List.nil_append, parseChildren] at hresults
    split at hresults
    · cases hresults
    all_goals
      rename_i hattempt
      obtain ⟨given, hgiven, hread⟩ := leaves _ hattempt
      cases hgiven
    cases hresults
    exact hread
  | cons other before ih =>
    intro errors potentials hresults
    rw [List.forall_mem_cons] at stays
    rw [List.cons_append, parseChildren] at hresults
    split at hresults
    · cases hresults
    · exact ih stays.2 _ _ hresults
    · exact ih stays.2 _ _ hresults
    · exact ih stays.2 _ _ hresults
    · rename_i hattempt
      exact absurd (leaves_of_returned hattempt) stays.1

/-! ## Whole parses -/

theorem Parses.exhausted (h : Parses d parent reader context results) (hread : reader.canRead = false) : results.reader.canRead = false := by
  have hforward : ∀ {id : NodeId} {child : CommandNode R} {reader after : StringReader} {context branch : ParsedCommandContext R},
      Took id child reader context after branch → reader.canRead = false → after.canRead = false := by
    intro id child reader after context branch took hread
    obtain ⟨hinput, hposition⟩ := took.takes.reads.forward
    unfold StringReader.canRead at hread ⊢
    rw [decide_eq_false_iff_not, hinput] at *
    omega
  cases h with
  | stop => exact hread
  | last here took => exact hforward took hread
  | down here took more _ =>
    rw [hforward took hread] at more
    cases more
  | redirect here took more _ =>
    rw [hforward took hread] at more
    cases more

theorem waits_of_last {entry : NodeId × CommandNode R} (takes : Takes context.source entry.2 reader after) (hread : after.canRead = false) :
    Waits parse reader context entry := by
  intro attempt hattempt
  have hmore : ∀ {length : Nat}, 0 < length → ¬after.canReadLength length = true := by
    intro length hpos hmore
    have hlt := Brigadier.CommandDispatcher.canRead_of_canReadLength hpos hmore
    unfold StringReader.canRead at hread
    exact of_decide_eq_false hread hlt
  cases parseChild_tried hattempt with
  | denied h => exact absurd takes (h after)
  | failed h => exact absurd takes (h after)
  | last took more =>
    rw [took.takes.unique takes]
    exact ⟨_, rfl, hread⟩
  | down took more stays _ =>
    rw [took.takes.unique takes] at more
    exact absurd more (hmore Nat.two_pos)
  | redirect took more leaves _ _ =>
    rw [took.takes.unique takes] at more
    exact absurd more (hmore Nat.one_pos)

theorem waits_of_down {entry : NodeId × CommandNode R} (takes : Takes context.source entry.2 reader after) (stays : entry.2.redirect = none)
    (more : after.canReadLength 2)
    (next : ∀ branch results, branch.source = context.source → parse entry.1 after.skip branch = some results → results.reader.canRead = false) :
    Waits parse reader context entry := by
  intro attempt hattempt
  cases parseChild_tried hattempt with
  | denied h => exact absurd takes (h after)
  | failed h => exact absurd takes (h after)
  | last took hless =>
    rw [stays, took.takes.unique takes] at hless
    exact absurd (more.symm.trans hless) (by simp)
  | down took _ _ hrest =>
    rw [took.takes.unique takes] at hrest
    exact ⟨_, rfl, next _ _ took.source hrest⟩
  | redirect took _ leaves _ _ =>
    rw [stays] at leaves
    cases leaves

theorem returned_of_redirect {entry : NodeId × CommandNode R} {redirect : CommandRedirect R.Modifier RedirectTarget} {target : NodeId}
    (takes : Takes context.source entry.2 reader after) (leaves : entry.2.redirect = some redirect) (leads : redirect.target = .node target)
    (more : after.canRead)
    (next : ∀ branch results, branch.source = context.source → parse target after.skip branch = some results → results.reader.canRead = false)
    (attempt : Attempt R) (hattempt : parseChild parse reader context entry.1 entry.2 = some attempt) :
    ∃ results, attempt = .returned results ∧ results.reader.canRead = false := by
  cases parseChild_tried hattempt with
  | denied h => exact absurd takes (h after)
  | failed h => exact absurd takes (h after)
  | last took hless =>
    rw [leaves, took.takes.unique takes] at hless
    rw [← StringReader.canReadLength_one] at more
    exact absurd (more.symm.trans hless) (by simp)
  | down _ _ stays _ =>
    rw [stays] at leaves
    cases leaves
  | redirect took _ leaves' leads' hrest =>
    rw [leaves] at leaves'
    cases leaves'
    rw [leads] at leads'
    cases leads'
    rw [took.takes.unique takes] at hrest
    have hread := next (.new _ _ _) _ took.source hrest
    exact ⟨_, rfl, hread⟩

theorem stays_of_siblings {entry : NodeId × CommandNode R} (earlier : ∀ other ∈ before, ¬Leaves source reader other)
    (later : ∀ other ∈ rest, ¬Leaves source reader other) (here : ¬Leaves source reader entry) :
    ∀ other ∈ before ++ entry :: rest, ¬Leaves source reader other := by
  intro other hmem
  rcases List.mem_append.mp hmem with hmem | hmem
  · exact earlier other hmem
  · rcases List.mem_cons.mp hmem with rfl | hmem
    · exact here
    · exact later other hmem

theorem Shaped.parseNodes_complete (h : d.Shaped) (hcompletes : Completes True d source parent reader) :
    ∀ (fuel : Nat) (context : ParsedCommandContext R) (results : ParseResults R), context.source = source →
      d.parseNodes fuel parent reader context = some results → results.reader.canRead = false := by
  induction hcompletes with
  | done read =>
    intro fuel context results hsource hresults
    exact (h.parseNodes_parses fuel _ _ _ _ hresults).exhausted read
  | last below relevant earlier later takes read =>
    intro fuel context results hsource hresults
    subst hsource
    cases fuel with
    | zero => cases hresults
    | succ fuel =>
      rw [parseNodes, below] at hresults
      dsimp only at hresults
      rw [relevant] at hresults
      refine parseChildren_complete (stays_of_siblings earlier (later trivial) ?_) [] []
        (Or.inr ⟨_, List.mem_append_right _ List.mem_cons_self, waits_of_last takes read⟩) hresults
      rintro ⟨-, after', htakes, hread⟩
      rw [htakes.unique takes, read] at hread
      cases hread
  | down below relevant earlier later takes stays more _ ih =>
    intro fuel context results hsource hresults
    subst hsource
    cases fuel with
    | zero => cases hresults
    | succ fuel =>
      rw [parseNodes, below] at hresults
      dsimp only at hresults
      rw [relevant] at hresults
      refine parseChildren_complete (stays_of_siblings earlier (later trivial) ?_) [] []
        (Or.inr ⟨_, List.mem_append_right _ List.mem_cons_self, waits_of_down takes stays more (ih fuel)⟩) hresults
      rintro ⟨hredirect, -⟩
      rw [stays] at hredirect
      cases hredirect
  | redirect below relevant earlier takes leaves leads more _ ih =>
    intro fuel context results hsource hresults
    subst hsource
    cases fuel with
    | zero => cases hresults
    | succ fuel =>
      rw [parseNodes, below] at hresults
      dsimp only at hresults
      rw [relevant] at hresults
      exact parseChildren_returned earlier (returned_of_redirect takes leaves leads more (ih fuel)) [] [] hresults

omit [CommandPermissionSource S] in
/-- The chain that is executed is the parse itself, which has read everything and ends in an executor. -/
theorem contextChain_eq_ok {chain : List (ParsedCommandContext R)} (h : d.contextChain results = .ok chain) :
    chain = results.context.segments ∧ results.reader.canRead = false ∧
      ∃ last executor, chain.getLast? = some last ∧ last.executor = some executor := by
  unfold contextChain at h
  split at h
  · split at h <;> cases h
  · rename_i hread
    split at h
    · cases h
    · unfold ParsedCommandContext.tryFlatten at h
      cases hlast : results.context.segments.getLast? with
      | none =>
        rw [hlast] at h
        cases h
      | some last =>
        rw [hlast] at h
        cases hexecutor : last.executor with
        | none =>
          simp only [hexecutor, Option.isNone_none, if_true] at h
          cases h
        | some executor =>
          simp only [hexecutor, Option.isNone_some, Bool.false_eq_true, if_false] at h
          cases h
          exact ⟨rfl, Bool.not_eq_true _ ▸ hread, last, executor, hlast, hexecutor⟩

/-- In a dispatcher made by registering, every parse ends, whatever its redirects,
since it goes on only from larger cursors. It has passed only nodes and executors
that the source may use, with one space between two nodes, and it reads the whole
input if a way down does that no redirect takes away. -/
theorem parse_sound_complete {id : Nat} {builders : List (UnregisteredCommandNode R)} (hrun : Run Registers (new id) builders d)
    (input : Text) (source : S) :
    (∀ (reader : StringReader) (context : ParsedCommandContext R) (children : List (NodeId × CommandNode R))
        (parse parse' : NodeId → StringReader → ParsedCommandContext R → Option (ParseResults R)),
      (∀ id next branch, reader.Before next → parse id next branch = parse' id next branch) →
        parseChildren parse reader context children [] [] = parseChildren parse' reader context children [] []) ∧
    ∃ results, d.parse input source = some results ∧
      (∀ fuel, input.length < fuel → d.parseNodes fuel d.root (.new input) (.new source d.root 0) = some results) ∧
      results.reader.input = input ∧
      (∀ segment ∈ results.context.segments, Allowed d source segment) ∧
      Laid input 0 (ranges results.context) ∧
      (∀ chain, d.contextChain results = .ok chain → chain = results.context.segments) ∧
      (Completes True d source d.root (.new input) → results.reader.canRead = false) := by
  have hsound := sound_of_run hrun
  have hleft : Brigadier.CommandDispatcher.left (.new input) = input.length := rfl
  have hfuel : (StringReader.new input).remaining.length + 1 = input.length + 1 := rfl
  refine ⟨fun reader context children parse parse' h => parseChildren_congr h [] [], ?_⟩
  obtain ⟨results, hresults⟩ := Option.isSome_iff_exists.mp
    (hsound.parseNodes_isSome (input.length + 1) d.root (.new input) (.new source d.root 0) (by omega))
  have hparses := hsound.shaped.parseNodes_parses _ _ _ _ _ hresults
  obtain ⟨hinput, rest, hranges, hlaid⟩ := hparses.laid rfl
  refine ⟨results, hresults, ?_, hinput, ?_, ?_, ?_, ?_⟩
  · intro fuel hlt
    rw [← hresults]
    apply parseNodes_fuel <;> omega
  · exact hparses.allowed rfl (Allowed.new d source _ _)
  · rw [hranges]
    exact hlaid
  · intro chain hchain
    exact (contextChain_eq_ok hchain).1
  · intro hcompletes
    exact hsound.shaped.parseNodes_complete hcompletes _ _ _ rfl hresults

/-! ## A later redirect -/

/-- Arguments that read everything, or a word. -/
def textRuntime : CommandRuntime Unit where
  Argument := Bool
  Executor := Nat
  Modifier := Unit
  ArgumentValue := Text
  parse greedy text _ :=
    let taken := if greedy then text else text.takeWhile fun c => c ≠ ' '
    .ok (taken, taken.length)

instance : CommandPermissionSource Unit where
  playerPermissions _ := none
  answers _ _ := true

/-- `a` with a text that may be executed, and with a word that leads back to the root. -/
def textOrWord : UnregisteredCommandNode textRuntime :=
  ⟨.literal ['a'], [⟨.argument ['x'] (show textRuntime.Argument from true), [], some (1 : Nat), .allowAll, .allowAll, none⟩,
    ⟨.argument ['y'] (show textRuntime.Argument from false), [], none, .allowAll, .allowAll, some ⟨.node ⟨0, 0⟩, none, false⟩⟩],
    none, .allowAll, .allowAll, none⟩

def textCommands : CommandDispatcher textRuntime := ((new 0).register textOrWord).2

def aFooBar : Text := ['a', ' ', 'f', 'o', 'o', ' ', 'b', 'a', 'r']

/-- The text reads everything, but the word after it leads back to the root, which knows no `bar`. -/
theorem later_redirect_wins : Run Registers (new 0) [textOrWord] textCommands ∧ Completes False textCommands () textCommands.root (.new aFooBar) ∧
    ∃ results, textCommands.parse aFooBar () = some results ∧ results.reader.canRead = true := by
  refine ⟨.single rfl, ?_, ?_⟩
  · have htext : Completes False textCommands () ⟨0, 1⟩ ⟨aFooBar, 2⟩ := by
      have hread : StringReader.canRead ⟨aFooBar, 9⟩ = false := by decide
      have hrelevant : relevantNodes ((textCommands.childNodes ⟨0, 1⟩).getD []) ⟨aFooBar, 2⟩ = [] ++ _ :: _ := rfl
      refine .last rfl hrelevant (by simp) False.elim ⟨rfl, ⟨_, 7, rfl, rfl⟩, ?_⟩ hread
      intro h
      exact absurd h (by decide)
    have hrelevant : relevantNodes ((textCommands.childNodes ⟨0, 0⟩).getD []) ⟨aFooBar, 0⟩ = [] ++ _ :: _ := rfl
    exact .down rfl hrelevant (by simp) False.elim ⟨rfl, rfl, fun _ => rfl⟩ rfl (by decide +kernel) htext
  · have hparse : (textCommands.parse aFooBar ()).any (fun results => results.reader.canRead) = true := by decide +kernel
    cases hresults : textCommands.parse aFooBar () with
    | none =>
      rw [hresults] at hparse
      cases hparse
    | some results =>
      rw [hresults] at hparse
      exact ⟨results, rfl, hparse⟩

theorem aFooBar_laid : ∃ results, textCommands.parse aFooBar () = some results ∧ Laid aFooBar 0 (ranges results.context) ∧
    ∀ segment ∈ results.context.segments, Allowed textCommands () segment := by
  obtain ⟨-, results, hresults, -, -, hallowed, hlaid, -, -⟩ :=
    parse_sound_complete (.single (rfl : Registers (new 0) textOrWord textCommands)) aFooBar ()
  exact ⟨results, hresults, hlaid, hallowed⟩

end Foton.Brigadier.Arena.CommandDispatcher
