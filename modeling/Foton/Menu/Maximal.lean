import Foton.Menu.Moving

/-!
# Quick move ends

Every turn leaves less room in the targets. Once a turn moves nothing, the slot
is empty or no target has room.
-/

namespace Foton

variable {P α : Type} [DecidableEq P] [BEq α]

/-- The slots of the target ranges. -/
def Route.targetSlots (route : Route) : List Nat :=
  route.targets.flatMap fun target => List.range' target.start (target.stop - target.start)

theorem Route.mem_targetSlots {route : Route} {j : Nat} :
    j ∈ route.targetSlots ↔ ∃ target ∈ route.targets, target.start ≤ j ∧ j < target.stop := by
  unfold targetSlots
  rw [List.mem_flatMap]
  refine exists_congr fun target => and_congr_right fun _ => ?_
  rw [List.mem_range'_1]
  omega

/-- Every stack has a size limit of at least one. -/
def MenuContents.Sized (contents : MenuContents P α) : Prop := ∀ p, 0 < (contents p).maxStackSize

/-- Taking a result takes nothing from the kept positions. -/
structure ResultHandler.Keeps (handler : ResultHandler P α) (kept : P → Prop) : Prop where
  onResultTaken : ∀ contents p, kept p → (contents p).size ≤ ((handler.onResultTaken contents).1 p).size
  addItemOrDrop : ∀ contents stack p, kept p → (contents p).size ≤ (handler.addItemOrDrop contents stack p).size
  dropItem : ∀ contents stack, handler.dropItem contents stack = contents
  sizedTaken : ∀ contents, MenuContents.Sized contents → MenuContents.Sized (handler.onResultTaken contents).1
  sizedLeftover : ∀ contents leftover, MenuContents.Sized contents → (handler.onResultTaken contents).2 = some leftover →
    0 < leftover.maxStackSize
  sizedAdded : ∀ contents stack, MenuContents.Sized contents → 0 < stack.maxStackSize →
    MenuContents.Sized (handler.addItemOrDrop contents stack)

/-- A slot whose stack can be taken and is not recomputed. -/
def QuickSlot.IsPlain (slot : QuickSlot P α) : Prop := slot.isFake = false ∧ ∀ contents, slot.mayPickup contents = true

namespace QuickMenu

variable {menu : QuickMenu P α} {handler : ResultHandler P α} {source : Nat} {route : Route} {contents contents' : MenuContents P α}

/-- The positions that the route of a slot fills. -/
def Fills (menu : QuickMenu P α) (source : Nat) (route : Route) (p : P) : Prop :=
  ∃ j ∈ route.targetSlots, menu.aliases source j = false ∧ (menu.slots j).position = p

omit [BEq α] in
theorem Fills.ne_source {p : P} (h : menu.Fills source route p) : p ≠ (menu.slots source).position := by
  obtain ⟨j, -, halias, rfl⟩ := h
  intro heq
  unfold aliases at halias
  simp [heq] at halias

/-- What a turn that moved something did to the stacks. -/
structure Turned (menu : QuickMenu P α) (source : Nat) (route : Route) (contents contents' : MenuContents P α) : Prop where
  others : ∀ p, p ≠ (menu.slots source).position → ¬ menu.Fills source route p → contents' p = contents p
  bounded : ∀ p, p ≠ (menu.slots source).position → contents' p = contents p ∨
    ∀ j ∈ route.targetSlots, (menu.slots j).position = p → (contents' p).size ≤ (menu.slots j).getMaxStackSizeForItem (contents' p)

omit [BEq α] in
theorem Turned.refl (menu : QuickMenu P α) (source : Nat) (route : Route) (contents : MenuContents P α) :
    menu.Turned source route contents contents :=
  ⟨fun _ _ _ => rfl, fun _ _ => Or.inl rfl⟩

omit [BEq α] in
theorem Turned.trans {contents'' : MenuContents P α} (h : menu.Turned source route contents contents')
    (h' : menu.Turned source route contents' contents'') : menu.Turned source route contents contents'' where
  others p hp hfills := (h'.others p hp hfills).trans (h.others p hp hfills)
  bounded p hp := by
    rcases h'.bounded p hp with heq | hle
    · rw [heq]
      exact h.bounded p hp
    · exact Or.inr hle

/-- No target of the route gets anything from the slot. -/
def Finished (menu : QuickMenu P α) (source : Nat) (route : Route) (contents : MenuContents P α) : Prop :=
  (contents (menu.slots source).position).isEmpty = true ∨
    ∀ j ∈ route.targetSlots, menu.Exhausted source (contents (menu.slots source).position) contents j

/-! ## One turn -/

/-- What is left after a turn: the stack that was in the slot, or empty if nothing moved. -/
structure TurnTaken (menu : QuickMenu P α) (source : Nat) (route : Route) (contents : MenuContents P α)
    (turn : ItemStack α × MenuContents P α) : Prop where
  sized : MenuContents.Sized turn.2
  room : turn.1.isEmpty = true ∨
    menu.openRoom source route.targetSlots turn.2 < menu.openRoom source route.targetSlots contents
  turned : (menu.slots source).IsPlain → menu.Turned source route contents turn.2
  finished : (menu.slots source).IsPlain → turn.1.isEmpty = true → menu.Finished source route turn.2
  again : (menu.slots source).IsPlain → turn.1.isEmpty = false →
    (turn.2 (menu.slots source).position).isEmpty = true ∨ ItemStack.isSameItem (turn.2 (menu.slots source).position) turn.1 = true

omit [BEq α] in
theorem updateQuickMoveSource_of_ne {remaining : ItemStack α} {p : P} (hp : p ≠ (menu.slots source).position) :
    menu.updateQuickMoveSource source remaining contents p = contents p := by
  unfold updateQuickMoveSource
  split
  · exact Function.update_of_ne hp ..
  · split
    · rfl
    · exact Function.update_of_ne hp ..

omit [BEq α] in
theorem updateQuickMoveSource_sized {remaining : ItemStack α} (h : MenuContents.Sized contents) (hremaining : 0 < remaining.maxStackSize) :
    MenuContents.Sized (menu.updateQuickMoveSource source remaining contents) := by
  intro p
  by_cases hp : p = (menu.slots source).position
  · subst hp
    unfold updateQuickMoveSource
    split
    · rw [Function.update_self]
      exact Int.one_pos
    · split
      · exact h _
      · rw [Function.update_self]
        exact hremaining
  · rw [updateQuickMoveSource_of_ne hp]
    exact h p

omit [DecidableEq P] [BEq α] in
theorem leftover_sized {kept : P → Prop} (hkeeps : handler.Keeps kept) (h : MenuContents.Sized contents) :
    MenuContents.Sized (match (handler.onResultTaken contents).2 with
      | some leftover => handler.addItemOrDrop (handler.onResultTaken contents).1 leftover
      | none => (handler.onResultTaken contents).1) := by
  cases hleftover : (handler.onResultTaken contents).2 with
  | some leftover => exact hkeeps.sizedAdded _ _ (hkeeps.sizedTaken _ h) (hkeeps.sizedLeftover _ _ h hleftover)
  | none => exact hkeeps.sizedTaken _ h

omit [DecidableEq P] [BEq α] in
theorem leftover_grows {kept : P → Prop} (hkeeps : handler.Keeps kept) {p : P} (hp : kept p) :
    (contents p).size ≤ ((match (handler.onResultTaken contents).2 with
      | some leftover => handler.addItemOrDrop (handler.onResultTaken contents).1 leftover
      | none => (handler.onResultTaken contents).1) p).size := by
  cases (handler.onResultTaken contents).2 with
  | some leftover => exact (hkeeps.onResultTaken _ _ hp).trans (hkeeps.addItemOrDrop _ _ _ hp)
  | none => exact hkeeps.onResultTaken _ _ hp

omit [DecidableEq P] [BEq α] in
theorem onTake_sized {kept : P → Prop} {policy : FakeResultRemainderPolicy} {remaining : ItemStack α} (hkeeps : handler.Keeps kept)
    (h : MenuContents.Sized contents) : MenuContents.Sized (menu.onTake handler source policy remaining contents) := by
  unfold onTake
  split
  · have htaken := leftover_sized hkeeps h
    dsimp only
    split
    · rw [hkeeps.dropItem]
      exact htaken
    · exact htaken
  · exact h

omit [DecidableEq P] [BEq α] in
theorem onTake_grows {kept : P → Prop} {policy : FakeResultRemainderPolicy} {remaining : ItemStack α} (hkeeps : handler.Keeps kept)
    {p : P} (hp : kept p) : (contents p).size ≤ (menu.onTake handler source policy remaining contents p).size := by
  unfold onTake
  split
  · have htaken : (contents p).size ≤ _ := leftover_grows hkeeps hp
    dsimp only
    split
    · rw [hkeeps.dropItem]
      exact htaken
    · exact htaken
  · exact Int.le_refl _

omit [BEq α] in
theorem updateQuickMoveSource_self (menu : QuickMenu P α) (contents : MenuContents P α) (remaining : ItemStack α)
    (hplain : (menu.slots source).isFake = false) :
    (menu.updateQuickMoveSource source remaining contents (menu.slots source).position).isEmpty = true ∨
      menu.updateQuickMoveSource source remaining contents (menu.slots source).position = remaining := by
  unfold updateQuickMoveSource
  split
  · rw [Function.update_self]
    exact Or.inl rfl
  · rw [hplain, if_neg Bool.false_ne_true, Function.update_self]
    exact Or.inr rfl

theorem quickMove_turnTaken (hroute : menu.findRoute source = some route) (hlimits : menu.SameLimits route.targetSlots) (hsized : MenuContents.Sized contents)
    (hkeeps : handler.Keeps (menu.Fills source route)) :
    menu.TurnTaken source route contents (menu.quickMove handler source contents) := by
  have hnothing : (((menu.slots source).IsPlain → menu.Finished source route contents)) →
      menu.TurnTaken source route contents (.empty, contents) := by
    intro hfinished
    exact ⟨hsized, Or.inl rfl, fun _ => Turned.refl menu source route contents, fun hplain _ => hfinished hplain,
      fun _ hempty => by cases hempty⟩
  unfold quickMove
  rw [hroute]
  dsimp only
  split
  · rename_i hempty
    exact hnothing fun _ => Or.inl hempty
  · rename_i hclicked
    split
    · rename_i hpickup
      refine hnothing fun hplain => ?_
      rw [hplain.2] at hpickup
      cases hpickup
    · have hsub : ∀ target ∈ route.targets, ∀ j, target.start ≤ j → j < target.stop → j ∈ route.targetSlots :=
        fun target htarget j hj hj' => Route.mem_targetSlots.mpr ⟨target, htarget, hj, hj'⟩
      have hclicked' : (contents (menu.slots source).position).isEmpty = false := by simpa using hclicked
      obtain ⟨hmoved, hdone⟩ := menu.moveToTargets_moved source (e := ⟨contents, contents (menu.slots source).position, false⟩)
        route.direction hlimits hsub (hsized _) hclicked' rfl
      generalize menu.moveToTargets source route.direction route.targets
        ⟨contents, contents (menu.slots source).position, false⟩ = e at hmoved hdone ⊢
      split
      · -- No target took anything.
        rename_i hchanged
        obtain ⟨hsame, hexhausted⟩ := hdone.resolve_left (by simpa using hchanged)
        rw [hsame]
        refine hnothing fun _ => Or.inr fun j hj => ?_
        obtain ⟨target, htarget, hj, hj'⟩ := Route.mem_targetSlots.mp hj
        exact hexhausted target htarget j hj hj'
      · rename_i hchanged
        rcases hmoved.progress with rfl | ⟨-, hnonneg, hless, hroom⟩
        · exact absurd rfl hchanged
        rw [if_neg hless.ne]
        have hstack : 0 < e.stack.maxStackSize := by
          rw [hmoved.stack]
          exact hsized _
        have htake : (menu.slots source).isFake = false → ∀ contents : MenuContents P α,
            menu.onTake handler source route.fakeResultRemainder e.stack contents = contents := by
          intro hfake contents
          unfold onTake
          rw [hfake, if_neg Bool.false_ne_true]
        refine ⟨onTake_sized hkeeps (updateQuickMoveSource_sized (hmoved.sized hsized) hstack), Or.inr ?_, ?_, ?_, ?_⟩
        · refine Nat.lt_of_le_of_lt (openRoom_le fun j hj halias => ?_) hroom
          have hfills : menu.Fills source route (menu.slots j).position := ⟨j, hj, halias, rfl⟩
          refine le_trans ?_ (onTake_grows hkeeps hfills)
          rw [updateQuickMoveSource_of_ne hfills.ne_source]
        · rintro ⟨hfake, -⟩
          dsimp only
          rw [htake hfake]
          refine ⟨fun p hp hfills => ?_, fun p hp => ?_⟩
          · rw [updateQuickMoveSource_of_ne hp]
            exact hmoved.others p fun j hj halias heq => hfills ⟨j, hj, halias, heq⟩
          · rw [updateQuickMoveSource_of_ne hp]
            exact hmoved.bounded p
        · intro _ hempty
          exact absurd hempty hclicked
        · rintro ⟨hfake, -⟩ -
          dsimp only
          rw [htake hfake]
          rcases menu.updateQuickMoveSource_self e.contents e.stack hfake with hempty | hself
          · exact Or.inl hempty
          · rw [hself]
            by_cases hleft : e.stack.isEmpty = true
            · exact Or.inl hleft
            · refine Or.inr ?_
              have hcount : 0 < e.stack.count := (ItemStack.not_isEmpty_iff.mp (by simpa using hleft)).2
              rw [ItemStack.isSameItem, hmoved.stack, decide_eq_true_eq]
              exact ItemStack.itemKey_setCount hclicked' hcount

/-! ## The loop -/

theorem quickMoveAgain_of_isEmpty {turn : ItemStack α × MenuContents P α} (h : turn.1.isEmpty = true) {fuel : Nat} (hfuel : 0 < fuel) :
    menu.quickMoveAgain handler source fuel turn = some turn.2 := by
  obtain ⟨fuel, rfl⟩ := Nat.exists_eq_succ_of_ne_zero hfuel.ne'
  rw [quickMoveAgain, if_pos h]

theorem quickMoveAgain_settles (hroute : menu.findRoute source = some route) (hlimits : menu.SameLimits route.targetSlots)
    (hkeeps : handler.Keeps (menu.Fills source route)) (turn : ItemStack α × MenuContents P α) (hsized : MenuContents.Sized turn.2)
    (hfinished : (menu.slots source).IsPlain → turn.1.isEmpty = true → menu.Finished source route turn.2)
    (hagain : (menu.slots source).IsPlain → turn.1.isEmpty = false →
      (turn.2 (menu.slots source).position).isEmpty = true ∨ ItemStack.isSameItem (turn.2 (menu.slots source).position) turn.1 = true) :
    ∃ contents', (∀ fuel, menu.openRoom source route.targetSlots turn.2 + 2 ≤ fuel →
        menu.quickMoveAgain handler source fuel turn = some contents') ∧
      ((menu.slots source).IsPlain → menu.Turned source route turn.2 contents' ∧ menu.Finished source route contents') := by
  induction hroom : menu.openRoom source route.targetSlots turn.2 using Nat.strong_induction_on generalizing turn with
  | _ room ih =>
    by_cases hempty : turn.1.isEmpty = true
    · refine ⟨turn.2, fun fuel hfuel => quickMoveAgain_of_isEmpty hempty (by omega), fun hplain => ?_⟩
      exact ⟨Turned.refl menu source route turn.2, hfinished hplain hempty⟩
    · have hnonempty : turn.1.isEmpty = false := by simpa using hempty
      by_cases hsame : ItemStack.isSameItem (turn.2 (menu.slots source).position) turn.1 = true
      · have hnext : ∀ fuel, menu.quickMoveAgain handler source (fuel + 1) turn =
            menu.quickMoveAgain handler source fuel (menu.quickMove handler source turn.2) := by
          intro fuel
          rw [quickMoveAgain, if_neg hempty, hsame, Bool.not_true, if_neg Bool.false_ne_true]
        have htaken := quickMove_turnTaken hroute hlimits hsized hkeeps
        generalize menu.quickMove handler source turn.2 = next at htaken hnext
        rcases htaken.room with hdone | hless
        · refine ⟨next.2, fun fuel hfuel => ?_, fun hplain => ⟨htaken.turned hplain, htaken.finished hplain hdone⟩⟩
          obtain ⟨fuel, rfl⟩ : ∃ fuel', fuel = fuel' + 1 := Nat.exists_eq_succ_of_ne_zero (by omega)
          rw [hnext]
          exact quickMoveAgain_of_isEmpty hdone (by omega)
        · rw [hroom] at hless
          obtain ⟨contents', hruns, hsettled⟩ := ih _ hless next htaken.sized htaken.finished htaken.again rfl
          refine ⟨contents', fun fuel hfuel => ?_, fun hplain => ⟨(htaken.turned hplain).trans (hsettled hplain).1, (hsettled hplain).2⟩⟩
          obtain ⟨fuel, rfl⟩ : ∃ fuel', fuel = fuel' + 1 := Nat.exists_eq_succ_of_ne_zero (by omega)
          rw [hnext]
          exact hruns fuel (by omega)
      · refine ⟨turn.2, fun fuel hfuel => ?_, fun hplain => ?_⟩
        · obtain ⟨fuel, rfl⟩ : ∃ fuel', fuel = fuel' + 1 := Nat.exists_eq_succ_of_ne_zero (by omega)
          rw [quickMoveAgain, if_neg hempty, if_pos (by simpa using hsame)]
        · exact ⟨Turned.refl menu source route turn.2, Or.inl ((hagain hplain hnonempty).resolve_right hsame)⟩

/-! ## Maximality -/

/-- The slot holds a different stack, refuses this one or is full. -/
def TakesNoMore (slot : QuickSlot P α) (stack target : ItemStack α) : Prop :=
  target.isEmpty = false ∧ ItemStack.isSameItemSameComponents stack target = false ∨
    target.isEmpty = true ∧ slot.mayPlace stack = false ∨
    target.isEmpty = false ∧ slot.getMaxStackSizeForItem target ≤ target.count

/-- As before, or the stack is damaged, which never stacks, and the slot is taken. -/
def TakesNoneOf (slot : QuickSlot P α) (stack target : ItemStack α) : Prop :=
  TakesNoMore slot stack target ∨ target.isEmpty = false ∧ stack.isDamaged = true

/-- The slot is empty, or no slot of its targets takes one more. -/
def IsMaximal (menu : QuickMenu P α) (source : Nat) (takesNone : QuickSlot P α → ItemStack α → ItemStack α → Prop)
    (contents : MenuContents P α) : Prop :=
  (contents (menu.slots source).position).isEmpty = true ∨
    ∀ route, menu.findRoute source = some route → ∀ j ∈ route.targetSlots, menu.aliases source j = false →
      takesNone (menu.slots j) (contents (menu.slots source).position) (contents (menu.slots j).position)

theorem Exhausted.takesNoneOf {stack : ItemStack α} {j : Nat} (h : menu.Exhausted source stack contents j) (hstack : stack.isEmpty = false)
    (halias : menu.aliases source j = false) : TakesNoneOf (menu.slots j) stack (contents (menu.slots j).position) := by
  cases hempty : (contents (menu.slots j).position).isEmpty with
  | true => exact Or.inl (Or.inr (Or.inl ⟨hempty, h.unplaced halias hempty⟩))
  | false =>
    cases hsame : ItemStack.isSameItemSameComponents stack (contents (menu.slots j).position) with
    | false => exact Or.inl (Or.inl ⟨hempty, hsame⟩)
    | true =>
      cases hstackable : stack.isStackable with
      | true => exact Or.inl (Or.inr (Or.inr ⟨hempty, h.unmerged hstackable halias hempty hsame⟩))
      | false =>
        unfold ItemStack.isStackable at hstackable
        rw [Bool.and_eq_false_iff, decide_eq_false_iff_not] at hstackable
        rcases hstackable with hsingle | hdamaged
        · -- An item that never stacks fills its slot.
          refine Or.inl (Or.inr (Or.inr ⟨hempty, (min_le_right ..).trans ?_⟩))
          rw [← ItemStack.maxStackSize_of_same hstack hsame]
          have := (ItemStack.not_isEmpty_iff.mp hempty).2
          omega
        · refine Or.inr ⟨hempty, ?_⟩
          rw [Bool.or_eq_false_iff, Bool.not_eq_false', Bool.not_eq_false'] at hdamaged
          exact hdamaged.2

theorem Finished.isMaximal (hroute : menu.findRoute source = some route) (h : menu.Finished source route contents) :
    menu.IsMaximal source TakesNoneOf contents := by
  by_cases hempty : (contents (menu.slots source).position).isEmpty = true
  · exact Or.inl hempty
  · refine Or.inr fun route' hroute' j hj halias => ?_
    obtain rfl : route = route' := Option.some.inj (hroute.symm.trans hroute')
    exact (h.resolve_left hempty j hj).takesNoneOf (by simpa using hempty) halias

/-- **Quick move ends**, and a plain slot is left empty or no target slot takes one more of the item: each holds a
different stack, refuses the item, is full, or holds anything while the item is damaged. Only the slot and the targets
of its route change, and no target grows above its maximum. -/
theorem quick_move_maximal (menu : QuickMenu P α) (handler : ResultHandler P α) (source : Nat) (contents : MenuContents P α)
    (hsized : MenuContents.Sized contents)
    (hlimits : ∀ route, menu.findRoute source = some route → menu.SameLimits route.targetSlots)
    (hkeeps : ∀ route, menu.findRoute source = some route → handler.Keeps (menu.Fills source route)) :
    ∃ enough contents', (∀ fuel, enough ≤ fuel → menu.doQuickMove handler source fuel contents = some contents') ∧
      ((menu.slots source).IsPlain → menu.IsMaximal source TakesNoneOf contents' ∧
        (∀ p, p ≠ (menu.slots source).position → (∀ route, menu.findRoute source = some route → ¬ menu.Fills source route p) →
          contents' p = contents p) ∧
        ∀ p, p ≠ (menu.slots source).position → contents' p = contents p ∨
          ∀ route, menu.findRoute source = some route → ∀ j ∈ route.targetSlots, (menu.slots j).position = p →
            (contents' p).size ≤ (menu.slots j).getMaxStackSizeForItem (contents' p)) := by
  unfold doQuickMove
  dsimp only
  by_cases hpickup : (menu.slots source).mayPickup contents = true
  · simp only [hpickup, Bool.not_true, Bool.false_eq_true, if_false]
    by_cases hempty : (contents (menu.slots source).position).isEmpty = true
    · refine ⟨0, contents, fun fuel _ => if_pos hempty, fun _ => ⟨Or.inl hempty, fun _ _ _ => rfl, fun _ _ => Or.inl rfl⟩⟩
    · simp only [if_neg hempty]
      cases hroute : menu.findRoute source with
      | none =>
        have hstays : menu.quickMove handler source contents = (.empty, contents) := by rw [quickMove, hroute]
        refine ⟨1, contents, fun fuel hfuel => ?_, fun _ => ⟨Or.inr fun route hroute' => ?_, fun _ _ _ => rfl, fun _ _ => Or.inl rfl⟩⟩
        · rw [hstays]
          exact quickMoveAgain_of_isEmpty rfl hfuel
        · rw [hroute] at hroute'
          cases hroute'
      | some route =>
        have hkeeps := hkeeps route hroute
        have hlimits := hlimits route hroute
        have htaken := quickMove_turnTaken hroute hlimits hsized hkeeps
        obtain ⟨contents', hruns, hsettled⟩ := quickMoveAgain_settles hroute hlimits hkeeps _ htaken.sized htaken.finished htaken.again
        refine ⟨_, contents', hruns, fun hplain => ?_⟩
        have hturned := (htaken.turned hplain).trans (hsettled hplain).1
        refine ⟨(hsettled hplain).2.isMaximal hroute, fun p hp hfills => hturned.others p hp (hfills route rfl), fun p hp => ?_⟩
        refine (hturned.bounded p hp).imp id fun hle route' hroute' => ?_
        obtain rfl : route = route' := Option.some.inj hroute'
        exact hle
  · refine ⟨0, contents, fun fuel _ => ?_, fun hplain => absurd (hplain.2 contents) hpickup⟩
    rw [if_pos (by simpa using hpickup)]

end QuickMenu

/-! ## A damaged item that stacks -/

/-- A pick with a changed size limit, used once. -/
def usedPick : ItemStack Unit :=
  ⟨⟨.vanillaStatic "iron_pickaxe", [(ItemStack.maxDamageKey, .int 250), (ItemStack.damageKey, .int 0), (ItemStack.maxStackSizeKey, .int 1)]⟩,
    1, [(ItemStack.maxStackSizeKey, .set (.int 64)), (ItemStack.damageKey, .set (.int 1))], none⟩

/-- Two plain slots; the first moves into the second. -/
def twoSlots : QuickMenu Nat Unit where
  slots i := ⟨i, 99, fun _ => true, fun _ => true, false, by decide⟩
  routes := [⟨⟨0, 1⟩, [⟨1, 2⟩], .forward, .keep⟩]

def noResult : ResultHandler Nat Unit := ⟨fun contents => (contents, none), fun contents _ => contents, fun contents _ => contents⟩

theorem noResult_keeps (kept : Nat → Prop) : noResult.Keeps kept where
  onResultTaken _ _ _ := Int.le_refl _
  addItemOrDrop _ _ _ _ := Int.le_refl _
  dropItem _ _ := rfl
  sizedTaken _ h := h
  sizedLeftover _ _ _ h := by cases h
  sizedAdded _ _ h _ := h

theorem usedPick_sized : MenuContents.Sized fun _ : Nat => usedPick := by
  intro p
  show 0 < usedPick.maxStackSize
  decide

theorem used_picks_stay : (twoSlots.slots 0).IsPlain ∧ twoSlots.doQuickMove noResult 0 1 (fun _ => usedPick) = some (fun _ => usedPick) ∧
    ¬ twoSlots.IsMaximal 0 QuickMenu.TakesNoMore (fun _ => usedPick) := by
  refine ⟨⟨rfl, fun _ => rfl⟩, rfl, ?_⟩
  rintro (hempty | hnone)
  · exact absurd hempty (by decide)
  · rcases hnone _ rfl 1 (by decide) (by decide) with ⟨-, hdiffer⟩ | ⟨hempty, -⟩ | ⟨-, hfull⟩
    · exact absurd hdiffer (by decide)
    · exact absurd hempty (by decide)
    · exact absurd hfull (by decide)

theorem quick_move_maximal_twoSlots :
    ∃ enough contents', (∀ fuel, enough ≤ fuel → twoSlots.doQuickMove noResult 0 fuel (fun _ => usedPick) = some contents') ∧
      ((twoSlots.slots 0).IsPlain → twoSlots.IsMaximal 0 QuickMenu.TakesNoneOf contents' ∧
        (∀ p, p ≠ (twoSlots.slots 0).position → (∀ route, twoSlots.findRoute 0 = some route → ¬ twoSlots.Fills 0 route p) →
          contents' p = usedPick) ∧
        ∀ p, p ≠ (twoSlots.slots 0).position → contents' p = usedPick ∨
          ∀ route, twoSlots.findRoute 0 = some route → ∀ j ∈ route.targetSlots, (twoSlots.slots j).position = p →
            (contents' p).size ≤ (twoSlots.slots j).getMaxStackSizeForItem (contents' p)) :=
  QuickMenu.quick_move_maximal twoSlots noResult 0 (fun _ => usedPick) usedPick_sized (fun _ _ _ _ _ _ _ => rfl) fun _ _ => noResult_keeps _

end Foton
