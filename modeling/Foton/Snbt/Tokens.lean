import Foton.Snbt.Reading

/-!
# What each token reads

Symbols open and close what they stand for; strings, keys and numbers leave
everything open as it is.
-/

namespace Foton.Snbt.Parser

variable {s : Parser}

/-! ## Symbols -/

/-- Whitespace and then the symbol has been read; no recorded error is as far as that. -/
def Consumed (expected : Char) (s : Parser) (w : Text) (s' : Parser) : Prop :=
  (∃ v, w = v ++ [expected] ∧ ∀ ch ∈ v, isWhitespace ch = true) ∧ (s.Settled → s'.Fresh)

/-- Nothing but whitespace has been read. -/
def Skipped (w : Text) : Prop := ∀ ch ∈ w, isWhitespace ch = true

theorem Skipped.foldl_step {w : Text} {l : Lexed} (h : Skipped w) (hquote : l.quote = none) : w.foldl Lexed.step l = l :=
  Lexed.foldl_step_plain hquote fun ch hch => not_delimiter isWhitespace_delimiter (h ch hch)

theorem Consumed.foldl_step {expected : Char} {w : Text} {s s' : Parser} {l : Lexed} (h : Consumed expected s w s')
    (hquote : l.quote = none) : w.foldl Lexed.step l = l.step expected := by
  obtain ⟨⟨v, rfl, hv⟩, -⟩ := h
  rw [List.foldl_append, Skipped.foldl_step hv hquote]
  rfl

theorem Consumed.length_pos {expected : Char} {w : Text} {s s' : Parser} (h : Consumed expected s w s') : 0 < w.length := by
  obtain ⟨⟨v, rfl, -⟩, -⟩ := h
  simp

theorem Consumed.head?_before {expected : Char} {w : Text} {s s' : Parser} (h : Consumed expected s w s') (ht : Took w s s') :
    s'.before.head? = some expected := by
  obtain ⟨⟨v, rfl, -⟩, -⟩ := h
  simp [ht.before]

theorem skipWhitespace_reading : Reading skipWhitespace s fun _ w s' =>
    Skipped w ∧ (∀ ch ∈ s'.rest.head?, isWhitespace ch = false) ∧ s'.recordedError = s.recordedError := by
  refine (readWhile_reading isWhitespace).bind ?_
  rintro a w s' - ⟨rfl, hw, hhead, hrec⟩
  exact .pure (by simpa using ⟨hw, hhead, hrec⟩)

theorem symbol_reading {expected : Char} (hws : isWhitespace expected = false) {α : Type} {yes no : ParserM α}
    {Q : α → Text → Parser → Prop}
    (hyes : ∀ w s', Took w s s' → Consumed expected s w s' → Reading yes s' fun a w' s'' => Q a (w ++ w') s'')
    (hno : ∀ w s', Took w s s' → Skipped w → s'.recordedError = s.recordedError → Reading no s' fun a w' s'' => Q a (w ++ w') s'') :
    Reading (do
      skipWhitespace
      if (← peek) = some expected then
        let _ ← read
        yes
      else no) s Q := by
  refine skipWhitespace_reading.bind ?_
  rintro - w s' htook ⟨hw, -, hrec⟩
  refine .peek_bind ?_
  split
  · rename_i hhead
    refine read_reading.bind ?_
    rintro a w' s'' htook' ⟨rfl, hrec', hhead'⟩
    obtain rfl : a = some expected := by rw [← hhead', hhead]
    have hboth := htook.trans htook'
    refine (hyes _ _ hboth ⟨⟨w, rfl, hw⟩, ?_⟩).mono ?_
    · exact hboth.fresh_of_settled (hrec'.trans hrec) hw hws
    · intro b w'' s''' _ h
      rw [List.append_assoc] at h
      exact h
  · exact hno w s' htook hw hrec

theorem consumeChar_reading {expected : Char} (hws : isWhitespace expected = false) :
    Reading (consumeChar expected) s fun b w s' => match b with
      | true => Consumed expected s w s'
      | false => Skipped w ∧ s'.recordedError = s.recordedError := by
  refine symbol_reading hws ?_ ?_
  · intro w s' _ h
    exact .pure (by simpa using h)
  · intro w s' _ hw hrec
    exact .pure (by simpa using ⟨hw, hrec⟩)

theorem consumeRepeatedSeparator_reading {separator : Char} (hws : isWhitespace separator = false) :
    Reading (consumeRepeatedSeparator separator) s fun b w s' => match b with
      | true => Consumed separator s w s'
      | false => Skipped w := by
  refine symbol_reading hws ?_ ?_
  · intro w s' _ h
    exact .pure (by simpa using h)
  · intro w s' _ hw _
    refine (recordError_reading _).bind ?_
    rintro - w' s'' - rfl
    exact .pure (by simpa using hw)

theorem expectChar_reading {expected : Char} (hws : isWhitespace expected = false) :
    Reading (expectChar expected) s fun _ w s' => Consumed expected s w s' := by
  refine (consumeChar_reading hws).bind ?_
  rintro (_ | _) w s' - h
  · exact .error (by simp)
  · exact .pure (by simpa using h)

/-! ## Quoted strings -/

/-- A whole number of characters and escapes of a string that `terminator` ends. -/
def QuotedChars (terminator : Char) (w : Text) : Prop :=
  ∀ l : Lexed, l.quote = some terminator → l.escaped = false → w.foldl Lexed.step l = l

theorem QuotedChars.append {terminator : Char} {w w' : Text} (h : QuotedChars terminator w) (h' : QuotedChars terminator w') :
    QuotedChars terminator (w ++ w') := by
  intro l hquote hesc
  rw [List.foldl_append, h l hquote hesc, h' l hquote hesc]

theorem QuotedChars.of_plain {terminator : Char} (hterm : terminator = quotationMark ∨ terminator = apostrophe) {w : Text}
    {p : Char → Bool} (hp : ∀ d ∈ [quotationMark, apostrophe, '\\'], p d = false) (h : ∀ ch ∈ w, p ch = true) :
    QuotedChars terminator w := by
  intro l hquote hesc
  refine Lexed.foldl_step_quoted hquote hesc ?_ ?_
  · rintro ch hch rfl
    have := hp ch (by rcases hterm with rfl | rfl <;> simp)
    rw [h ch hch] at this
    cases this
  · rintro ch hch rfl
    have := hp '\\' (by simp)
    rw [h _ hch] at this
    cases this

theorem QuotedChars.of_escape {terminator ch : Char} {w : Text} (hterm : terminator = quotationMark ∨ terminator = apostrophe)
    (h : QuotedChars terminator w) : QuotedChars terminator ('\\' :: ch :: w) := by
  intro l hquote hesc
  have hne : terminator ≠ '\\' := by rcases hterm with rfl | rfl <;> decide
  rw [List.foldl_cons, List.foldl_cons, Lexed.step_backslash hquote hesc hne, Lexed.step_escaped (by exact hquote) rfl]
  have hsame : { l with escaped := false } = l := by
    cases l
    simp_all
  exact hsame.symm ▸ h l hquote hesc

variable {terminator : Char} {env : Env}

theorem isHexDigit_quote : ∀ d ∈ [quotationMark, apostrophe, '\\'], isHexDigit d = false := by
  have hall : [quotationMark, apostrophe, '\\'].all (fun d => !isHexDigit d) := by decide
  intro d hd
  simpa using List.all_eq_true.mp hall d hd

theorem isAllowedInUnicodeName_quote : ∀ d ∈ [quotationMark, apostrophe, '\\'], isAllowedInUnicodeName d = false := by
  have hall : [quotationMark, apostrophe, '\\'].all (fun d => !isAllowedInUnicodeName d) := by decide
  intro d hd
  simpa using List.all_eq_true.mp hall d hd

theorem parseCodePointDigits_reading (digits digitCursor left value : Nat) :
    Reading (parseCodePointDigits digits digitCursor left value) s fun _ w _ => ∀ ch ∈ w, isHexDigit ch = true := by
  induction left generalizing s value with
  | zero => exact .pure (by simp)
  | succ left ih =>
    refine read_reading.bind ?_
    rintro (_ | ch) w s' - ⟨rfl, -, -⟩
    · exact .errorAt (by simp)
    · dsimp only
      split
      · exact .errorAt (by simp)
      · rename_i digit hdigit
        refine (ih _).mono ?_
        intro a w s'' _ hw
        simpa [isHexDigit, hdigit] using hw

theorem parseCodePointEscape_reading (digits digitCursor : Nat) :
    Reading (parseCodePointEscape digits digitCursor) s fun _ w _ => ∀ ch ∈ w, isHexDigit ch = true := by
  refine (parseCodePointDigits_reading _ _ _ _).bind ?_
  intro value w s' _ hw
  split
  · exact .pure (by simpa using hw)
  · exact .error (by simp)

theorem parseNamedEscape_reading (hterm : terminator = quotationMark ∨ terminator = apostrophe) :
    Reading (parseNamedEscape env) s fun _ w _ => QuotedChars terminator w := by
  have hbrace : ∀ ch : Char, ch = '{' ∨ ch = '}' → QuotedChars terminator [ch] := fun ch hch =>
    .of_plain (p := fun c => c = '{' ∨ c = '}') hterm (by simp [quotationMark, apostrophe]) (by simpa using hch)
  refine .get_bind (read_reading.bind ?_)
  rintro a w s₁ - ⟨rfl, -, -⟩
  split
  · exact .errorAt (by simp)
  · rename_i ha
    rw [not_not] at ha
    subst ha
    refine .get_bind ((readWhile_reading _).bind ?_)
    rintro name w s₂ - ⟨rfl, hname, -, -⟩
    split
    · exact .errorAt (by simp)
    · refine .peek_bind ?_
      split
      · exact .error (by simp)
      · rename_i hclose
        rw [not_not] at hclose
        refine (charge_reading _).bind ?_
        rintro - w' s₃ htook ⟨rfl, -⟩
        refine read_reading.bind ?_
        rintro a' w' s₄ - ⟨rfl, -, hhead⟩
        obtain rfl : a' = some '}' := by
          rw [← hhead, ← hclose, htook.rest, List.nil_append]
        split
        · refine .pure ?_
          have h := ((hbrace '{' (Or.inl rfl)).append (QuotedChars.of_plain hterm isAllowedInUnicodeName_quote hname)).append
            (hbrace '}' (Or.inr rfl))
          simpa using h
        · exact .error (by simp)

theorem parseEscape_reading (hterm : terminator = quotationMark ∨ terminator = apostrophe) :
    Reading (parseEscape env) s fun _ w _ => QuotedChars terminator ('\\' :: w) := by
  have hnone : ∀ ch, QuotedChars terminator ['\\', ch] := fun ch => .of_escape hterm fun _ _ _ => rfl
  have hcode : ∀ ch digits digitCursor s, Reading (parseCodePointEscape digits digitCursor) s fun _ w _ =>
      QuotedChars terminator ('\\' :: ch :: w) := fun ch digits digitCursor s =>
    (parseCodePointEscape_reading digits digitCursor).mono fun _ _ _ _ hw =>
      .of_escape hterm (.of_plain hterm isHexDigit_quote hw)
  refine .get_bind (read_reading.bind ?_)
  rintro (_ | ch) w s₁ - ⟨rfl, -, -⟩
  · exact .errorAt (by simp)
  · dsimp only
    repeat' split
    all_goals first
      | exact .pure (by simpa using hnone ch)
      | exact .get_bind (hcode ch _ _ _)
      | exact .errorAt (by simp)
      | skip
    exact (parseNamedEscape_reading hterm).mono fun _ _ _ _ hw => .of_escape hterm hw

theorem parseQuotedChars_reading (hterm : terminator = quotationMark ∨ terminator = apostrophe) {fuel : Nat} {value : Text}
    (hfuel : s.rest.length < fuel) : Reading (parseQuotedChars env terminator fuel value) s fun _ w _ =>
      ∃ v, w = v ++ [terminator] ∧ QuotedChars terminator v := by
  induction fuel generalizing s value with
  | zero => omega
  | succ fuel ih =>
    refine read_reading.bind ?_
    rintro (_ | ch) w s₁ htook ⟨rfl, -, -⟩
    · exact .error (by simp)
    · refine .get_bind ((charge_reading _).bind ?_)
      rintro - w s₂ htook' ⟨rfl, -⟩
      have hlen := htook.length
      have hlen' := htook'.length
      simp only [Option.toList, List.length_cons, List.length_nil] at hlen hlen'
      split
      · rename_i hch
        refine .pure ⟨[], ?_, fun _ _ _ => rfl⟩
        simp [hch]
      · split
        · rename_i hne hback
          subst hback
          refine (parseEscape_reading hterm).bind ?_
          intro escaped w' s₃ htook'' hw'
          refine (ih (by have := htook''.length; omega)).mono ?_
          rintro a w'' s₄ - ⟨v, rfl, hv⟩
          refine ⟨('\\' :: w') ++ v, by simp, hw'.append hv⟩
        · rename_i hne hback
          refine (ih (by omega)).mono ?_
          rintro a w'' s₄ - ⟨v, rfl, hv⟩
          refine ⟨[ch] ++ v, by simp, QuotedChars.append ?_ hv⟩
          intro l hquote hesc
          exact Lexed.step_quoted hquote hesc hne hback

/-- Characters that leave everything open as it is. -/
def Quiet (w : Text) : Prop := ∀ l : Lexed, l.quote = none → l.escaped = false → w.foldl Lexed.step l = l

theorem Quiet.of_allowed {w : Text} (h : ∀ ch ∈ w, isAllowedInUnquotedString ch = true) : Quiet w := fun _ hquote _ =>
  Lexed.foldl_step_plain hquote fun ch hch => not_delimiter isAllowedInUnquotedString_delimiter (h ch hch)

theorem Quiet.of_skipped {w : Text} (h : Skipped w) : Quiet w := fun _ hquote _ => h.foldl_step hquote

theorem Quiet.append {w w' : Text} (h : Quiet w) (h' : Quiet w') : Quiet (w ++ w') := by
  intro l hquote hesc
  rw [List.foldl_append, h l hquote hesc, h' l hquote hesc]

theorem Quiet.of_quoted (hterm : terminator = quotationMark ∨ terminator = apostrophe) {w : Text} (h : QuotedChars terminator w) :
    Quiet (terminator :: w ++ [terminator]) := by
  intro l hquote hesc
  have hopen : l.step terminator = { l with quote := some terminator } := by
    unfold Lexed.step
    rw [hquote]
    exact if_pos hterm
  have hclose := Lexed.step_terminator (l := { l with quote := some terminator }) rfl hesc
  have hall : (terminator :: w).foldl Lexed.step l = { l with quote := some terminator } := by
    rw [List.foldl_cons, hopen]
    exact h _ rfl hesc
  rw [List.foldl_append, hall, List.foldl_cons, List.foldl_nil, hclose, ← hquote]

theorem parseQuotedString_reading : Reading (parseQuotedString env) s fun _ w _ => Quiet w ∧ 0 < w.length := by
  refine read_reading.bind ?_
  rintro (_ | terminator) w s₁ - ⟨rfl, -, -⟩
  · exact .error (by simp)
  · dsimp only
    split
    · rename_i hterm
      refine .get_bind ((parseQuotedChars_reading hterm (Nat.lt_succ_self _)).mono ?_)
      rintro a w s₂ - ⟨v, rfl, hv⟩
      exact ⟨by simpa using Quiet.of_quoted hterm hv, by simp⟩
    · exact .error (by simp)

/-! ## Unquoted strings and keys -/

theorem parseUnquotedString_reading : Reading parseUnquotedString s fun a w s' =>
    a = w ∧ a ≠ [] ∧ (∀ ch ∈ a, isAllowedInUnquotedString ch = true) ∧ s'.recordedError = s.recordedError := by
  refine .get_bind ((readWhile_reading _).bind ?_)
  rintro a w s₁ - ⟨rfl, hw, -, hrec⟩
  split
  · exact .errorAt (by simp)
  · rename_i hne
    refine .get_bind ((charge_reading _).bind ?_)
    rintro - w' s₂ - ⟨rfl, hrec'⟩
    exact .pure (by simpa using ⟨hne, hw, hrec'.trans hrec⟩)

theorem parseMapKey_reading : Reading (parseMapKey env) s fun a w _ => a ≠ [] ∧ Quiet w ∧ 0 < w.length := by
  have hkey : ∀ (a : Text) (w₀ w : Text) (s' : Parser), Skipped w₀ → Quiet w → 0 < w.length →
      Reading (if a = [] then error .emptyKey else pure a) s' fun a w' _ =>
        a ≠ [] ∧ Quiet (w₀ ++ (w ++ w')) ∧ 0 < (w₀ ++ (w ++ w')).length := by
    intro a w₀ w s' hskip hquiet hpos
    split
    · exact .error (by simp)
    · rename_i hne
      exact .pure ⟨hne, by simpa using (Quiet.of_skipped hskip).append hquiet, by simp; omega⟩
  refine skipWhitespace_reading.bind ?_
  rintro - w₀ s₁ - ⟨hskip, -, -⟩
  refine .peek_bind ?_
  cases s₁.rest.head? with
  | none => exact .error (by simp)
  | some ch =>
    dsimp only
    split
    · refine parseQuotedString_reading.bind ?_
      intro a w s₂ _ ⟨hquiet, hpos⟩
      exact hkey a w₀ w s₂ hskip hquiet hpos
    · split
      · refine parseUnquotedString_reading.bind ?_
        rintro a w s₂ - ⟨rfl, hne, hall, -⟩
        exact hkey a w₀ a s₂ hskip (.of_allowed hall) (List.length_pos_iff.mpr hne)
      · exact .error (by simp)

end Foton.Snbt.Parser
