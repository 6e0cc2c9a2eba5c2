import Foton.Snbt.Parser

/-!
# Open brackets and calls of a text

A text is read from the left without parsing it: quoted strings are skipped,
compounds and lists are counted as brackets, parentheses as calls.
-/

namespace Foton.Snbt

structure Lexed where
  quote : Option Char
  escaped : Bool
  brackets : Nat
  calls : Nat
  deepest : Nat
  deriving DecidableEq

namespace Lexed

def start : Lexed := ⟨none, false, 0, 0, 0⟩

def openBracket (l : Lexed) : Lexed :=
  { l with brackets := l.brackets + 1, deepest := max l.deepest (l.brackets + 1) }

def closeBracket (l : Lexed) : Lexed := { l with brackets := l.brackets - 1 }

def step (l : Lexed) (ch : Char) : Lexed :=
  match l.quote with
  | some terminator =>
    if l.escaped then { l with escaped := false }
    else if ch = terminator then { l with quote := none }
    else if ch = '\\' then { l with escaped := true }
    else l
  | none =>
    if ch = quotationMark ∨ ch = apostrophe then { l with quote := some ch }
    else if ch = '{' ∨ ch = '[' then l.openBracket
    else if ch = '}' ∨ ch = ']' then l.closeBracket
    else if ch = '(' then { l with calls := l.calls + 1 }
    else if ch = ')' then { l with calls := l.calls - 1 }
    else l

/-- What is open, the calls among it. -/
def opened (l : Lexed) : Nat := l.brackets + l.calls

end Lexed

def lex (text : Text) : Lexed := text.foldl Lexed.step Lexed.start

/-! ## Characters that open and close nothing -/

def delimiters : List Char := [quotationMark, apostrophe, '{', '[', '}', ']', '(', ')']

theorem not_delimiter {p : Char → Bool} (hp : ∀ d ∈ delimiters, p d = false) {ch : Char} (h : p ch = true) :
    ch ∉ delimiters := by
  intro hmem
  rw [hp ch hmem] at h
  cases h

theorem isWhitespace_delimiter : ∀ d ∈ delimiters, isWhitespace d = false := by
  have hall : delimiters.all (fun d => !isWhitespace d) := by decide
  intro d hd
  simpa using List.all_eq_true.mp hall d hd

theorem isAllowedInUnquotedString_delimiter : ∀ d ∈ delimiters, isAllowedInUnquotedString d = false := by
  have hall : delimiters.all (fun d => !isAllowedInUnquotedString d) := by decide
  intro d hd
  simpa using List.all_eq_true.mp hall d hd

namespace Lexed

variable {l : Lexed} {ch : Char}

theorem step_plain (hquote : l.quote = none) (h : ch ∉ delimiters) : l.step ch = l := by
  simp [delimiters] at h
  simp [step, hquote, h]

theorem foldl_step_plain {text : Text} (hquote : l.quote = none) (h : ∀ ch ∈ text, ch ∉ delimiters) :
    text.foldl step l = l := by
  induction text with
  | nil => rfl
  | cons ch rest ih =>
    simp only [List.forall_mem_cons] at h
    rw [List.foldl_cons, step_plain hquote h.1]
    exact ih h.2

/-! ## Inside a quoted string -/

variable {terminator : Char}

theorem step_escaped (hquote : l.quote = some terminator) (hesc : l.escaped = true) :
    l.step ch = { l with escaped := false } := by
  simp [step, hquote, hesc]

theorem step_backslash (hquote : l.quote = some terminator) (hesc : l.escaped = false) (hne : terminator ≠ '\\') :
    l.step '\\' = { l with escaped := true } := by
  simp [step, hquote, hesc, hne.symm]

theorem step_terminator (hquote : l.quote = some terminator) (hesc : l.escaped = false) :
    l.step terminator = { l with quote := none } := by
  simp [step, hquote, hesc]

theorem step_quoted (hquote : l.quote = some terminator) (hesc : l.escaped = false) (hterm : ch ≠ terminator)
    (hback : ch ≠ '\\') : l.step ch = l := by
  simp [step, hquote, hesc, hterm, hback]

theorem foldl_step_quoted {text : Text} (hquote : l.quote = some terminator) (hesc : l.escaped = false)
    (hterm : ∀ ch ∈ text, ch ≠ terminator) (hback : ∀ ch ∈ text, ch ≠ '\\') : text.foldl step l = l := by
  induction text with
  | nil => rfl
  | cons ch rest ih =>
    simp only [List.forall_mem_cons] at hterm hback
    rw [List.foldl_cons, step_quoted hquote hesc hterm.1 hback.1]
    exact ih hterm.2 hback.2

end Lexed

/-!
## What the parser reads

Every function below the recursion moves the cursor over some characters and
leaves the depth and the activations alone. What it says of these characters is
what the recursion needs: how many they are, and what they open and close.
-/

theorem utf8Len_append (a b : Text) : utf8Len (a ++ b) = utf8Len a + utf8Len b := by
  simp [utf8Len]

theorem utf8Len_reverse (a : Text) : utf8Len a.reverse = utf8Len a := by
  simp [utf8Len, List.sum_reverse]

theorem utf8Len_cons (ch : Char) (a : Text) : utf8Len (ch :: a) = ch.utf8Size + utf8Len a := by
  simp [utf8Len]

theorem utf8Len_takeWhile_append_le (p : Char → Bool) (a b : Text) :
    utf8Len ((a ++ b).takeWhile p) ≤ utf8Len a + utf8Len (b.takeWhile p) := by
  induction a with
  | nil => simp [utf8Len]
  | cons ch a ih =>
    rw [List.cons_append, List.takeWhile_cons]
    split
    · rw [utf8Len_cons, utf8Len_cons]
      omega
    · simp [utf8Len]

namespace Parser

def input (s : Parser) : Text := s.before.reverse ++ s.rest

def lexed (s : Parser) : Lexed := lex s.before.reverse

/-- Where the cursor is after the whitespace. -/
def reach (s : Parser) : Nat := s.cursor + utf8Len (s.rest.takeWhile isWhitespace)

def Settled (s : Parser) : Prop := ∀ e ∈ s.recordedError, e.cursor ≤ s.reach

def Fresh (s : Parser) : Prop := ∀ e ∈ s.recordedError, e.cursor < s.cursor

/-- No unquoted string ends at the cursor. -/
def Boundary (s : Parser) : Prop := ∀ ch ∈ s.before.head?, isAllowedInUnquotedString ch = false

theorem Fresh.settled {s : Parser} (h : s.Fresh) : s.Settled := fun e he =>
  Nat.le_of_lt (Nat.lt_of_lt_of_le (h e he) (Nat.le_add_right _ _))

/-- From `s` to `s'` the characters of `w` have been read. -/
structure Took (w : Text) (s s' : Parser) : Prop where
  rest : s.rest = w ++ s'.rest
  before : s'.before = w.reverse ++ s.before
  depth : s'.depth = s.depth
  activations : s'.activations = s.activations
  moments : s'.moments = s.moments
  settled : s.Settled → s'.Settled

namespace Took

variable {w w' : Text} {s s' s'' : Parser}

theorem refl (s : Parser) : Took [] s s := ⟨rfl, rfl, rfl, rfl, rfl, fun h => h⟩

theorem trans (h : Took w s s') (h' : Took w' s' s'') : Took (w ++ w') s s'' where
  rest := by rw [h.rest, h'.rest, List.append_assoc]
  before := by rw [h'.before, h.before, List.reverse_append, List.append_assoc]
  depth := h'.depth.trans h.depth
  activations := h'.activations.trans h.activations
  moments := h'.moments.trans h.moments
  settled hs := h'.settled (h.settled hs)

theorem input (h : Took w s s') : s'.input = s.input := by
  simp [Parser.input, h.rest, h.before]

theorem lexed (h : Took w s s') : s'.lexed = w.foldl Lexed.step s.lexed := by
  simp [Parser.lexed, lex, h.before, List.foldl_append]

theorem cursor (h : Took w s s') : s'.cursor = s.cursor + utf8Len w := by
  simp [Parser.cursor, h.before, utf8Len_append, utf8Len_reverse, Nat.add_comm]

theorem length (h : Took w s s') : s.rest.length = w.length + s'.rest.length := by
  simp [h.rest]

theorem reach_le (h : Took w s s') : s.reach ≤ s'.reach := by
  unfold reach
  rw [h.cursor, h.rest]
  have := utf8Len_takeWhile_append_le isWhitespace w s'.rest
  omega

theorem of_rest {rest : Text} (h : s.rest = w ++ rest) :
    Took w s { s with before := w.reverse ++ s.before, rest := rest } where
  rest := h
  before := rfl
  depth := rfl
  activations := rfl
  moments := rfl
  settled hs e he := by
    refine Nat.le_trans (hs e he) ?_
    simp only [reach, Parser.cursor, h, utf8Len_append, utf8Len_reverse]
    have := utf8Len_takeWhile_append_le isWhitespace w rest
    omega

theorem fresh (h : Took w s s') (hrec : s'.recordedError = s.recordedError) (hs : s.Fresh) : s'.Fresh := by
  intro e he
  rw [hrec] at he
  rw [h.cursor]
  exact Nat.lt_of_lt_of_le (hs e he) (Nat.le_add_right _ _)

theorem fresh_of_settled {ch : Char} (h : Took (w ++ [ch]) s s') (hrec : s'.recordedError = s.recordedError)
    (hw : ∀ c ∈ w, isWhitespace c = true) (hch : isWhitespace ch = false) (hs : s.Settled) : s'.Fresh := by
  intro e he
  rw [hrec] at he
  have hle := hs e he
  have hreach : s.reach = s.cursor + utf8Len w := by
    unfold reach
    rw [h.rest, List.append_assoc, List.takeWhile_append_of_pos hw]
    simp [hch]
  have hpos := Char.utf8Size_pos ch
  rw [h.cursor, utf8Len_append, utf8Len_cons]
  omega

end Took

/-! ## The rules of reading -/

/-- An error that is neither the depth limit nor a lack of fuel. -/
def Ordinary (e : Failure) : Prop := ∃ error, e = .snbt error ∧ error.kind ≠ .tooDeep

/-- `x` reads from `s`: with its value, the characters read and the state after them as in `Q`, or it fails. -/
def Reading {α : Type} (x : ParserM α) (s : Parser) (Q : α → Text → Parser → Prop) : Prop :=
  Ensures x s (fun a s' => ∃ w, Took w s s' ∧ Q a w s') fun e s' => s'.moments = s.moments ∧ Ordinary e

namespace Reading

variable {α β : Type} {x : ParserM α} {f : α → ParserM β} {s : Parser} {Q Q' : α → Text → Parser → Prop}
  {R : β → Text → Parser → Prop}

theorem pure {a : α} (h : Q a [] s) : Reading (pure a) s Q := ⟨[], .refl s, h⟩

theorem error {kind : SnbtErrorKind} (h : kind ≠ .tooDeep) : Reading (error kind) s Q := ⟨rfl, _, rfl, h⟩

theorem errorAt {cursor : Nat} {kind : SnbtErrorKind} (h : kind ≠ .tooDeep) : Reading (errorAt cursor kind) s Q :=
  ⟨rfl, _, rfl, h⟩

theorem bind (h : Reading x s Q)
    (hf : ∀ a w s', Took w s s' → Q a w s' → Reading (f a) s' fun b w' s'' => R b (w ++ w') s'') :
    Reading (x >>= f) s R := by
  refine Ensures.bind h ?_ fun _ _ h => h
  rintro a s' ⟨w, htook, hQ⟩
  refine (hf a w s' htook hQ).mono ?_ ?_
  · rintro b s'' ⟨w', htook', hR⟩
    exact ⟨w ++ w', htook.trans htook', hR⟩
  · rintro e s'' ⟨hmom, he⟩
    exact ⟨hmom.trans htook.moments, he⟩

theorem mono (h : Reading x s Q) (hQ : ∀ a w s', Took w s s' → Q a w s' → Q' a w s') : Reading x s Q' := by
  refine Ensures.mono h ?_ fun _ _ h => h
  rintro a s' ⟨w, htook, h⟩
  exact ⟨w, htook, hQ a w s' htook h⟩

theorem map {g : α → β} (h : Reading x s fun a w s' => R (g a) w s') : Reading (g <$> x) s R :=
  ensures_map.mpr h

theorem get_bind {f : Parser → ParserM β} (h : Reading (f s) s R) : Reading (get >>= f) s R := h

theorem peek_bind {f : Option Char → ParserM β} (h : Reading (f s.rest.head?) s R) : Reading (peek >>= f) s R := h

end Reading

/-! ## Characters -/

variable {s : Parser}

theorem readWhile_reading (p : Char → Bool) : Reading (readWhile p) s fun a w s' =>
    a = w ∧ (∀ ch ∈ w, p ch = true) ∧ (∀ ch ∈ s'.rest.head?, p ch = false) ∧ s'.recordedError = s.recordedError := by
  refine ⟨s.rest.takeWhile p, .of_rest (List.takeWhile_append_dropWhile).symm, rfl, ?_, ?_, rfl⟩
  · exact List.all_eq_true.mp List.all_takeWhile
  · intro ch hch
    have h := List.head?_dropWhile_not p s.rest
    rw [Option.mem_def] at hch
    simpa only [hch] using h

theorem read_reading : Reading read s fun a w s' => a.toList = w ∧ s'.recordedError = s.recordedError ∧ s.rest.head? = a := by
  unfold Reading Ensures read
  cases hrest : s.rest with
  | nil => exact ⟨[], .refl s, rfl, rfl, rfl⟩
  | cons ch rest => exact ⟨[ch], .of_rest (by simpa using hrest), rfl, rfl, rfl⟩

theorem charge_reading (bytes : Nat) : Reading (charge bytes) s fun _ w s' => w = [] ∧ s'.recordedError = s.recordedError := by
  unfold Reading Ensures charge
  cases s.budget with
  | none => exact ⟨[], .refl s, rfl, rfl⟩
  | some remaining =>
    dsimp only
    split
    · rename_i h
      split at h
      · cases h
      · cases h
        exact ⟨[], ⟨rfl, rfl, rfl, rfl, rfl, fun h => h⟩, rfl, rfl⟩
    · rename_i h
      split at h
      · cases h
        exact ⟨rfl, _, rfl, by simp⟩
      · cases h

theorem recordError_reading (kind : SnbtErrorKind) : Reading (recordError kind) s fun _ w _ => w = [] := by
  unfold Reading Ensures recordError
  refine ⟨[], ?_, rfl⟩
  dsimp only
  split
  · refine ⟨rfl, rfl, rfl, rfl, rfl, fun _ e he => ?_⟩
    cases he
    exact Nat.le_add_right _ _
  · exact .refl s

end Parser

end Foton.Snbt
