import Foton.Brigadier.Dispatcher
import Foton.Lib.KeyedSort
import Mathlib.Data.List.Lex

/-!
# Completions

A suggestion replaces a range of the input, given in UTF-16 code units. Sets of
suggestions are merged by expanding all of them to one range with the input
around them; then they are sorted.
-/

namespace Foton.Brigadier

deriving instance DecidableEq for StringRange

inductive SuggestionError where
  | invalidRange (range : StringRange) (inputLength : Nat)
  | nonEncompassingRange (outer inner : StringRange)

/-- An error of the function, or a panic. -/
inductive Failure where
  | error (error : SuggestionError)
  | panic

namespace StringRange

/-- `StringRange::at`. -/
def emptyAt (position : Nat) : StringRange where
  start := position
  stop := position

def between (start stop : Nat) : Except Failure StringRange := if start ≤ stop then .ok ⟨start, stop⟩ else .error .panic

/-- The loop of `byte_index`, which counts characters where the source counts their bytes. -/
def byteIndexFrom (utf16Index byteIndex : Nat) : Text → Nat → Option Nat
  | [], position => if utf16Index = position then some byteIndex else none
  | character :: rest, position =>
    if utf16Index = position then some byteIndex
    else if utf16Index + utf16Length [character] > position then none
    else byteIndexFrom (utf16Index + utf16Length [character]) (byteIndex + 1) rest position

def byteIndex (input : Text) (position : Nat) : Option Nat := byteIndexFrom 0 0 input position

def byteRange (range : StringRange) (input : Text) : Option (Nat × Nat) :=
  match byteIndex input range.start with
  | none => none
  | some start => (byteIndex input range.stop).map fun stop => (start, stop)

end StringRange

/-- `T` are the tooltips. -/
structure Suggestion (T : Type) where
  range : StringRange
  text : Text
  tooltip : Option T
  integer : Option Int
  deriving DecidableEq

structure Suggestions (T : Type) where
  range : StringRange
  suggestions : List (Suggestion T)

namespace Suggestion

variable {T : Type}

def new (range : StringRange) (text : Text) : Suggestion T where
  range := range
  text := text
  tooltip := none
  integer := none

def withTooltip (range : StringRange) (text : Text) (tooltip : T) : Suggestion T where
  range := range
  text := text
  tooltip := some tooltip
  integer := none

def ofInteger (range : StringRange) (val : Int) : Suggestion T where
  range := range
  text := (toString val).toList
  tooltip := none
  integer := some val

def checkedByteRange (input : Text) (range : StringRange) : Except Failure (Nat × Nat) :=
  match range.byteRange input with
  | none => .error (.error (.invalidRange range (utf16Length input)))
  | some range => .ok range

def apply (suggestion : Suggestion T) (input : Text) : Except Failure Text := do
  let range ← checkedByteRange input suggestion.range
  .ok (input.take range.1 ++ suggestion.text ++ input.drop range.2)

/-- Another range makes an integer a plain text. -/
def expand (suggestion : Suggestion T) (input : Text) (range : StringRange) : Except Failure (Suggestion T) :=
  if range.start > suggestion.range.start ∨ range.stop < suggestion.range.stop then
    .error (.error (.nonEncompassingRange range suggestion.range))
  else if range = suggestion.range then .ok suggestion
  else do
    let before ← StringRange.between range.start suggestion.range.start
    let before ← checkedByteRange input before
    let after ← StringRange.between suggestion.range.stop range.stop
    let after ← checkedByteRange input after
    .ok {
      range := range
      text := (input.take before.2).drop before.1 ++ suggestion.text ++ (input.take after.2).drop after.1
      tooltip := suggestion.tooltip
      integer := none }

/-- Texts are compared as strings are, by their characters. -/
def compareTexts (first second : Text) : Ordering := if first < second then .lt else if first = second then .eq else .gt

/-- `lower` is `str::to_lowercase`. -/
def compareIgnoreCase (lower : Text → Text) (first second : Suggestion T) : Ordering :=
  match first.integer, second.integer with
  | some a, some b => if a < b then .lt else if a = b then .eq else .gt
  | _, _ => compareTexts (lower first.text) (lower second.text)

end Suggestion

namespace Suggestions

variable {T : Type}

def empty : Suggestions T where
  range := .emptyAt 0
  suggestions := []

section
variable [DecidableEq T] (sortBy : (Suggestion T → Suggestion T → Ordering) → List (Suggestion T) → Option (List (Suggestion T)))
  (lower : Text → Text)

/-- The loop of `create` that expands, and drops what is there already. -/
def expandAll (input : Text) (range : StringRange) : List (Suggestion T) → (expanded : List (Suggestion T)) → Except Failure (List (Suggestion T))
  | [], expanded => .ok expanded
  | suggestion :: rest, expanded => do
    let suggestion ← suggestion.expand input range
    expandAll input range rest (if suggestion ∈ expanded then expanded else expanded ++ [suggestion])

/-- No start yet, `usize::MAX` in the source, is that of the first suggestion. -/
def create (input : Text) (suggestions : List (Suggestion T)) : Except Failure (Suggestions T) :=
  match suggestions with
  | [] => .ok empty
  | first :: rest => do
    let start := rest.foldl (fun start suggestion => min start suggestion.range.start) first.range.start
    let stop := rest.foldl (fun stop suggestion => max stop suggestion.range.stop) first.range.stop
    let range ← StringRange.between start stop
    let expanded ← expandAll input range (first :: rest) []
    match sortBy (Suggestion.compareIgnoreCase lower) expanded with
    | none => .error .panic
    | some sorted => .ok ⟨range, sorted⟩

def merge (input : Text) (suggestions : List (Suggestions T)) : Except Failure (Suggestions T) :=
  match suggestions with
  | [] => .ok empty
  | [first] => .ok first
  | suggestions => create sortBy lower input (suggestions.flatMap Suggestions.suggestions)

end

end Suggestions

/-! ## The builder -/

structure SuggestionsBuilder (T : Type) where
  input : Text
  start : Nat
  byteStart : Nat
  suggestions : List (Suggestion T)

/-- The calls that add a suggestion to a builder. -/
inductive Offer (T : Type) where
  | suggest (text : Text)
  | suggestWithTooltip (text : Text) (tooltip : T)
  | suggestInteger (val : Int)

namespace SuggestionsBuilder

variable {T : Type}

def new (input : Text) (start : Nat) : Except Failure (SuggestionsBuilder T) :=
  match (StringRange.emptyAt start).byteRange input with
  | none => .error (.error (.invalidRange (.emptyAt start) (utf16Length input)))
  | some range => .ok ⟨input, start, range.1, []⟩

def remaining (builder : SuggestionsBuilder T) : Text := builder.input.drop builder.byteStart

def range (builder : SuggestionsBuilder T) : Except Failure StringRange := StringRange.between builder.start (utf16Length builder.input)

/-- A text that is there already is not suggested. -/
def add (builder : SuggestionsBuilder T) : Offer T → Except Failure (SuggestionsBuilder T)
  | .suggest text =>
    if text ≠ builder.remaining then do
      let range ← builder.range
      .ok { builder with suggestions := builder.suggestions ++ [.new range text] }
    else .ok builder
  | .suggestWithTooltip text tooltip =>
    if text ≠ builder.remaining then do
      let range ← builder.range
      .ok { builder with suggestions := builder.suggestions ++ [.withTooltip range text tooltip] }
    else .ok builder
  | .suggestInteger val => do
    let range ← builder.range
    .ok { builder with suggestions := builder.suggestions ++ [.ofInteger range val] }

variable [DecidableEq T] (sortBy : (Suggestion T → Suggestion T → Ordering) → List (Suggestion T) → Option (List (Suggestion T)))
  (lower : Text → Text)

def build (builder : SuggestionsBuilder T) : Except Failure (Suggestions T) := Suggestions.create sortBy lower builder.input builder.suggestions

/-- The set of suggestions that a builder makes of some offers. -/
def Builds (input : Text) (set : Suggestions T) : Prop :=
  ∃ (start : Nat) (offers : List (Offer T)), (do
    let builder : SuggestionsBuilder T ← new input start
    let builder ← offers.foldlM add builder
    builder.build sortBy lower : Except Failure (Suggestions T)) = .ok set

end SuggestionsBuilder

end Foton.Brigadier
