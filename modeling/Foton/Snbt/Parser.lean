import Foton.Lib.Fallible
import Foton.Snbt.Number

/-!
# The parser

The cursor splits the input into what is before it, last character first, and
the rest; it is given out in bytes. Loops and recursion take fuel, and every
public function gives as much as its input can need. Besides what the parser
keeps, its state counts the activations of `parseTag` on the call stack and
keeps each moment at which one more was added.
-/

namespace Foton.Snbt

def maxDepth : Nat := 512

def usizeMax : Nat := 2 ^ 64 - 1

def satMul (a b : Nat) : Nat := min (a * b) usizeMax

def isWhitespace (ch : Char) : Bool :=
  let code := ch.toNat
  (0x9 ≤ code && code ≤ 0xd) || (0x1c ≤ code && code ≤ 0x20) || code = 0x1680 || (0x2000 ≤ code && code ≤ 0x2006) ||
    (0x2008 ≤ code && code ≤ 0x200a) || code = 0x2028 || code = 0x2029 || code = 0x205f || code = 0x3000

/-- The length in bytes. -/
def utf8Len (text : Text) : Nat := (text.map Char.utf8Size).sum

def apostrophe : Char := Char.ofNat 39

def quotationMark : Char := Char.ofNat 34

structure SnbtError where
  cursor : Nat
  kind : SnbtErrorKind
  deriving DecidableEq

inductive Failure where
  | outOfFuel
  | snbt (error : SnbtError)
  deriving DecidableEq

/-- One more activation of `parseTag` on the stack, and the text that was before the cursor then. -/
structure Moment where
  activations : Nat
  before : Text

structure Parser where
  before : Text
  rest : Text
  recordedError : Option SnbtError
  depth : Nat
  budget : Option Nat
  activations : Nat
  moments : List Moment

abbrev ParserM (α : Type) : Type := EStateM Failure Parser α

namespace Parser

def new (input : Text) (budget : Option Nat) : Parser where
  before := []
  rest := input
  recordedError := none
  depth := 0
  budget := budget
  activations := 0
  moments := []

def cursor (s : Parser) : Nat := utf8Len s.before

/-! ## Errors -/

def error {α : Type} (kind : SnbtErrorKind) : ParserM α := fun s => .error (.snbt ⟨s.cursor, kind⟩) s

def errorAt {α : Type} (cursor : Nat) (kind : SnbtErrorKind) : ParserM α := throw (.snbt ⟨cursor, kind⟩)

def recordError (kind : SnbtErrorKind) : ParserM Unit := modify fun s =>
  if s.recordedError.all fun error => error.cursor < s.cursor then
    { s with recordedError := some ⟨s.cursor, kind⟩ }
  else s

def resolveError (s : Parser) (error : SnbtError) : SnbtError :=
  match s.recordedError with
  | some recorded => if recorded.cursor ≥ error.cursor then recorded else error
  | none => error

/-! ## Characters -/

def peek : ParserM (Option Char) := fun s => .ok s.rest.head? s

def read : ParserM (Option Char) := fun s =>
  match s.rest with
  | [] => .ok none s
  | ch :: rest => .ok (some ch) { s with before := ch :: s.before, rest := rest }

/-- Reads as long as the characters meet `p`. -/
def readWhile (p : Char → Bool) : ParserM Text := fun s =>
  .ok (s.rest.takeWhile p)
    { s with before := (s.rest.takeWhile p).reverse ++ s.before, rest := s.rest.dropWhile p }

def advance (len : Nat) : ParserM Unit := modify fun s =>
  { s with before := (s.rest.take len).reverse ++ s.before, rest := s.rest.drop len }

/-- Puts the cursor back to where it was in `earlier`. -/
def rewind (earlier : Parser) : ParserM Unit := modify fun s =>
  { s with before := earlier.before, rest := earlier.rest }

def skipWhitespace : ParserM Unit := do
  let _ ← readWhile isWhitespace

def consumeChar (expected : Char) : ParserM Bool := do
  skipWhitespace
  if (← peek) = some expected then
    let _ ← read
    pure true
  else pure false

def consumeRepeatedSeparator (separator : Char) : ParserM Bool := do
  skipWhitespace
  if (← peek) = some separator then
    let _ ← read
    pure true
  else
    recordError (.expectedSymbol separator)
    pure false

def expectChar (expected : Char) : ParserM Unit := do
  if ← consumeChar expected then pure ()
  else error (.expectedSymbol expected)

/-! ## Limits -/

/-- Runs `body` one nesting level deeper; the level is closed whatever `body` returns. -/
def nested {α : Type} (limit : Nat) (body : ParserM α) : ParserM α := fun s =>
  if s.depth ≥ limit then error .tooDeep s
  else match body { s with depth := s.depth + 1 } with
    | .ok a s' => .ok a { s' with depth := s'.depth - 1 }
    | .error e s' => .error e { s' with depth := s'.depth - 1 }

/-- Runs `body` as one more activation of `parseTag`. -/
def activation {α : Type} (body : ParserM α) : ParserM α := fun s =>
  match body { s with
      activations := s.activations + 1
      moments := ⟨s.activations + 1, s.before⟩ :: s.moments } with
  | .ok a s' => .ok a { s' with activations := s'.activations - 1 }
  | .error e s' => .error e { s' with activations := s'.activations - 1 }

def charge (bytes : Nat) : ParserM Unit := fun s =>
  match s.budget with
  | none => .ok () s
  | some remaining =>
    if bytes > remaining then error .allocationLimit s
    else .ok () { s with budget := some (remaining - bytes) }

/-! ## Strings -/

def parseCodePointDigits (digits digitCursor : Nat) : Nat → Nat → ParserM Nat
  | 0, value => pure value
  | left + 1, value => do
    match ← read with
    | none => errorAt digitCursor (.expectedHexEscape digits)
    | some ch =>
      match toDigit 16 ch with
      | none => errorAt digitCursor (.expectedHexEscape digits)
      | some digit => parseCodePointDigits digits digitCursor left (value * 16 + digit)

def charFromU32 (value : Nat) : Option Char :=
  if value < 0xd800 ∨ 0xdfff < value ∧ value < 0x110000 then some (Char.ofNat value) else none

def parseCodePointEscape (digits digitCursor : Nat) : ParserM Char := do
  let value ← parseCodePointDigits digits digitCursor digits 0
  match charFromU32 value with
  | some ch => pure ch
  | none => error (.invalidCodepoint value)

def parseNamedEscape (env : Env) : ParserM Char := do
  let braceCursor := (← get).cursor
  if (← read) ≠ some '{' then errorAt braceCursor .expectedCharacterName
  else
    let nameStart := (← get).cursor
    let name ← readWhile isAllowedInUnicodeName
    if name = [] then errorAt nameStart (.invalidCharacterName [])
    else if (← peek) ≠ some '}' then error .unclosedCharacterName
    else
      charge (satMul (utf8Len name) 4)
      let _ ← read
      match env.character name with
      | some ch => pure ch
      | none => error (.invalidCharacterName name)

def parseEscape (env : Env) : ParserM Char := do
  let escapeCursor := (← get).cursor
  match ← read with
  | none => errorAt escapeCursor .unclosedEscapeSequence
  | some ch =>
    if ch = 'b' then pure (Char.ofNat 0x8)
    else if ch = 's' then pure ' '
    else if ch = 't' then pure (Char.ofNat 0x9)
    else if ch = 'n' then pure (Char.ofNat 0xa)
    else if ch = 'f' then pure (Char.ofNat 0xc)
    else if ch = 'r' then pure (Char.ofNat 0xd)
    else if ch = '\\' ∨ ch = apostrophe ∨ ch = quotationMark then pure ch
    else if ch = 'x' then parseCodePointEscape 2 (← get).cursor
    else if ch = 'u' then parseCodePointEscape 4 (← get).cursor
    else if ch = 'U' then parseCodePointEscape 8 (← get).cursor
    else if ch = 'N' then parseNamedEscape env
    else errorAt escapeCursor (.invalidEscape ch)

def parseQuotedChars (env : Env) (terminator : Char) : Nat → Text → ParserM Text
  | 0, _ => throw .outOfFuel
  | fuel + 1, value => do
    match ← read with
    | none => error .unclosedQuotedString
    | some ch =>
      charge (satMul 16 ((← get).depth + 1))
      if ch = terminator then pure value
      else if ch = '\\' then
        let escaped ← parseEscape env
        parseQuotedChars env terminator fuel (value ++ [escaped])
      else parseQuotedChars env terminator fuel (value ++ [ch])

/-- Without a budget every charge is free, so both variants of the source are this one. -/
def parseQuotedString (env : Env) : ParserM Text := do
  match ← read with
  | some terminator =>
    if terminator = quotationMark ∨ terminator = apostrophe then
      parseQuotedChars env terminator ((← get).rest.length + 1) []
    else error .expectedQuotedString
  | none => error .expectedQuotedString

def parseUnquotedString : ParserM Text := do
  let start := (← get).cursor
  let value ← readWhile isAllowedInUnquotedString
  if value = [] then errorAt start .expectedUnquotedString
  else
    charge (satMul (satMul (utf8Len value) 6) ((← get).depth + 1))
    pure value

def parseMapKey (env : Env) : ParserM Text := do
  skipWhitespace
  let key ← match ← peek with
    | some ch =>
      if ch = quotationMark ∨ ch = apostrophe then parseQuotedString env
      else if isAllowedInUnquotedString ch then parseUnquotedString
      else error .expectedKey
    | none => error .expectedKey
  if key = [] then error .emptyKey
  else pure key

/-! ## Numbers and arrays -/

def parseNumber (env : Env) (defaultKind : DefaultIntegerKind) (allowFloat : Bool) : ParserM NbtTag := do
  let start ← get
  match scanNumberToken start.rest allowFloat with
  | .error scanError => errorAt (start.cursor + scanError.cursor) scanError.kind
  | .ok tokenLen =>
    let token := start.rest.take tokenLen
    advance tokenLen
    charge (satMul (utf8Len token) 4)
    match parseNumberToken env token defaultKind with
    | .ok tag =>
      if allowFloat && isUnsuffixedDecimalIntegerToken token then recordError (.expectedSymbol '.')
      pure tag
    | .error kind => error kind

/-- What follows an element: a separator and the next one, or the end. -/
def untilClosed {α : Type} (close : Char) (done : α) (next : ParserM α) : ParserM α := do
  if ← consumeRepeatedSeparator ',' then
    if ← consumeChar close then pure done
    else next
  else
    expectChar close
    pure done

def parseIntegers (env : Env) (defaultKind : DefaultIntegerKind) (allowedKinds : List IntegerKind) :
    Nat → List Int → ParserM (List Int)
  | 0, _ => throw .outOfFuel
  | fuel + 1, values => do
    let cursor := (← get).cursor
    match integerTagValue (← parseNumber env defaultKind false) with
    | none => errorAt cursor .expectedArrayElement
    | some (kind, value) =>
      if !allowedKinds.contains kind then errorAt cursor .invalidArrayElementType
      else
        charge (8 * 4)
        untilClosed ']' (values ++ [value]) (parseIntegers env defaultKind allowedKinds fuel (values ++ [value]))

def parseIntegerArray (env : Env) (defaultKind : DefaultIntegerKind) (allowedKinds : List IntegerKind) :
    ParserM (List Int) := do
  if ← consumeChar ']' then pure []
  else parseIntegers env defaultKind allowedKinds ((← get).rest.length + 1) []

inductive TypedArrayKind where
  | byte
  | int
  | long

namespace TypedArrayKind

def ofPrefix (ch : Char) : Option TypedArrayKind :=
  if ch = 'B' then some byte
  else if ch = 'I' then some int
  else if ch = 'L' then some long
  else none

def defaultKind : TypedArrayKind → DefaultIntegerKind
  | byte => .byte
  | int => .int
  | long => .long

def allowedKinds : TypedArrayKind → List IntegerKind
  | byte => [.byte]
  | int => [.byte, .short, .int]
  | long => [.byte, .short, .int, .long]

def tag : TypedArrayKind → List Int → NbtTag
  | byte, values => .byteArray (values.map UInt8.ofInt)
  | int, values => .intArray (values.map Int32.ofInt)
  | long, values => .longArray (values.map Int64.ofInt)

end TypedArrayKind

def parseTypedArray (env : Env) (arrayType : TypedArrayKind) : ParserM NbtTag :=
  arrayType.tag <$> parseIntegerArray env arrayType.defaultKind arrayType.allowedKinds

/-! ## Builtins -/

def int32FromBeBytes (a b c d : UInt8) : Int32 :=
  (a.toUInt32 <<< 24 ||| b.toUInt32 <<< 16 ||| c.toUInt32 <<< 8 ||| d.toUInt32).toInt32

def toIntArray (bytes : Vector UInt8 16) : List Int32 :=
  [int32FromBeBytes bytes[0] bytes[1] bytes[2] bytes[3], int32FromBeBytes bytes[4] bytes[5] bytes[6] bytes[7],
    int32FromBeBytes bytes[8] bytes[9] bytes[10] bytes[11], int32FromBeBytes bytes[12] bytes[13] bytes[14] bytes[15]]

def applyBuiltin (env : Env) (name : Text) (arguments : List NbtTag) : Except SnbtErrorKind NbtTag :=
  match arguments with
  | [value] =>
    if name = "bool".toList then
      match boolTagValue value with
      | some value => .ok (.byte (if value then 1 else 0))
      | none => .error .expectedNumberOrBoolean
    else if name = "uuid".toList then
      match value with
      | .string uuid =>
        match env.parseUuid uuid with
        | some uuid => .ok (.intArray (toIntArray uuid))
        | none => .error .expectedStringUuid
      | _ => .error .expectedStringUuid
    else .error (.unknownOperation name 1)
  | _ => .error (.unknownOperation name arguments.length)

def parseBuiltinArguments (loop : ParserM (List NbtTag)) : ParserM (List NbtTag) := do
  if ← consumeChar ')' then pure []
  else loop

def parseBuiltin (env : Env) (name : Text) (loop : ParserM (List NbtTag)) : ParserM NbtTag := do
  let arguments ← parseBuiltinArguments loop
  match applyBuiltin env name arguments with
  | .ok tag => pure tag
  | .error kind => error kind

def eqIgnoreAsciiCase (left right : Text) : Bool := left.map Char.toLower = right.map Char.toLower

def unquotedTag (value : Text) : NbtTag :=
  if eqIgnoreAsciiCase value "true".toList then .byte 1
  else if eqIgnoreAsciiCase value "false".toList then .byte 0
  else .string value

def parseUnquotedValue (env : Env) (loop : ParserM (List NbtTag)) : ParserM NbtTag := do
  let value ← parseUnquotedString
  let afterValue ← get
  skipWhitespace
  if (← peek) = some '(' then
    let _ ← read
    parseBuiltin env value loop
  else
    recordError (.expectedSymbol '(')
    rewind afterValue
    pure (unquotedTag value)

/-! ## Compounds, lists and tags -/

/-- The insertion into a map that is kept in the order of its keys. -/
def insertEntry (entries : List (Text × NbtTag)) (key : Text) (tag : NbtTag) : List (Text × NbtTag) :=
  (entries.filter fun e => e.1 ≠ key).orderedInsert (fun e e' => e.1 < e'.1) (key, tag)

def parseCompoundInner (loop : ParserM (List (Text × NbtTag))) : ParserM (List (Text × NbtTag)) := do
  expectChar '{'
  if ← consumeChar '}' then pure []
  else loop

/-- Tries the start of a typed array; without one the cursor is put back. -/
def parseArrayPrefix : ParserM (Option TypedArrayKind) := do
  let start ← get
  skipWhitespace
  match (← peek).bind TypedArrayKind.ofPrefix with
  | some arrayType =>
    let _ ← read
    if ← consumeChar ';' then pure (some arrayType)
    else
      rewind start
      pure none
  | none =>
    rewind start
    pure none

def parseListOrArrayInner (env : Env) (loop : ParserM (List NbtTag)) : ParserM NbtTag := do
  expectChar '['
  if ← consumeChar ']' then pure (.list [])
  else
    match ← parseArrayPrefix with
    | some arrayType => parseTypedArray env arrayType
    | none =>
      let tags ← loop
      pure (.list (listFromTags tags))

mutual

def parseTag (env : Env) (limit : Nat) : Nat → ParserM NbtTag
  | 0 => throw .outOfFuel
  | fuel + 1 => activation do
    charge (satMul (satMul (env.tagSize + env.stringSize + 64) 8) ((← get).depth + 1))
    skipWhitespace
    match ← peek with
    | none => error .expectedValue
    | some ch =>
      if ch = '{' then
        NbtTag.compound <$> nested limit (parseCompoundInner (parseEntries env limit fuel []))
      else if ch = '[' then nested limit (parseListOrArrayInner env (parseTags env limit ']' fuel []))
      else if ch = quotationMark ∨ ch = apostrophe then NbtTag.string <$> parseQuotedString env
      else if canStartNumber ch then parseNumber env .int true
      else if isAllowedInUnquotedString ch then parseUnquotedValue env (parseTags env limit ')' fuel [])
      else error .expectedValue

def parseEntries (env : Env) (limit : Nat) : Nat → List (Text × NbtTag) → ParserM (List (Text × NbtTag))
  | 0, _ => throw .outOfFuel
  | fuel + 1, entries => do
    let key ← parseMapKey env
    expectChar ':'
    let tag ← parseTag env limit fuel
    untilClosed '}' (insertEntry entries key tag) (parseEntries env limit fuel (insertEntry entries key tag))

/-- The elements of a list, or the arguments of a builtin. -/
def parseTags (env : Env) (limit : Nat) (close : Char) : Nat → List NbtTag → ParserM (List NbtTag)
  | 0, _ => throw .outOfFuel
  | fuel + 1, tags => do
    let tag ← parseTag env limit fuel
    untilClosed close (tags ++ [tag]) (parseTags env limit close fuel (tags ++ [tag]))

end

def parseCompound (env : Env) (limit fuel : Nat) : ParserM (List (Text × NbtTag)) :=
  nested limit (parseCompoundInner (parseEntries env limit fuel []))

/-- What a text can need. -/
def fuelFor (input : Text) : Nat := 2 * input.length + 1

end Parser

/-! ## Public functions -/

open Foton.Snbt.Parser

def resolved {α : Type} : EStateM.Result Failure Parser α → Except Failure (α × Nat)
  | .ok a s => .ok (a, s.cursor)
  | .error (.snbt error) s => .error (.snbt (s.resolveError error))
  | .error .outOfFuel _ => .error .outOfFuel

def runTag (env : Env) (limit : Nat) (budget : Option Nat) (input : Text) : EStateM.Result Failure Parser NbtTag :=
  parseTag env limit (fuelFor input) (Parser.new input budget)

def runCompound (env : Env) (limit : Nat) (budget : Option Nat) (input : Text) :
    EStateM.Result Failure Parser (List (Text × NbtTag)) :=
  parseCompound env limit (fuelFor input) (Parser.new input budget)

def parseSnbtArgument (env : Env) (budget : Option Nat) (input : Text) : Except Failure (NbtTag × Nat) :=
  resolved (runTag env maxDepth budget input)

def parseSnbtCompoundArgument (env : Env) (budget : Option Nat) (input : Text) :
    Except Failure (List (Text × NbtTag) × Nat) :=
  resolved (runCompound env maxDepth budget input)

/-- The parser with its cursor at a place in bytes. -/
def seek : Nat → Text → Text → Text × Text
  | _, before, [] => (before, [])
  | cursor, before, ch :: rest =>
    if cursor = 0 then (before, ch :: rest) else seek (cursor - ch.utf8Size) (ch :: before) rest

/-- Only whitespace may follow the value. -/
def parseWhole {α : Type} (input : Text) (argument : Except Failure (α × Nat)) : Except Failure α := do
  let (value, cursor) ← argument
  let (before, rest) := seek cursor [] input
  let trailing := rest.dropWhile isWhitespace
  if trailing ≠ [] then
    .error (.snbt ⟨utf8Len before + utf8Len (rest.takeWhile isWhitespace), .trailingData⟩)
  else pure value

def parseSnbt (env : Env) (budget : Option Nat) (input : Text) : Except Failure NbtTag :=
  parseWhole input (parseSnbtArgument env budget input)

def parseSnbtCompound (env : Env) (budget : Option Nat) (input : Text) : Except Failure (List (Text × NbtTag)) :=
  parseWhole input (parseSnbtCompoundArgument env budget input)

end Foton.Snbt
