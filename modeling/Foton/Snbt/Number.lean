import Foton.Snbt.Tag
import Mathlib.Algebra.Ring.Nat
import Mathlib.Algebra.Ring.Int.Defs

/-!
# Number tokens

A number is first cut from the text as a token, then read. A token is ASCII, so
its length in characters is its length in bytes.
-/

namespace Foton.Snbt

/-! ## Errors -/

inductive SnbtNumberType where
  | byte
  | short
  | int
  | long
  deriving DecidableEq

inductive SnbtErrorKind where
  | trailingData
  | expectedSymbol (symbol : Char)
  | expectedValue
  | tooDeep
  | allocationLimit
  | expectedKey
  | emptyKey
  | expectedArrayElement
  | invalidArrayElementType
  | expectedNumberOrBoolean
  | expectedStringUuid
  | unknownOperation (name : Text) (argumentCount : Nat)
  | expectedNumber
  | expectedBinaryNumeral
  | expectedDecimalNumeral
  | expectedHexNumeral
  | expectedQuotedString
  | unclosedQuotedString
  | unclosedEscapeSequence
  | invalidEscape (ch : Char)
  | expectedHexEscape (digits : Nat)
  | invalidCodepoint (value : Nat)
  | expectedCharacterName
  | unclosedCharacterName
  | invalidCharacterName (name : Text)
  | expectedUnquotedString
  | invalidFloatingPoint
  | nonFiniteNumber
  | invalidUnderscore
  | invalidInteger
  | leadingZero
  | expectedNonNegativeNumber
  | integerTooLarge
  | numberOutOfRange (numberType : SnbtNumberType) (unsigned : Bool)
  | invalidNumber
  deriving DecidableEq

/-! ## Kinds of integers -/

inductive DefaultIntegerKind where
  | byte
  | int
  | long
  deriving DecidableEq

inductive IntegerKind where
  | byte
  | short
  | int
  | long
  deriving DecidableEq

inductive IntegerSignedness where
  | default
  | signed
  | unsigned
  deriving DecidableEq

def DefaultIntegerKind.toIntegerKind : DefaultIntegerKind → IntegerKind
  | byte => .byte
  | int => .int
  | long => .long

namespace IntegerKind

def numberType : IntegerKind → SnbtNumberType
  | byte => .byte
  | short => .short
  | int => .int
  | long => .long

def bits : IntegerKind → Nat
  | byte => 8
  | short => 16
  | int => 32
  | long => 64

/-- The tag of a value cut down to the width of the kind. -/
def tag : IntegerKind → Int → NbtTag
  | byte, value => .byte (Int8.ofInt value)
  | short, value => .short (Int16.ofInt value)
  | int, value => .int (Int32.ofInt value)
  | long, value => .long (Int64.ofInt value)

def toSignedTag (kind : IntegerKind) (value : Int) : Except SnbtErrorKind NbtTag :=
  if -2 ^ (kind.bits - 1) ≤ value ∧ value < 2 ^ (kind.bits - 1) then .ok (kind.tag value)
  else .error (.numberOutOfRange kind.numberType false)

def toUnsignedTag (kind : IntegerKind) (value : Int) : Except SnbtErrorKind NbtTag :=
  if value > 2 ^ kind.bits - 1 then .error (.numberOutOfRange kind.numberType true)
  else .ok (kind.tag value)

end IntegerKind

def integerTagValue : NbtTag → Option (IntegerKind × Int)
  | .byte value => some (.byte, value.toInt)
  | .short value => some (.short, value.toInt)
  | .int value => some (.int, value.toInt)
  | .long value => some (.long, value.toInt)
  | _ => none

def boolTagValue : NbtTag → Option Bool
  | .byte value => some (value ≠ 0)
  | .short value => some (value ≠ 0)
  | .int value => some (value ≠ 0)
  | .long value => some (value ≠ 0)
  | .float bits => some (bits &&& 0x7fffffff ≠ 0)
  | .double bits => some (bits &&& 0x7fffffffffffffff ≠ 0)
  | _ => none

/-! ## Characters -/

def canStartNumber (ch : Char) : Bool := ch = '+' || ch = '-' || ch = '.' || ch.isDigit

def isAllowedInUnquotedString (ch : Char) : Bool := ch.isAlphanum || ch = '_' || ch = '-' || ch = '.' || ch = '+'

def isAllowedInUnicodeName (ch : Char) : Bool := ch.isAlphanum || ch = '-' || ch = ' '

/-- The value of a digit of some base up to sixteen. -/
def toDigit (radix : Nat) (ch : Char) : Option Nat :=
  let value :=
    if ch.isDigit then ch.toNat - '0'.toNat
    else if 'a' ≤ ch ∧ ch ≤ 'z' then ch.toNat - 'a'.toNat + 10
    else if 'A' ≤ ch ∧ ch ≤ 'Z' then ch.toNat - 'A'.toNat + 10
    else radix
  if value < radix then some value else none

def isHexDigit (ch : Char) : Bool := (toDigit 16 ch).isSome

/-! ## Cutting a token -/

structure NumberScanError where
  cursor : Nat
  kind : SnbtErrorKind

def scanRequiredNumeral (bytes : Text) (start : Nat) (acceptsDigit : Char → Bool) (expected : SnbtErrorKind) :
    Except NumberScanError Nat :=
  let run := (bytes.drop start).takeWhile fun byte => acceptsDigit byte || byte = '_'
  if run = [] then .error ⟨start, expected⟩
  else if run.head? = some '_' ∨ run.getLast? = some '_' then .error ⟨start, .invalidUnderscore⟩
  else .ok (start + run.length)

def tryScanNumeral (bytes : Text) (start : Nat) (acceptsDigit : Char → Bool) : Option Nat :=
  (scanRequiredNumeral bytes start acceptsDigit .expectedDecimalNumeral).toOption

def tryScanExponent (bytes : Text) (cursor : Nat) : Option Nat :=
  if bytes[cursor]? = some 'e' ∨ bytes[cursor]? = some 'E' then
    let signed := bytes[cursor + 1]? = some '+' ∨ bytes[cursor + 1]? = some '-'
    tryScanNumeral bytes (cursor + 1 + if signed then 1 else 0) Char.isDigit
  else none

def scanOptionalExponent (bytes : Text) (cursor : Nat) : Nat := (tryScanExponent bytes cursor).getD cursor

def isFloatSuffix (byte : Char) : Bool := byte = 'f' || byte = 'F' || byte = 'd' || byte = 'D'

def floatSuffixLen (bytes : Text) : Nat := if bytes.head?.any isFloatSuffix then 1 else 0

def isSignednessSuffix (byte : Char) : Bool := byte = 'u' || byte = 'U' || byte = 's' || byte = 'S'

def isWidthSuffix (byte : Char) : Bool :=
  byte = 'b' || byte = 'B' || byte = 's' || byte = 'S' || byte = 'i' || byte = 'I' || byte = 'l' || byte = 'L'

def integerSuffixLen (bytes : Text) : Nat :=
  if bytes[0]?.any isSignednessSuffix && bytes[1]?.any isWidthSuffix then 2
  else if bytes[0]?.any isWidthSuffix then 1
  else 0

def withFloatSuffix (bytes : Text) (cursor : Nat) : Nat := cursor + floatSuffixLen (bytes.drop cursor)

def withIntegerSuffix (bytes : Text) (cursor : Nat) : Nat := cursor + integerSuffixLen (bytes.drop cursor)

/-- What follows the digits of a decimal numeral, when it makes a float of it. -/
def scanFloatTail (bytes : Text) (cursor : Nat) : Option Nat :=
  if bytes[cursor]? = some '.' then
    let cursor := (tryScanNumeral bytes (cursor + 1) Char.isDigit).getD (cursor + 1)
    some (withFloatSuffix bytes (scanOptionalExponent bytes cursor))
  else if bytes[cursor]? = some 'e' ∨ bytes[cursor]? = some 'E' then
    (tryScanExponent bytes cursor).map (withFloatSuffix bytes)
  else if bytes[cursor]?.any isFloatSuffix then some (cursor + 1)
  else none

def scanDecimalToken (bytes : Text) (first : Char) (start : Nat) (allowFloat : Bool) : Except NumberScanError Nat := do
  let cursor ← scanRequiredNumeral bytes start Char.isDigit .expectedDecimalNumeral
  match if allowFloat then scanFloatTail bytes cursor else none with
  | some tokenEnd => pure tokenEnd
  | none =>
    let digitCount := (((bytes.drop start).take (cursor - start)).filter (· ≠ '_')).length
    if first = '0' ∧ 1 < digitCount then .error ⟨cursor, .leadingZero⟩
    else pure (withIntegerSuffix bytes cursor)

def scanNumberToken (bytes : Text) (allowFloat : Bool) : Except NumberScanError Nat :=
  let hasSign := bytes.head? = some '+' ∨ bytes.head? = some '-'
  let start := if hasSign then 1 else 0
  match bytes[start]? with
  | none => .error ⟨start, .expectedDecimalNumeral⟩
  | some first =>
    if first = '.' then
      if !allowFloat then .error ⟨0, .expectedNumber⟩
      else do
        let cursor ← scanRequiredNumeral bytes (start + 1) Char.isDigit .expectedDecimalNumeral
        pure (withFloatSuffix bytes (scanOptionalExponent bytes cursor))
    else if !first.isDigit then
      .error ⟨start, if hasSign then .expectedDecimalNumeral else .expectedNumber⟩
    else if first = '0' ∧ (bytes[start + 1]? = some 'x' ∨ bytes[start + 1]? = some 'X') then do
      let cursor ← scanRequiredNumeral bytes (start + 2) isHexDigit .expectedHexNumeral
      pure (withIntegerSuffix bytes cursor)
    else if first = '0' ∧ (bytes[start + 1]? = some 'b' ∨ bytes[start + 1]? = some 'B') ∧
        (bytes[start + 2]?.any fun byte => byte = '0' || byte = '1' || byte = '_') then do
      let cursor ← scanRequiredNumeral bytes (start + 2) (fun byte => byte = '0' || byte = '1') .expectedBinaryNumeral
      pure (withIntegerSuffix bytes cursor)
    else scanDecimalToken bytes first start allowFloat

/-! ## Reading a token -/

def stripSign (token : Text) : Text :=
  match token with
  | '+' :: rest => rest
  | '-' :: rest => rest
  | _ => token

def startsWithRadix (lower upper : Char) (text : Text) : Bool :=
  text.take 2 = ['0', lower] || text.take 2 = ['0', upper]

def hasHexRadixPrefix (token : Text) : Bool := startsWithRadix 'x' 'X' (stripSign token)

def hasRadixPrefix (token : Text) : Bool :=
  startsWithRadix 'x' 'X' (stripSign token) || startsWithRadix 'b' 'B' (stripSign token)

def shouldParseAsFloat (token : Text) : Bool :=
  !hasRadixPrefix token &&
    (token.contains '.' || token.contains 'e' || token.contains 'E' || token.getLast?.any isFloatSuffix)

def isUnsuffixedDecimalIntegerToken (token : Text) : Bool :=
  stripSign token ≠ [] && (stripSign token).all fun byte => byte.isDigit || byte = '_'

def normalizeNumberDigits (input : Text) : Except SnbtErrorKind Text :=
  if input = [] then .error .invalidNumber
  else if input.head? = some '_' ∨ input.getLast? = some '_' then .error .invalidUnderscore
  else .ok (input.filter (· ≠ '_'))

/-- Digits read from the left, each checked before the value may grow too large. -/
def fromDigits (radix max : Nat) : Nat → Text → Except SnbtErrorKind Nat
  | value, [] => .ok value
  | value, ch :: rest =>
    match toDigit radix ch with
    | none => .error .invalidInteger
    | some digit =>
      if max < value * radix + digit then .error .integerTooLarge
      else fromDigits radix max (value * radix + digit) rest

def fromStrRadixI128 (src : Text) (radix : Nat) : Except SnbtErrorKind Int :=
  match src with
  | [] | ['+'] | ['-'] => .error .invalidInteger
  | '+' :: digits => (fromDigits radix (2 ^ 127 - 1) 0 digits).map Int.ofNat
  | '-' :: digits => (fromDigits radix (2 ^ 127) 0 digits).map fun value => -(value : Int)
  | digits => (fromDigits radix (2 ^ 127 - 1) 0 digits).map Int.ofNat

def fromStrRadixU128 (src : Text) (radix : Nat) : Except SnbtErrorKind Int :=
  match src with
  | [] | ['+'] | ['-'] => .error .invalidInteger
  | '+' :: digits => (fromDigits radix (2 ^ 128 - 1) 0 digits).map Int.ofNat
  | digits => (fromDigits radix (2 ^ 128 - 1) 0 digits).map Int.ofNat

/-- The base of an unsigned numeral and its digits. -/
def splitRadix (body : Text) : Nat × Text :=
  if startsWithRadix 'x' 'X' body then (16, body.drop 2)
  else if startsWithRadix 'b' 'B' body then (2, body.drop 2)
  else (10, body)

def parseIntegerBody (body : Text) (kind : IntegerKind) (signedness : IntegerSignedness) : Except SnbtErrorKind NbtTag :=
  let negative := body.head? = some '-'
  let (radix, digits) := splitRadix (stripSign body)
  if stripSign body = [] ∨ digits = [] then .error .invalidInteger
  else if radix = 10 ∧ 1 < digits.length ∧ digits.head? = some '0' then .error .leadingZero
  else do
    let digits ← normalizeNumberDigits digits
    let signed := signedness = .signed ∨ radix = 10 ∧ signedness ≠ .unsigned
    if negative ∧ ¬signed then .error .expectedNonNegativeNumber
    else if signed then
      let magnitude ← fromStrRadixI128 digits radix
      kind.toSignedTag (if negative then -magnitude else magnitude)
    else
      let value ← fromStrRadixU128 digits radix
      kind.toUnsignedTag value

def integerSuffixes : List (Text × IntegerKind × IntegerSignedness) :=
  [(['u', 'b'], .byte, .unsigned), (['u', 's'], .short, .unsigned), (['u', 'i'], .int, .unsigned),
    (['u', 'l'], .long, .unsigned), (['s', 'b'], .byte, .signed), (['s', 's'], .short, .signed),
    (['s', 'i'], .int, .signed), (['s', 'l'], .long, .signed), (['b'], .byte, .default),
    (['s'], .short, .default), (['i'], .int, .default), (['l'], .long, .default)]

/-- The body of a token before the first of the suffixes that it ends in. -/
def splitIntegerSuffix (token : Text) : List (Text × IntegerKind × IntegerSignedness) →
    Option (Text × IntegerKind × IntegerSignedness)
  | [] => none
  | (suffix, kind, signedness) :: rest =>
    -- A hexadecimal numeral has taken the `b` as a digit.
    if suffix = ['b'] ∧ hasHexRadixPrefix token then splitIntegerSuffix token rest
    else if suffix.isSuffixOf (token.map Char.toLower) ∧ token.take (token.length - suffix.length) ≠ [] then
      some (token.take (token.length - suffix.length), kind, signedness)
    else splitIntegerSuffix token rest

def parseIntegerToken (token : Text) (defaultKind : DefaultIntegerKind) : Except SnbtErrorKind NbtTag :=
  match splitIntegerSuffix token integerSuffixes with
  | some (body, kind, signedness) => parseIntegerBody body kind signedness
  | none => parseIntegerBody token defaultKind.toIntegerKind .default

/-! ## Floating-point tokens -/

/-- What comes from other libraries: sizes of types, tables of names, conversions of floats. -/
structure Env where
  tagSize : Nat
  stringSize : Nat
  character : Text → Option Char
  parseUuid : Text → Option (Vector UInt8 16)
  parseF64 : Text → Option UInt64
  toF32 : UInt64 → UInt32
  javaFloatString : UInt32 → Text
  javaDoubleString : UInt64 → Text

def isFiniteF32 (bits : UInt32) : Bool := bits &&& 0x7f800000 ≠ 0x7f800000

def isFiniteF64 (bits : UInt64) : Bool := bits &&& 0x7ff0000000000000 ≠ 0x7ff0000000000000

/-- Every run of underscores stands between two digits; `last` is what comes before `input`. -/
def validateFloatUnderscorePlacement (last : Option Char) : Text → Except SnbtErrorKind Unit
  | [] => .ok ()
  | ch :: rest =>
    if ch ≠ '_' then validateFloatUnderscorePlacement (some ch) rest
    else
      let next := rest.dropWhile (· = '_')
      -- Inside a run the digit before it has been looked at already.
      if (last.any fun byte => byte.isDigit || byte = '_') && next.head?.any Char.isDigit then
        validateFloatUnderscorePlacement (some ch) rest
      else .error .invalidUnderscore

def parseFloatToken (env : Env) (token : Text) : Except SnbtErrorKind NbtTag := do
  let last := token.getLast?
  let hasSuffix := last.any isFloatSuffix
  let isFloat := last = some 'f' ∨ last = some 'F'
  let body := if hasSuffix then token.dropLast else token
  validateFloatUnderscorePlacement none body
  let body ← normalizeNumberDigits body
  match env.parseF64 body with
  | none => .error .invalidFloatingPoint
  | some value =>
    if !isFiniteF64 value then .error .nonFiniteNumber
    else if isFloat then
      if !isFiniteF32 (env.toF32 value) then .error .nonFiniteNumber
      else pure (.float (env.toF32 value))
    else pure (.double value)

def parseNumberToken (env : Env) (token : Text) (defaultKind : DefaultIntegerKind) : Except SnbtErrorKind NbtTag :=
  if shouldParseAsFloat token then parseFloatToken env token
  else parseIntegerToken token defaultKind

end Foton.Snbt
