import Docking.Json.Value
import Docking.Json.Error
/-!
# Reading a JSON line

`JsonValue.readLine` reads the text of one request line by strict rules:

- blanks are space, tab, line feed and carriage return, and only blanks may follow the value;
- a string holds no control character; its escapes are the eight one-letter ones and `\u`
  with four hex digits, a leading surrogate followed at once by a trailing one;
- brackets and braces nest at most 127 deep;
- a number is an integer when written without a point or an exponent and it fits 64 bits;
  otherwise it is a float, refused if its double overflows.

The leaves read a run of bytes off the front of what is left; values nest through `value`,
`items` and `fields`, which share a step budget that the length of the text bounds.
-/

namespace Docking

namespace JsonRead

/-- A reading step over the bytes left of a text, which it knows whole to place refusals. -/
abbrev ReadM := ReaderT (List UInt8) (StateT (List UInt8) (Except JsonError))

/-- The offset of the next byte. -/
def offset : ReadM Nat := return (← read).length - (← get).length

def peek : ReadM (Option UInt8) := return (← get).head?

def skip : ReadM Unit := modify List.tail

def next : ReadM (Option UInt8) := do
  let b ← peek
  skip
  return b

/-- Refuses just past the bytes read. -/
def refuse {α : Type} (fault : JsonFault) : ReadM α := do
  throw (JsonError.atOffset fault (← read) (← offset))

/-- Refuses just past the byte looked at, or at the end when there is none. -/
def refuseAhead {α : Type} (fault : JsonFault) : ReadM α := do
  throw (JsonError.atOffset fault (← read) (min (← read).length ((← offset) + 1)))

def isBlank (b : UInt8) : Bool := b == 32 || b == 10 || b == 9 || b == 13

def isDigit (b : UInt8) : Bool := 48 ≤ b && b ≤ 57

def digitOf (b : UInt8) : Nat := (b - 48).toNat

/-- Passes over blanks; answers the byte after them. -/
def skipBlanks : ReadM (Option UInt8) := do
  modify (List.dropWhile isBlank)
  peek

/-- Reads a run of digits. -/
def digits : ReadM (List Nat) := do
  let rest ← get
  set (rest.dropWhile isDigit)
  return (rest.takeWhile isDigit).map digitOf

/-- Reads the bytes that end a literal such as `true` after its first. -/
def literal (tail : List UInt8) : ReadM Unit :=
  tail.forM fun want => do
    let some b ← next | refuse .endInValue
    if b != want then refuse .expectedLiteral

/-! ## Strings -/

def hexDigit (b : UInt8) : Option Nat :=
  if isDigit b then some (digitOf b)
  else if 97 ≤ b && b ≤ 102 then some (b - 87).toNat
  else if 65 ≤ b && b ≤ 70 then some (b - 55).toNat
  else none

/-- Four hex digits, all taken before any is checked. -/
def hex4 : ReadM Nat := do
  let rest ← get
  if rest.length < 4 then
    set ([] : List UInt8)
    refuse .endInString
  set (rest.drop 4)
  match (rest.take 4).mapM hexDigit with
  | some ds => return ds.foldl (fun n d => n * 16 + d) 0
  | none => refuse .invalidEscape

/-- Appends the UTF-8 bytes of a code point. -/
def pushCode (acc : ByteArray) (code : Nat) : ByteArray :=
  acc ++ (String.singleton (Char.ofNat code)).toUTF8

/-- The rest of a `\u` escape. A trailing surrogate is refused at once; a leading one must be
followed by a `\u` escape of a trailing one, and the two make one code point. -/
def unicodeEscape (acc : ByteArray) : ReadM ByteArray := do
  let high ← hex4
  if 0xDC00 ≤ high ∧ high ≤ 0xDFFF then refuse .unpairedSurrogate
  if high < 0xD800 ∨ 0xDBFF < high then return pushCode acc high
  for want in [92, 117] do
    let some b ← peek | refuse .endInString
    skip
    if b != want then refuse .unfinishedPair
  let low ← hex4
  if low < 0xDC00 ∨ 0xDFFF < low then refuse .unpairedSurrogate
  return pushCode acc ((high - 0xD800) * 1024 + (low - 0xDC00) + 0x10000)

/-- The byte a one-letter escape stands for. -/
def simpleEscape : UInt8 → Option UInt8
  | 34 => some 34
  | 92 => some 92
  | 47 => some 47
  | 98 => some 8
  | 102 => some 12
  | 110 => some 10
  | 114 => some 13
  | 116 => some 9
  | _ => none

/-- The rest of a string after its opening quote; each step reads at least one byte, so the
bytes left plus one are steps enough. -/
def stringRest : Nat → ByteArray → ReadM String
  | 0, _ => refuse .endInString
  | fuel + 1, acc => do
    match ← next with
    | none => refuse .endInString
    | some 34 => return (String.fromUTF8? acc).getD ""
    | some 92 =>
      match ← next with
      | none => refuse .endInString
      | some 117 => stringRest fuel (← unicodeEscape acc)
      | some b =>
        match simpleEscape b with
        | some c => stringRest fuel (acc.push c)
        | none => refuse .invalidEscape
    | some b => if b < 32 then refuse .controlCharacter else stringRest fuel (acc.push b)

/-- A string after its opening quote. -/
def string : ReadM String := do stringRest ((← get).length + 1) .empty

/-! ## Numbers -/

/-- The largest 64-bit unsigned integer. -/
def maxWord : Nat := 18446744073709551615

/-- Integer digits join the significand while it fits 64 bits; from the first that does not,
each digit raises the exponent instead. -/
def wholePart (sig exp : Nat) : List Nat → Nat × Nat
  | [] => (sig, exp)
  | d :: ds =>
    if exp = 0 ∧ sig * 10 + d ≤ maxWord then wholePart (sig * 10 + d) 0 ds
    else wholePart sig (exp + 1) ds

/-- Fraction digits join the significand while it fits 64 bits, and from the first that does
not, they are dropped; answers the significand and how many digits joined it. -/
def fractionPart (sig taken : Nat) : List Nat → Nat × Nat
  | [] => (sig, taken)
  | d :: ds => if sig * 10 + d ≤ maxWord then fractionPart (sig * 10 + d) (taken + 1) ds else (sig, taken)

/-- The value of exponent digits, or, when it passes 2^31 - 1, how many digits are read up to
and including the one that takes it there. -/
def exponentPart (x : Nat) : List Nat → Except Nat Nat
  | [] => .ok x
  | d :: ds =>
    if x * 10 + d ≤ 2147483647 then (exponentPart (x * 10 + d) ds).mapError (· + 1)
    else .error 1

/-- Whether `significand * 10^exponent` overflows as a double: the significand rounded to a
double times the power rounded to a double. Past 10^308 only zero stays finite, and a negative
power never overflows. -/
def overflowsDouble (sig : Nat) (exp : Int) : Bool :=
  if sig = 0 ∨ exp < 0 then false
  else if 308 < exp then true
  else (sig.toUInt64.toFloat * Float.ofScientific 1 false exp.toNat).isInf

/-- A number after its sign. -/
def number (negative : Bool) : ReadM JsonValue := do
  let some b ← next | refuse .endInValue
  if !isDigit b then refuse .invalidNumber
  if b == 48 && (← peek).any isDigit then refuseAhead .invalidNumber
  let (whole, shift) := wholePart (digitOf b) 0 (← digits)
  let mut sig := whole
  let mut exp : Int := shift
  let mut float := shift != 0
  if (← peek) == some 46 then
    skip
    let ds ← digits
    if ds.isEmpty then
      if (← peek).isSome then refuseAhead .invalidNumber else refuseAhead .endInValue
    let (s, taken) := fractionPart sig 0 ds
    sig := s
    exp := exp - taken
    float := true
  if (← peek) == some 101 || (← peek) == some 69 then
    skip
    let up := (← peek) != some 45
    if (← peek) == some 43 || (← peek) == some 45 then skip
    let some d ← next | refuse .endInValue
    if !isDigit d then refuse .invalidNumber
    let start ← offset
    match exponentPart (digitOf d) (← digits) with
    | .ok x =>
      exp := if up then exp + x else exp - x
      float := true
    | .error k =>
      -- the exponent passes 32 bits: infinite unless zero or negative
      if sig != 0 && up then throw (JsonError.atOffset .numberOutOfRange (← read) (start + k))
      return .float negative 0 0
  if !float then
    if !negative then return .int sig
    if 0 < sig ∧ sig ≤ 9223372036854775808 then return .int (-sig)
  if overflowsDouble sig exp then refuse .numberOutOfRange
  return .float negative sig exp

/-! ## Values -/

mutual

/-- A value after any blanks; `room` is how many more brackets may open. Each call of `value`,
`items` or `fields` spends one step of `fuel`, and every two of them read a byte. -/
def value : Nat → Nat → ReadM JsonValue
  | 0, _ => refuse .tooDeep
  | fuel + 1, room => do
    match ← skipBlanks with
    | none => refuseAhead .endInValue
    | some 110 => skip; literal [117, 108, 108]; return .null
    | some 116 => skip; literal [114, 117, 101]; return .bool true
    | some 102 => skip; literal [97, 108, 115, 101]; return .bool false
    | some 45 => skip; number true
    | some 34 => skip; return .str (← string)
    | some 91 =>
      if room = 0 then refuseAhead .tooDeep
      skip
      return .arr (← items fuel (room - 1) [])
    | some 123 =>
      if room = 0 then refuseAhead .tooDeep
      skip
      return .obj (← fields fuel (room - 1) [])
    | some b => if isDigit b then number false else refuseAhead .expectedValue

/-- The items of an array after its opening bracket; `acc` holds those read, the last first. -/
def items : Nat → Nat → List JsonValue → ReadM (List JsonValue)
  | 0, _, _ => refuse .tooDeep
  | fuel + 1, room, acc => do
    match ← skipBlanks with
    | none => refuseAhead .endInList
    | some 93 => skip; return acc.reverse
    | some b =>
      if !acc.isEmpty then
        if b != 44 then refuseAhead .expectedCommaOrBracket
        skip
        match ← skipBlanks with
        | some 93 => refuseAhead .trailingComma
        | none => refuseAhead .endInValue
        | some _ => pure ()
      items fuel room ((← value fuel room) :: acc)

/-- The fields of an object after its opening brace; `acc` holds those read, the last first. -/
def fields : Nat → Nat → List (String × JsonValue) → ReadM (List (String × JsonValue))
  | 0, _, _ => refuse .tooDeep
  | fuel + 1, room, acc => do
    match ← skipBlanks with
    | none => refuseAhead .endInObject
    | some 125 => skip; return acc.reverse
    | some b =>
      let keyStart ← if acc.isEmpty then pure (some b)
        else if b == 44 then do skip; skipBlanks
        else refuseAhead .expectedCommaOrBrace
      match keyStart with
      | some 34 =>
        skip
        let key ← string
        match ← skipBlanks with
        | some 58 => skip
        | some _ => refuseAhead .expectedColon
        | none => refuseAhead .endInObject
        fields fuel room ((key, ← value fuel room) :: acc)
      | some 125 => refuseAhead .trailingComma
      | some _ => refuseAhead .keyNotString
      | none => refuseAhead .endInValue

end

/-- A whole text: one value and nothing after it but blanks. -/
def whole : ReadM JsonValue := do
  let v ← value (2 * (← get).length + 2) 127
  if (← skipBlanks).isSome then refuseAhead .trailingCharacters
  return v

/-- The bytes of a line less a final line break, `\n` or `\r\n`. -/
def withoutBreak (line : List UInt8) : List UInt8 :=
  match line.reverse with
  | 10 :: 13 :: rest => rest.reverse
  | 10 :: rest => rest.reverse
  | _ => line

end JsonRead

/-- Reads the text of a line, less its final line break. -/
def JsonValue.readLine (line : String) : Except JsonError JsonValue :=
  let text := JsonRead.withoutBreak line.toUTF8.toList
  (JsonRead.whole.run text |>.run' text)

end Docking
