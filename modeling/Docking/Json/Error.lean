/-!
# Why a line is not JSON

A refusal names its cause and where reading stopped, as a line counted from 1 and a column: the
number of bytes of that line before the place. The place is just past the bytes read, or,
when the cause is a byte looked at but not read, just past that byte.
-/

namespace Docking

/-- Why reading a JSON text stopped. -/
inductive JsonFault where
  | endInValue
  | endInString
  | endInList
  | endInObject
  | expectedColon
  | expectedCommaOrBracket
  | expectedCommaOrBrace
  /-- A literal such as `true` is misspelt. -/
  | expectedLiteral
  | expectedValue
  | invalidEscape
  | invalidNumber
  /-- A number whose double overflows. -/
  | numberOutOfRange
  | controlCharacter
  | keyNotString
  /-- A `\u` escape of a surrogate without its partner, of either half. -/
  | unpairedSurrogate
  /-- A leading surrogate not followed by a `\u` escape. -/
  | unfinishedPair
  | trailingComma
  | trailingCharacters
  /-- Brackets and braces nested 128 deep. -/
  | tooDeep
  deriving DecidableEq, Repr, Inhabited

/-- The text of a cause. -/
def JsonFault.message : JsonFault → String
  | .endInValue => "EOF while parsing a value"
  | .endInString => "EOF while parsing a string"
  | .endInList => "EOF while parsing a list"
  | .endInObject => "EOF while parsing an object"
  | .expectedColon => "expected `:`"
  | .expectedCommaOrBracket => "expected `,` or `]`"
  | .expectedCommaOrBrace => "expected `,` or `\x7d`"
  | .expectedLiteral => "expected ident"
  | .expectedValue => "expected value"
  | .invalidEscape => "invalid escape"
  | .invalidNumber => "invalid number"
  | .numberOutOfRange => "number out of range"
  | .controlCharacter => "control character (\\u0000-\\u001F) found while parsing a string"
  | .keyNotString => "key must be a string"
  | .unpairedSurrogate => "lone leading surrogate in hex escape"
  | .unfinishedPair => "unexpected end of hex escape"
  | .trailingComma => "trailing comma"
  | .trailingCharacters => "trailing characters"
  | .tooDeep => "recursion limit exceeded"

/-- A refusal: its cause, and the line (from 1) and column where reading stopped. -/
structure JsonError where
  fault : JsonFault
  line : Nat
  column : Nat
  deriving DecidableEq, Repr, Inhabited

/-- The refusal for a cause at a byte offset of a text: the column counts the bytes of the line
before the offset. -/
def JsonError.atOffset (fault : JsonFault) (text : List UInt8) (offset : Nat) : JsonError :=
  let before := text.take offset
  { fault, line := 1 + before.count 10, column := (before.reverse.takeWhile (· != 10)).length }

/-- The text of a refusal. -/
def JsonError.message (e : JsonError) : String :=
  e.fault.message ++ " at line " ++ toString e.line ++ " column " ++ toString e.column

end Docking
