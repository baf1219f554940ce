import OpcodeTables.Binary64.Shortest
import OpcodeTables.Checks
import OpcodeTables.Flags
import OpcodeTables.Text.Quoted

/-!
# Faults of a JSON document

What can be wrong with a document, as a cause each; `Fault.message` has the wording. A document is read from the front
and the first fault met is the one reported, whether it is in the syntax or in the shape.
-/

namespace OpcodeTables.Json

/-- A number of a document: integers of 64 bits keep their value, all others are binary64. -/
inductive Number where
  | natural (n : Nat)
  | negative (n : Nat)
  | real (isNegative : Bool) (magnitude : Magnitude)
deriving DecidableEq

/-- What stands where something else was wanted. -/
inductive Found where
  | null
  | boolean (b : Bool)
  | number (n : Number)
  | text (s : String)
  | sequence
  | map
  | bareVariant
deriving DecidableEq

inductive Fault where
  | endInValue
  | endInList
  | endInObject
  | endInString
  | expectedValue
  | expectedWord
  | expectedColon
  | expectedListEnd
  | expectedObjectEnd
  | keyNotText
  | trailingComma
  | trailingCharacters
  | controlCharacter
  | invalidEscape
  | loneSurrogate
  | unfinishedPair
  | invalidText
  | invalidNumber
  | numberOutOfRange
  | tooDeep
  | wrongType (found : Found) (wanted : String)
  | wrongValue (found : Number) (wanted : String)
  | wrongLength (length : Nat) (wanted : String)
  | missingField (name : String)
  | duplicateField (name : String)
  | unknownVariant (name : String) (known : List String)
  | notAScalar
  | unknownFlags (bits : UInt8)
deriving DecidableEq

def Number.message : Number → String
  | .natural n => "integer `" ++ Text.decimal n ++ "`"
  | .negative n => "integer `-" ++ Text.decimal n ++ "`"
  | .real isNegative x => "floating point `" ++ (if isNegative then "-" else "") ++ x.text ++ "`"

def Found.message : Found → String
  | .null => "null"
  | .boolean true => "boolean `true`"
  | .boolean false => "boolean `false`"
  | .number n => n.message
  | .text s => "string " ++ Text.quoted s
  | .sequence => "sequence"
  | .map => "map"
  | .bareVariant => "unit variant"

/-- The names that were expected: two are joined by "or", more are listed. -/
def expectedNames : List String → String
  | [] => "there are no variants"
  | [a] => "expected `" ++ a ++ "`"
  | [a, b] => "expected `" ++ a ++ "` or `" ++ b ++ "`"
  | names => "expected one of " ++ ", ".intercalate (names.map fun a => "`" ++ a ++ "`")

def Fault.message : Fault → String
  | .endInValue => "EOF while parsing a value"
  | .endInList => "EOF while parsing a list"
  | .endInObject => "EOF while parsing an object"
  | .endInString => "EOF while parsing a string"
  | .expectedValue => "expected value"
  | .expectedWord => "expected ident"
  | .expectedColon => "expected `:`"
  | .expectedListEnd => "expected `,` or `]`"
  | .expectedObjectEnd => "expected `,` or `\x7d`"
  | .keyNotText => "key must be a string"
  | .trailingComma => "trailing comma"
  | .trailingCharacters => "trailing characters"
  | .controlCharacter => "control character (\\u0000-\\u001F) found while parsing a string"
  | .invalidEscape => "invalid escape"
  | .loneSurrogate => "lone leading surrogate in hex escape"
  | .unfinishedPair => "unexpected end of hex escape"
  | .invalidText => "invalid unicode code point"
  | .invalidNumber => "invalid number"
  | .numberOutOfRange => "number out of range"
  | .tooDeep => "recursion limit exceeded"
  | .wrongType found wanted => "invalid type: " ++ found.message ++ ", expected " ++ wanted
  | .wrongValue found wanted => "invalid value: " ++ found.message ++ ", expected " ++ wanted
  | .wrongLength n wanted => "invalid length " ++ Text.decimal n ++ ", expected " ++ wanted
  | .missingField name => "missing field `" ++ name ++ "`"
  | .duplicateField name => "duplicate field `" ++ name ++ "`"
  | .unknownVariant name known => "unknown variant `" ++ name ++ "`, " ++ expectedNames known
  | .notAScalar => "data did not match any variant of untagged enum RawScalar"
  | .unknownFlags bits => Flags.unknownMessage bits

end OpcodeTables.Json
