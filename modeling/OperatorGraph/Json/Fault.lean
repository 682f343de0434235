/-!
Why a text cannot be read: it ends too early, it is not JSON, or it is JSON for something else.
-/

namespace OperatorGraph.Json

inductive Fault where
  | endInList
  | endInObject
  | endInText
  | endInValue
  | wantedColon
  | wantedListEnd
  | wantedObjectEnd
  | wantedWord
  | wantedValue
  | badEscape
  | badNumber
  | numberTooLarge
  | controlCharacter
  | wantedKey
  | loneSurrogate
  | trailingComma
  | trailingText
  | cutEscape
  | invalidType (found wanted : String)
  | invalidValue (found wanted : String)
  | invalidLength (length : Nat) (wanted : String)
  | unknownCase (found : String) (cases : List String)
  | missingField (field : String)
  | duplicateField (field : String)
deriving DecidableEq

inductive Category where
  | eof
  | syntactic
  | data
deriving DecidableEq

namespace Fault

def category : Fault → Category
  | endInList | endInObject | endInText | endInValue => .eof
  | invalidType _ _ | invalidValue _ _ | invalidLength _ _ | unknownCase _ _ | missingField _
  | duplicateField _ => .data
  | _ => .syntactic

/-- The cases of a choice as a message lists them. -/
def listCases (cases : List String) : String :=
  match cases with
  | [a, b] => s!"`{a}` or `{b}`"
  | _ => "one of " ++ ", ".intercalate (cases.map fun c => s!"`{c}`")

def message : Fault → String
  | endInList => "EOF while parsing a list"
  | endInObject => "EOF while parsing an object"
  | endInText => "EOF while parsing a string"
  | endInValue => "EOF while parsing a value"
  | wantedColon => "expected `:`"
  | wantedListEnd => "expected `,` or `]`"
  | wantedObjectEnd => "expected `,` or `\x7d`"
  | wantedWord => "expected ident"
  | wantedValue => "expected value"
  | badEscape => "invalid escape"
  | badNumber => "invalid number"
  | numberTooLarge => "number out of range"
  | controlCharacter =>
    "control character (\\u0000-\\u001F) found while parsing a string"
  | wantedKey => "key must be a string"
  | loneSurrogate => "lone leading surrogate in hex escape"
  | trailingComma => "trailing comma"
  | trailingText => "trailing characters"
  | cutEscape => "unexpected end of hex escape"
  | invalidType found wanted => s!"invalid type: {found}, expected {wanted}"
  | invalidValue found wanted => s!"invalid value: {found}, expected {wanted}"
  | invalidLength length wanted => s!"invalid length {length}, expected {wanted}"
  | unknownCase found cases => s!"unknown variant `{found}`, expected {listCases cases}"
  | missingField field => s!"missing field `{field}`"
  | duplicateField field => s!"duplicate field `{field}`"

end Fault

end OperatorGraph.Json
