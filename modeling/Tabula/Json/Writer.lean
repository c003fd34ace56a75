import Tabula.Json.Basic
import Tabula.Text.Quoted

/-!
The text of a tree, on one line or indented.
-/

namespace Tabula.Json

/-- How a character stands in a string: only the quote, the backslash and control characters are
escaped. -/
def escapedChar (c : Char) : List Char :=
  if c = '"' then ['\\', '"']
  else if c = '\\' then ['\\', '\\']
  else if c = '\x08' then ['\\', 'b']
  else if c = '\t' then ['\\', 't']
  else if c = '\n' then ['\\', 'n']
  else if c = '\x0c' then ['\\', 'f']
  else if c = '\r' then ['\\', 'r']
  else if c.toNat < 0x20 then
    let digits := Text.hexDigits c.toNat
    ['\\', 'u'] ++ List.replicate (4 - digits.length) '0' ++ digits
  else [c]

/-- A string between quotes. -/
def quoted (text : String) : String :=
  String.ofList ('"' :: text.toList.flatMap escapedChar ++ ['"'])

/-- The text of a boolean. -/
def boolText (truth : Bool) : String := if truth then "true" else "false"

mutual

/-- The text of a tree on one line, without blanks. -/
def compact : Json → String
  | null => "null"
  | bool truth => boolText truth
  | number value => value.text
  | string text => quoted text
  | array elements => String.join ["[", ",".intercalate (compactElements elements), "]"]
  | object members => String.join ["\x7b", ",".intercalate (compactMembers members), "\x7d"]

/-- The texts of the elements of an array. -/
def compactElements : List Json → List String
  | [] => []
  | element :: rest => compact element :: compactElements rest

/-- The texts of the members of an object. -/
def compactMembers : List (String × Json) → List String
  | [] => []
  | (key, value) :: rest => String.join [quoted key, ":", compact value] :: compactMembers rest

end

/-- A new line and its indentation. -/
def newLine (indent : Nat) : String := String.ofList ('\n' :: List.replicate indent ' ')

/-- Puts items on lines of their own between brackets; without items the brackets touch. -/
def bracketed (opening closing : String) (step indent : Nat) (items : List String) : String :=
  if items.isEmpty then opening ++ closing
  else
    opening ++ newLine (indent + step) ++ (("," ++ newLine (indent + step)).intercalate items) ++
      newLine indent ++ closing

mutual

/-- The text of a tree over several lines: each level is indented by `step` more blanks. -/
def prettyFrom (step indent : Nat) : Json → String
  | null => "null"
  | bool truth => boolText truth
  | number value => value.text
  | string text => quoted text
  | array elements => bracketed "[" "]" step indent (prettyElements step (indent + step) elements)
  | object members =>
      bracketed "\x7b" "\x7d" step indent (prettyMembers step (indent + step) members)

/-- The texts of the elements of an array. -/
def prettyElements (step indent : Nat) : List Json → List String
  | [] => []
  | element :: rest => prettyFrom step indent element :: prettyElements step indent rest

/-- The texts of the members of an object. -/
def prettyMembers (step indent : Nat) : List (String × Json) → List String
  | [] => []
  | (key, value) :: rest =>
      String.join [quoted key, ": ", prettyFrom step indent value] :: prettyMembers step indent rest

end

/-- The indented text of a tree. -/
def pretty (json : Json) (step : Nat) : String := prettyFrom step 0 json

end Tabula.Json
