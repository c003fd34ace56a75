import Tabula.Json.Basic

/-!
Reading a tree from its text. Each reader takes the characters it needs and returns those that
follow, or the reason why it stops together with what was still unread; from the latter the line and
column are counted.
-/

namespace Tabula.Json

/-- Why a text is no tree. -/
inductive ReadFailure where
  | endOfText
  /-- The first of the remaining characters cannot stand here. -/
  | unexpected (remaining : List Char)
  | tooDeep
  /-- An escaped surrogate is not followed by its partner. -/
  | brokenPair

/-- Whether a character may stand between the parts of a tree. -/
def isBlank (c : Char) : Bool := c == ' ' || (9 ≤ c.toNat && c.toNat ≤ 13)

/-- Passes over blanks. -/
def skipBlanks (text : List Char) : List Char := text.dropWhile isBlank

/-- Fails at a character, or at the end of the text. -/
def refuse {α : Type} : List Char → Except ReadFailure (α × List Char)
  | [] => .error .endOfText
  | remaining => .error (.unexpected remaining)

/-- Reads the characters of a fixed word. -/
def readWord {α : Type} (result : α) : List Char → List Char → Except ReadFailure (α × List Char)
  | [], text => .ok (result, text)
  | wanted :: word, c :: rest =>
      if c = wanted then readWord result word rest else refuse (c :: rest)
  | _ :: _, [] => .error .endOfText

/-! ## Numbers -/

/-- The value of a digit. -/
def digitValue (c : Char) : Nat := c.toNat - '0'.toNat

/-- Appends digits before the point to a mantissa of 64 bits; a digit that no longer fits raises the
exponent instead. -/
def takeWhole (digits : List Char) : Nat × Int :=
  digits.foldl
    (fun (mantissa, exponent) digit =>
      let next := mantissa * 10 + digitValue digit
      if next < twoTo 64 then (next, exponent) else (mantissa, exponent + 1))
    (0, 0)

/-- Appends digits after the point; a digit that no longer fits is dropped. -/
def takeFraction (digits : List Char) (start : Nat × Int) : Nat × Int :=
  digits.foldl
    (fun (mantissa, exponent) digit =>
      let next := mantissa * 10 + digitValue digit
      if next < twoTo 64 then (next, exponent - 1) else (mantissa, exponent))
    start

/-- Adds a written exponent. Exponents have 16 bits and stop at the ends of that range. -/
def takeExponent (negative : Bool) (digits : List Char) (exponent : Int) : Int :=
  let written := min 32767 (digits.foldl (fun value digit => value * 10 + digitValue digit) 0)
  let sum := if negative then exponent - written else exponent + written
  max (-32768) (min 32767 sum)

/-- Reads one digit or more. -/
def readDigits (text : List Char) : Except ReadFailure (List Char × List Char) :=
  match text.span Char.isDigit with
  | ([], rest) => refuse rest
  | (digits, rest) => .ok (digits, rest)

/-- Reads the digits before the point: a single zero, or digits that start with another one. -/
def readWhole : List Char → Except ReadFailure (List Char × List Char)
  | '0' :: rest => .ok (['0'], rest)
  | text => readDigits text

/-- Reads the point and the digits after it, if there is a point. -/
def readFraction : List Char → Except ReadFailure (List Char × List Char)
  | '.' :: rest => readDigits rest
  | text => .ok ([], text)

/-- Reads an exponent, if there is one: whether it is negative, and its digits. -/
def readExponent : List Char → Except ReadFailure (Option (Bool × List Char) × List Char)
  | c :: rest =>
      if c = 'e' || c = 'E' then do
        let (negative, rest) :=
          match rest with
          | '-' :: rest => (true, rest)
          | '+' :: rest => (false, rest)
          | rest => (false, rest)
        let (digits, rest) ← readDigits rest
        return (some (negative, digits), rest)
      else .ok (none, c :: rest)
  | [] => .ok (none, [])

/-- Reads a number after its sign. -/
def readNumber (negative : Bool) (text : List Char) : Except ReadFailure (Number × List Char) := do
  let (whole, rest) ← readWhole text
  let (fraction, rest) ← readFraction rest
  let (power, rest) ← readExponent rest
  let (mantissa, exponent) := takeFraction fraction (takeWhole whole)
  let exponent :=
    match power with
    | some (negativePower, digits) => takeExponent negativePower digits exponent
    | none => exponent
  return (.finite negative mantissa exponent, rest)

/-! ## Strings -/

/-- The value of a hexadecimal digit. -/
def hexValue? (c : Char) : Option Nat :=
  if c.isDigit then some (c.toNat - '0'.toNat)
  else if 'a' ≤ c && c ≤ 'f' then some (c.toNat - 'a'.toNat + 10)
  else if 'A' ≤ c && c ≤ 'F' then some (c.toNat - 'A'.toNat + 10)
  else none

/-- Reads so many hexadecimal digits. -/
def readHex : Nat → Nat → List Char → Except ReadFailure (Nat × List Char)
  | 0, value, text => .ok (value, text)
  | _ + 1, _, [] => .error .endOfText
  | digits + 1, value, c :: rest =>
      match hexValue? c with
      | some digit => readHex digits (value * 16 + digit) rest
      | none => refuse (c :: rest)

/-- The character of a pair of surrogates. -/
def pairedChar? (high low : Nat) : Option Char :=
  if 0xd800 ≤ high && high < 0xdc00 && 0xdc00 ≤ low && low < 0xe000 then
    some (Char.ofNat (0x10000 + (high - 0xd800) * 0x400 + (low - 0xdc00)))
  else none

/-- Reads the rest of an escape by code unit. A surrogate needs a second unit right after it. -/
def readUnit (text : List Char) : Except ReadFailure (Char × List Char) := do
  let (unit, rest) ← readHex 4 0 text
  if 0xd800 ≤ unit && unit < 0xe000 then
    let ((), rest) ← readWord () ['\\', 'u'] rest
    let (partner, rest) ← readHex 4 0 rest
    match pairedChar? unit partner with
    | some c => return (c, rest)
    | none => throw .brokenPair
  else return (Char.ofNat unit, rest)

/-- Reads an escape after its backslash. -/
def readEscape : List Char → Except ReadFailure (Char × List Char)
  | [] => .error .endOfText
  | c :: rest =>
      if c = '"' || c = '\\' || c = '/' then .ok (c, rest)
      else if c = 'b' then .ok ('\x08', rest)
      else if c = 'f' then .ok ('\x0c', rest)
      else if c = 't' then .ok ('\t', rest)
      else if c = 'r' then .ok ('\r', rest)
      else if c = 'n' then .ok ('\n', rest)
      else if c = 'u' then readUnit rest
      else refuse (c :: rest)

/-- Reads a string after its opening quote; `read` holds the characters so far, last one first.
Every step takes a character of the text, so as many steps as it has characters are enough. -/
def readChars : Nat → List Char → List Char → Except ReadFailure (String × List Char)
  | 0, _, _ => .error .endOfText
  | _, _, [] => .error .endOfText
  | steps + 1, read, c :: rest =>
      if c = '"' then .ok (String.ofList read.reverse, rest)
      else if c = '\\' then do
        let (escaped, rest) ← readEscape rest
        readChars steps (escaped :: read) rest
      else if c.toNat < 0x20 then refuse (c :: rest)
      else readChars steps (c :: read) rest

/-! ## Trees -/

mutual

/-- Reads a tree that starts at the first character. `room` is how many more arrays and objects with
contents may be opened around what follows. -/
def readTree : Nat → Nat → List Char → Except ReadFailure (Json × List Char)
  | 0, _, _ => .error .endOfText
  | _, _, [] => .error .endOfText
  | steps + 1, room, c :: rest =>
      if c = '[' then
        match skipBlanks rest with
        | [] => .error .endOfText
        | next :: after =>
            if next = ']' then .ok (.array [], after)
            else
              match room with
              | 0 => .error .tooDeep
              | room + 1 => readElements steps room [] (next :: after)
      else if c = '\x7b' then
        match skipBlanks rest with
        | [] => .error .endOfText
        | next :: after =>
            if next = '\x7d' then .ok (.object [], after)
            else
              match room with
              | 0 => .error .tooDeep
              | room + 1 => readMembers steps room [] (next :: after)
      else if c = '"' then (fun (text, rest) => (.string text, rest)) <$> readChars steps [] rest
      else if c = '-' then (fun (value, rest) => (.number value, rest)) <$> readNumber true rest
      else if c.isDigit then
        (fun (value, rest) => (.number value, rest)) <$> readNumber false (c :: rest)
      else if c = 't' then readWord (.bool true) ['r', 'u', 'e'] rest
      else if c = 'f' then readWord (.bool false) ['a', 'l', 's', 'e'] rest
      else if c = 'n' then readWord .null ['u', 'l', 'l'] rest
      else refuse (c :: rest)

/-- Reads the elements of an array up to its closing bracket; `read` holds those so far, last one
first. -/
def readElements : Nat → Nat → List Json → List Char → Except ReadFailure (Json × List Char)
  | 0, _, _, _ => .error .endOfText
  | steps + 1, room, read, text => do
      let (element, rest) ← readTree steps room text
      match skipBlanks rest with
      | ',' :: rest => readElements steps room (element :: read) (skipBlanks rest)
      | ']' :: rest => return (.array (element :: read).reverse, rest)
      | rest => refuse rest

/-- Reads the members of an object up to its closing brace. A key that comes again keeps its first
place and takes the new value. -/
def readMembers : Nat → Nat → Table Json → List Char → Except ReadFailure (Json × List Char)
  | 0, _, _, _ => .error .endOfText
  | steps + 1, room, read, '"' :: text => do
      let (key, rest) ← readChars steps [] text
      let ((), rest) ← readWord () [':'] (skipBlanks rest)
      let (value, rest) ← readTree steps room (skipBlanks rest)
      match skipBlanks rest with
      | ',' :: rest => readMembers steps room (read.insert key value) (skipBlanks rest)
      | '\x7d' :: rest => return (.object (read.insert key value), rest)
      | rest => refuse rest
  | _, _, _, text => refuse text

end

/-- How many arrays and objects with contents may stand around another one in a program's text. -/
def depthLimit : Nat := 512

/-- Reads a whole text as one tree, with blanks around it. Every second step takes a character. -/
def readWithin (limit : Nat) (text : List Char) : Except ReadFailure Json := do
  let (json, rest) ← readTree (2 * text.length + 2) limit (skipBlanks text)
  match skipBlanks rest with
  | [] => return json
  | rest => throw (.unexpected rest)

/-! ## Messages -/

/-- The lines of a text, without their ends, which are a newline or a carriage return and a newline.
What follows the last newline is a line only if it is not empty. `current` is the line so far, last
character first. -/
def linesFrom : List Char → List Char → List (List Char)
  | [], [] => []
  | current, [] => [current.reverse]
  | current, c :: rest =>
      if c = '\n' then
        let line :=
          match current with
          | '\r' :: line => line
          | line => line
        line.reverse :: linesFrom [] rest
      else linesFrom (c :: current) rest

/-- The place after a text: one past the end of its last line. -/
def placeAfter (before : List Char) : Nat × Nat :=
  match (linesFrom [] before).reverse with
  | [] => (1, 1)
  | last :: earlier => (earlier.length + 1, last.length + 1)

/-- What is wrong with a text. -/
def ReadFailure.message (failure : ReadFailure) (text : List Char) : String :=
  match failure with
  | endOfText => "Unexpected end of JSON"
  | tooDeep => "Exceeded depth limit"
  | brokenPair => "Failed to parse UTF-8 bytes"
  | unexpected remaining =>
      let (line, column) := placeAfter (text.take (text.length - remaining.length))
      String.join
        ["Unexpected character: ", String.ofList (remaining.take 1), " at (", Nat.repr line, ":",
          Nat.repr column, ")"]

/-- Reads a text as one tree, or says what is wrong with it. -/
def parse (source : String) : Except String Json :=
  (readWithin depthLimit source.toList).mapError (·.message source.toList)

end Tabula.Json
