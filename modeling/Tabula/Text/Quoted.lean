/-!
Text between quotes, as values show it. A quote and a backslash are escaped, the common control
characters have escapes of one letter, and characters that leave no mark of their own are written as
their code points.

Of the latter only some are in the table here: the controls, the blanks other than the space, the
more common format characters, the combining marks for Latin, Greek and Cyrillic letters, for some
Hebrew ones and for symbols, code points for private use, and all from U+E0000 on. The combining
marks of other scripts, such as U+093C, and code points without a character inside of a block, such
as U+0378, are missing from it and stand as they are.
-/

namespace Tabula.Text

/-- Ranges of code points that are written as escapes. These are not all that have no mark of their
own. -/
def unmarked : List (Nat × Nat) :=
  [(0x00, 0x1f), (0x7f, 0xa0), (0xad, 0xad), (0x300, 0x36f), (0x483, 0x489), (0x591, 0x5bd),
    (0x600, 0x605), (0x61c, 0x61c), (0x6dd, 0x6dd), (0x70f, 0x70f), (0x1680, 0x1680),
    (0x180b, 0x180f), (0x2000, 0x200f), (0x2028, 0x202f), (0x205f, 0x206f), (0x20d0, 0x20f0),
    (0x3000, 0x3000), (0xe000, 0xf8ff), (0xfdd0, 0xfdef), (0xfe00, 0xfe0f), (0xfe20, 0xfe2f),
    (0xfeff, 0xfeff), (0xfff0, 0xfffb), (0xfffe, 0xffff), (0xe0000, 0x10ffff)]

/-- Whether a code point lies in one of the ranges. -/
def inRanges (ranges : List (Nat × Nat)) (code : Nat) : Bool :=
  ranges.any fun (first, last) => first ≤ code && code ≤ last

/-- The digits of a number in base sixteen, lower case, with no padding. -/
def hexDigits (code : Nat) : List Char := Nat.toDigits 16 code

/-- How a character stands between quotes. -/
def quotedChar (c : Char) : List Char :=
  if c = '"' then ['\\', '"']
  else if c = '\\' then ['\\', '\\']
  else if c = '\t' then ['\\', 't']
  else if c = '\r' then ['\\', 'r']
  else if c = '\n' then ['\\', 'n']
  else if c = '\x00' then ['\\', '0']
  else if inRanges unmarked c.toNat then ['\\', 'u', '\x7b'] ++ hexDigits c.toNat ++ ['\x7d']
  else [c]

/-- A text between quotes. -/
def quoted (text : String) : String :=
  String.ofList ('"' :: text.toList.flatMap quotedChar ++ ['"'])

end Tabula.Text
