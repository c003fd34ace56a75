import Tabula.Text.Quoted

/-!
Upper and lower case of letters. The tables hold runs of letters at a fixed distance from their
partners, in ranges of Latin, Greek, Cyrillic, Georgian, full-width and Deseret letters, and single
letters with irregular partners. Letters outside of these ranges, such as the Armenian ones and most
Latin ones from U+0180 on, are missing from the tables and stay as they are. A capital sigma that
ends a word becomes the final small sigma.
-/

namespace Tabula.Text

/-- Small letters from `first` to `last`, whose capitals are `shift` code points away, `every`
apart. -/
structure LetterRun where
  first : Nat
  last : Nat
  shift : Int
  every : Nat := 1

/-- Whether a small letter belongs to a run. -/
def LetterRun.holdsSmall (run : LetterRun) (code : Nat) : Bool :=
  run.first ≤ code && code ≤ run.last && (code - run.first) % run.every == 0

/-- The capital of a small letter of the run. -/
def LetterRun.capital (run : LetterRun) (code : Nat) : Nat := ((code : Int) + run.shift).toNat

/-- Whether a capital belongs to a run. -/
def LetterRun.holdsCapital (run : LetterRun) (code : Nat) : Bool :=
  run.holdsSmall ((code : Int) - run.shift).toNat

/-- The small letter of a capital of the run. -/
def LetterRun.small (run : LetterRun) (code : Nat) : Nat := ((code : Int) - run.shift).toNat

/-- The runs of letters that pair one small letter with one capital. -/
def letterRuns : List LetterRun :=
  [ ⟨0x61, 0x7a, -32, 1⟩, ⟨0xe0, 0xf6, -32, 1⟩, ⟨0xf8, 0xfe, -32, 1⟩, ⟨0xff, 0xff, 121, 1⟩,
    ⟨0x101, 0x12f, -1, 2⟩, ⟨0x133, 0x137, -1, 2⟩, ⟨0x13a, 0x148, -1, 2⟩, ⟨0x14b, 0x177, -1, 2⟩,
    ⟨0x17a, 0x17e, -1, 2⟩, ⟨0x1c6, 0x1c6, -2, 1⟩, ⟨0x3ac, 0x3ac, -38, 1⟩, ⟨0x3ad, 0x3af, -37, 1⟩,
    ⟨0x3b1, 0x3c1, -32, 1⟩, ⟨0x3c3, 0x3cb, -32, 1⟩, ⟨0x3cc, 0x3cc, -64, 1⟩, ⟨0x3cd, 0x3ce, -63, 1⟩,
    ⟨0x430, 0x44f, -32, 1⟩, ⟨0x450, 0x45f, -80, 1⟩, ⟨0x10d0, 0x10fa, 3008, 1⟩,
    ⟨0x1f40, 0x1f45, 8, 1⟩, ⟨0xff41, 0xff5a, -32, 1⟩, ⟨0x10428, 0x1044f, -40, 1⟩ ]

/-- Letters whose upper case is not their partner in a run. -/
def irregularUpper : List (Nat × List Nat) :=
  [ (0xb5, [0x39c]), (0xdf, [0x53, 0x53]), (0x131, [0x49]), (0x149, [0x2bc, 0x4e]), (0x17f, [0x53]),
    (0x1c5, [0x1c4]), (0x3c2, [0x3a3]), (0xfb00, [0x46, 0x46]), (0xfb01, [0x46, 0x49]),
    (0xfb02, [0x46, 0x4c]) ]

/-- Letters whose lower case is not their partner in a run. -/
def irregularLower : List (Nat × List Nat) :=
  [ (0x130, [0x69, 0x307]), (0x1c5, [0x1c6]) ]

/-- The upper case of a character. -/
def upperChar (c : Char) : List Char :=
  match irregularUpper.lookup c.toNat with
  | some codes => codes.map Char.ofNat
  | none =>
      match letterRuns.find? (·.holdsSmall c.toNat) with
      | some run => [Char.ofNat (run.capital c.toNat)]
      | none => [c]

/-- The lower case of a character, apart from where it stands. -/
def lowerChar (c : Char) : List Char :=
  match irregularLower.lookup c.toNat with
  | some codes => codes.map Char.ofNat
  | none =>
      match letterRuns.find? (·.holdsCapital c.toNat) with
      | some run => [Char.ofNat (run.small c.toNat)]
      | none => [c]

/-- Whether a character is a letter with case. -/
def isCased (c : Char) : Bool := upperChar c != [c] || lowerChar c != [c]

/-- Ranges of code points that do not separate the letters of a word: apostrophes, points within
words, accents, and characters of no width. -/
def withinWord : List (Nat × Nat) :=
  [(0x27, 0x27), (0x2e, 0x2e), (0x3a, 0x3a), (0x5e, 0x5e), (0x60, 0x60), (0xa8, 0xa8), (0xad, 0xad),
    (0xaf, 0xaf), (0xb4, 0xb4), (0xb7, 0xb8), (0x2b0, 0x36f), (0x387, 0x387), (0x483, 0x489),
    (0x200b, 0x200f), (0x2018, 0x2019), (0x2024, 0x2024), (0x2027, 0x2027), (0x202a, 0x202e),
    (0x2060, 0x206f), (0xfe00, 0xfe0f), (0xfe20, 0xfe2f), (0xfeff, 0xfeff)]

/-- Whether the nearest character that may end a word is a letter with case. -/
def reachesLetter (chars : List Char) : Bool :=
  match chars.dropWhile (fun c => inRanges withinWord c.toNat) with
  | [] => false
  | c :: _ => isCased c

/-- The capital sigma. -/
def capitalSigma : Char := Char.ofNat 0x3a3

/-- The small sigma at the end of a word. -/
def finalSigma : Char := Char.ofNat 0x3c2

/-- Lowers a text, given the characters before it, nearest first. -/
def lowerFrom (before : List Char) : List Char → List Char
  | [] => []
  | c :: rest =>
      let lowered :=
        if c = capitalSigma && reachesLetter before && !reachesLetter rest then [finalSigma]
        else lowerChar c
      lowered ++ lowerFrom (c :: before) rest

/-- A text in upper case. -/
def upper (text : String) : String := String.ofList (text.toList.flatMap upperChar)

/-- A text in lower case. -/
def lower (text : String) : String := String.ofList (lowerFrom [] text.toList)

end Tabula.Text
