import Tabula.Path

/-!
A tree of files below the current directory, and what reading from it gives. Directories are the
proper beginnings of the files' paths; nothing is known about what lies outside.
-/

namespace Tabula

/-- Why a file cannot be read as text. -/
inductive FileFault where
  | notFound
  | notDirectory
  | isDirectory
  | nameTooLong
  | nullInName
  | notText
deriving DecidableEq, Repr

/-- The text of a fault. -/
def FileFault.message : FileFault → String
  | notFound => "No such file or directory (os error 2)"
  | notDirectory => "Not a directory (os error 20)"
  | isDirectory => "Is a directory (os error 21)"
  | nameTooLong => "File name too long (os error 36)"
  | nullInName => "file name contained an unexpected NUL byte"
  | notText => "stream did not contain valid UTF-8"

/-- The number that the system has for a fault, if it is the system that reports it. -/
def FileFault.number? : FileFault → Option Nat
  | notFound => some 2
  | notDirectory => some 20
  | isDirectory => some 21
  | nameTooLong => some 36
  | nullInName => none
  | notText => none

/-- Files with the steps that lead to them. -/
structure FileTree where
  files : List (List String × ByteArray) := []

namespace FileTree

/-- What stands at a place. -/
inductive Entry where
  | nothing
  | directory
  | file (bytes : ByteArray)

/-- Adds a file. -/
def insert (tree : FileTree) (path : String) (bytes : ByteArray) : FileTree :=
  ⟨tree.files ++ [((Path.steps path).filter (· ≠ "."), bytes)]⟩

/-- What stands where some steps lead. -/
def entry (tree : FileTree) (steps : List String) : Entry :=
  match tree.files.lookup steps with
  | some bytes => .file bytes
  | none =>
      if steps.isEmpty || tree.files.any fun file => steps.isPrefixOf file.1 then .directory
      else .nothing

/-- A place inside the tree, or some directory above it. -/
abbrev Place : Type := Option (List String)

/-- The longest name of a file or directory, in bytes. -/
def nameLimit : Nat := 255

/-- The longest path, in bytes. -/
def pathLimit : Nat := 4095

/-- Follows the parts of a path. Only a directory leads on. -/
def follow (tree : FileTree) : Place → List String → Except FileFault Place
  | place, [] => .ok place
  | none, part :: rest =>
      if part = "" || part = "." || part = ".." then tree.follow none rest
      else if nameLimit < part.utf8ByteSize then .error .nameTooLong
      else .error .notFound
  | some here, part :: rest =>
      match tree.entry here with
      | .nothing => .error .notFound
      | .file _ => .error .notDirectory
      | .directory =>
          if part = "" || part = "." then tree.follow (some here) rest
          else if part = ".." then
            tree.follow (if here.isEmpty then none else some here.dropLast) rest
          else if nameLimit < part.utf8ByteSize then .error .nameTooLong
          else tree.follow (some (here ++ [part])) rest

/-- Reads a file as text. -/
def readText (tree : FileTree) (path : String) : Except FileFault String := do
  if path.toList.contains '\x00' then throw .nullInName
  if path.isEmpty then throw .notFound
  if pathLimit < path.utf8ByteSize then throw .nameTooLong
  match ← tree.follow (if Path.isAbsolute path then none else some []) (Path.parts path) with
  | none => throw .isDirectory
  | some steps =>
      match tree.entry steps with
      | .nothing => throw .notFound
      | .directory => throw .isDirectory
      | .file bytes =>
          match String.fromUTF8? bytes with
          | some text => return text
          | none => throw .notText

/-- Reads a file, with the text of the fault as cause. -/
def read (tree : FileTree) (path : String) : Except String String :=
  (tree.readText path).mapError FileFault.message

end FileTree

end Tabula
