import Tabula.Json.Writer
import Tabula.Launch

/-!
The command line: runs a program and writes the scope it leaves as indented data, or the error.
-/

namespace Tabula.CommandLine

/-- What is asked for. A file takes precedence over code. -/
structure Options where
  code : Option String := none
  config : ImportConfig := {}
  path : Option String := none

/-- What the command leaves behind. -/
structure Outcome where
  exitCode : Nat
  out : String
  err : String

/-- A command that stops with a message. -/
def stopped (printed message : String) : Outcome := ⟨1, printed, String.join [message, "\n"]⟩

/-- A command that cannot be carried out as it is written. -/
def misused (message : String) : Outcome :=
  ⟨2, "", "error: " ++ message ++ "\n\nFor more information, try '--help'.\n"⟩

/-- The outcome of a run; none if it does not finish. -/
def outcome (run : Run Cell) : Option Outcome :=
  match run.from? {} with
  | none => none
  | some (.ok scope, state) =>
      some ⟨0, String.join [state.printed, (state.heap.scopeJson scope).pretty 4, "\n"], ""⟩
  | some (.error error, state) => some (stopped state.printed error.message)

/-- Carries out a command; none if the program does not finish. -/
def execute (read : String → Except String String) (options : Options) : Option Outcome :=
  match options.path, options.code with
  | some path, _ =>
      if path.isEmpty then some (misused "a value is required for '[PATH]' but none was supplied")
      else
        match read path with
        | .ok text => outcome (Launch.source read text (some path) options.config)
        | .error cause =>
            some (stopped "" (String.join ["Error: couldn't read ", path, ": ", cause]))
  | none, some code => outcome (Launch.source read code none options.config)
  | none, none => some (stopped "" "Error: no code or path to file given")

/-! ## Arguments -/

/-- Reads the arguments: `-c` and the code, `--lib` and `--ext` with a value after a blank or an
equals sign, and at most one path. What fits none of these is given back as it is. -/
def Options.ofArguments (options : Options) : List String → Except String Options
  | [] => .ok options
  | "-c" :: code :: rest => { options with code := some code }.ofArguments rest
  | "--lib" :: directory :: rest =>
      { options with config := { options.config with libraryDir := directory } }.ofArguments rest
  | "--ext" :: extension :: rest =>
      { options with config := { options.config with extension } }.ofArguments rest
  | argument :: rest =>
      match argument.toList, options.path with
      | '-' :: 'c' :: code, _ => { options with code := some (String.ofList code) }.ofArguments rest
      | '-' :: '-' :: 'l' :: 'i' :: 'b' :: '=' :: directory, _ =>
          { options with
            config := { options.config with libraryDir := String.ofList directory } }.ofArguments
            rest
      | '-' :: '-' :: 'e' :: 'x' :: 't' :: '=' :: extension, _ =>
          { options with
            config := { options.config with extension := String.ofList extension } }.ofArguments
            rest
      | '-' :: _ :: _, _ => .error argument
      | _, none => { options with path := some argument }.ofArguments rest
      | _, some _ => .error argument

/-! ## Files that a program may read -/

mutual

/-- The paths that the imports in a node name. -/
def importsOf (config : ImportConfig) : Node → List String
  | .expression applied left right =>
      let here :=
        match applied, right with
        | .operator symbol, .constant (.string path) =>
            if symbol = Operator.importModule.symbol then [path] else []
        | .operator symbol, .atom name =>
            if symbol = Operator.importModule.symbol then [config.modulePath name] else []
        | _, _ => []
      here ++ importsOf config left ++ importsOf config right
  | .action _ body => importsOfAll config body
  | .template entries => importsOfEntries config entries
  | _ => []

/-- The paths that the imports in statements name. -/
def importsOfAll (config : ImportConfig) : List Node → List String
  | [] => []
  | statement :: rest => importsOf config statement ++ importsOfAll config rest

/-- The paths that the imports in the entries of a template name. -/
def importsOfEntries (config : ImportConfig) : List (String × Node) → List String
  | [] => []
  | (_, entry) :: rest => importsOf config entry ++ importsOfEntries config rest

end

/-- The paths that a program text may import. A text that is no program imports nothing. -/
def importsOfText (config : ImportConfig) (text : String) : List String :=
  match Program.parse 0 text with
  | .ok program => importsOfAll config program
  | .error _ => []

end Tabula.CommandLine
