import Tabula.Node
import Tabula.Operator

/-!
Why a run fails. An error has a cause and the operators it passed through on its way out, innermost
first. Rendering writes its text down once; after that the text no longer changes.
-/

namespace Tabula

/-- The types that values have. -/
inductive Tag where
  | number
  | string
  | bool
  | struct
  | function
  | action
  | void
  | error
deriving DecidableEq, Repr

/-- The name of a type in texts. -/
def Tag.name : Tag → String
  | number => "number"
  | string => "string"
  | bool => "bool"
  | struct => "struct"
  | function => "function"
  | action => "action"
  | void => "void"
  | error => "error"

/-- The program does not have the shape that an operator asks for. -/
inductive Structural where
  /-- The operator of an expression is some other sort of node. -/
  | notAnOperator (found : NodeKind)
  /-- An operator stands where a value is wanted. -/
  | strayOperator (symbol : String)
  /-- No rule exists for this symbol. -/
  | unknownOperator (symbol : String)
  /-- The target of a nested assignment is no field chain rooted at an atom. -/
  | malformedPath
  /-- A name was wanted. -/
  | expectedName (found : NodeKind)
  /-- An atom or an accessor was wanted. -/
  | expectedField (found : NodeKind)
  /-- No type of this name can be constructed. -/
  | unknownType (name : String)
deriving DecidableEq, Repr

/-- A value does not have the type that an operator asks for. -/
inductive TypeMismatch where
  | binary (left right : Tag) (operator : Operator)
  | unary (operand : Tag) (operator : Operator)
  | expected (operator : Operator) (wanted received : Tag)
  | iterate (received : Tag)
  | key (received : Tag)
  | arguments (received : Tag)
deriving DecidableEq, Repr

/-- Loading, reading or resolving failed outside the evaluator. -/
inductive Collaborator where
  | load (path cause : String)
  | parse (cause : String)
  | noModule (path : String)
  | moduleUndeclared
  | unresolved (path : String)
deriving DecidableEq, Repr

/-- The cause of an error. -/
inductive Reason where
  | unknown
  | structural (cause : Structural)
  | typeMismatch (cause : TypeMismatch)
  /-- A value that is neither a function nor an action was called. -/
  | call (received : Tag)
  | collaborator (cause : Collaborator)
  /-- A native function failed. -/
  | external (text : String)
deriving DecidableEq, Repr

/-- A failure: its cause, the operators it passed through, innermost first, and its text once
rendered. -/
structure Error where
  reason : Option Reason
  locations : List Operator := []
  rendered : Option String := none
deriving DecidableEq, Repr

/-! ## Texts -/

def Structural.message : Structural → String
  | notAnOperator found => String.join ["operator has to be of type operator (is ", found.name, ")"]
  | strayOperator symbol => String.join ["operator '", symbol, "' outside of an expression"]
  | unknownOperator symbol => String.join ["operator \"", symbol, "\" is not defined"]
  | malformedPath => "left operand has to be a field chain rooted at an atom"
  | expectedName found => String.join ["expected a name, found ", found.name]
  | expectedField found =>
      String.join ["right operand has to be an atom or accessor, found ", found.name]
  | unknownType name => String.join ["unknown type '", name, "'"]

def TypeMismatch.message : TypeMismatch → String
  | binary left right operator =>
      String.join ["unsuitable types for '", operator.symbol, "': ", left.name, " and ", right.name]
  | unary operand operator =>
      String.join ["unsuitable type for '", operator.symbol, "': ", operand.name]
  | expected operator wanted received =>
      String.join ["'", operator.symbol, "' expected ", wanted.name, ", got ", received.name]
  | iterate received => String.join ["non-iterable type: ", received.name]
  | key received => String.join ["unsuitable type for struct key: ", received.name]
  | arguments received => String.join ["unsuitable type for arguments: ", received.name]

def Collaborator.message : Collaborator → String
  | load path cause => String.join ["couldn't load '", path, "': ", cause]
  | parse cause => String.join ["couldn't parse program: ", cause]
  | noModule path => String.join ["imported program '", path, "' declares no module"]
  | moduleUndeclared => "you need to define module first"
  | unresolved path => String.join ["couldn't resolve foreign function '", path, "'"]

def Reason.message : Reason → String
  | unknown => "unknown reason - this should not happen, please file a bug report"
  | structural cause => cause.message
  | typeMismatch cause => cause.message
  | call received => String.join ["cannot call operand of type ", received.name]
  | collaborator cause => cause.message
  | external text => String.join ["external error: ", text]

namespace Error

/-- An error that has passed through no operator yet. -/
def ofReason (reason : Reason) : Error := { reason := some reason }

/-- Notes that the error left an operator's rule. -/
def tag (error : Error) (operator : Operator) : Error :=
  { error with locations := error.locations ++ [operator] }

/-- The cause on the first line, then one line per operator, innermost first. -/
def trace (error : Error) : String :=
  String.join <|
    ["Error: ", (error.reason.getD .unknown).message] ++
      error.locations.map fun operator => String.join ["\nwhile evaluating '", operator.symbol, "'"]

/-- Fixes the error's text, unless it was fixed before. -/
def render (error : Error) : Error :=
  { error with rendered := some (error.rendered.getD error.trace) }

/-- The error's text: the fixed one, else its trace. -/
def message (error : Error) : String := error.rendered.getD error.trace

end Error

end Tabula
