/-!
The operators of the language and the symbols that spell them. The evaluator has one rule per
operator; `ofSymbol?` reads exactly what `symbol` writes.
-/

namespace Tabula

/-- Every operator that an expression may apply. -/
inductive Operator where
  | bind
  | add
  | subtract
  | equal
  | notEqual
  | field
  | keyRead
  | capture
  | call
  | branch
  | each
  | append
  | assign
  | construct
  | declareModule
  | exportModule
  | importModule
  | requireForeign
  | print
  | result
deriving DecidableEq, Repr

namespace Operator

/-- Every operator, once. -/
def all : List Operator :=
  [bind, add, subtract, equal, notEqual, field, keyRead, capture, call, branch, each, append,
    assign, construct, declareModule, exportModule, importModule, requireForeign, print, result]

/-- The symbol that spells an operator in programs and in error traces. -/
def symbol : Operator → String
  | bind => "<"
  | add => "+"
  | subtract => "-"
  | equal => "=="
  | notEqual => "!="
  | field => ":"
  | keyRead => "<="
  | capture => "@"
  | call => "!"
  | branch => "?"
  | each => "<>"
  | append => "</"
  | assign => "<-"
  | construct => "new"
  | declareModule => "module"
  | exportModule => "export"
  | importModule => "import"
  | requireForeign => "require"
  | print => "print"
  | result => "return"

/-- The operator that a symbol spells. -/
def ofSymbol? (symbol : String) : Option Operator := all.find? (·.symbol == symbol)

theorem ofSymbol?_symbol (operator : Operator) : ofSymbol? operator.symbol = some operator := by
  cases operator <;> rfl

theorem ofSymbol?_eq_some_iff {symbol : String} {operator : Operator} :
    ofSymbol? symbol = some operator ↔ operator.symbol = symbol := by
  constructor
  · intro found
    simpa using List.find?_some found
  · rintro rfl
    exact ofSymbol?_symbol operator

end Operator

end Tabula
