import Tabula.Proofs.Trace.Rules

/-!
# Error traces

The locations of an error are the operators that it passed through, innermost first. Read from the
outside they spell how the evaluations are nested in which it came to pass: each operator belongs to
an expression under the one before it, and none is lost or noted twice, whether the error comes out
of an operand, an entry of a template, a block or an imported program.
-/

namespace Tabula

/-- The text of an error that is rendered for the first time. -/
theorem Error.rendered_render {error : Error} {reason : Reason}
    (isReason : error.reason = some reason) (unrendered : error.rendered = none) :
    error.render.rendered =
      some ("Error: " ++ reason.message ++ String.join (error.locations.map fun operator =>
        "\nwhile evaluating '" ++ operator.symbol ++ "'")) := by
  have line : (fun operator : Operator =>
      String.join ["\nwhile evaluating '", operator.symbol, "'"]) =
        fun operator => "\nwhile evaluating '" ++ operator.symbol ++ "'" := by
    funext operator
    simp only [String.join_cons, String.join_nil, String.append_empty, String.append_assoc]
  rw [render, unrendered, Option.getD_none, trace, isReason, Option.getD_some, line]
  simp only [String.join_append, String.join_cons, String.join_nil, String.append_empty,
    String.append_assoc]

/-- A program that fails does so in one of its statements, after those before it succeeded. The
error has a known reason and no text yet, and its locations, outermost first, spell how it is
nested in that statement. Run, the program fails with the same reason and locations; the text tells
the reason and then the locations, one on each line, innermost first. -/
theorem error_trace_spells_nesting (interpreter : Interpreter) {program : Program}
    {initial : Cell} {state after : State} {error : Error}
    (failed : (interpreter.execute program initial).from? state = some (.error error, after)) :
    ∃ reason inner statement between,
      error.reason = some reason ∧ reason ≠ .unknown ∧ error.rendered = none ∧
        interpreter.Enters program (state.heap.read initial) state inner statement between ∧
        interpreter.Ends inner statement between (.error error) after ∧
        interpreter.Spells inner statement between error.locations.reverse reason ∧
        ∃ rendered, (interpreter.run program initial).from? state =
            some (.error rendered, after) ∧
          rendered.reason = some reason ∧ rendered.locations = error.locations ∧
          rendered.rendered =
            some ("Error: " ++ reason.message ++ String.join (error.locations.map fun operator =>
              "\nwhile evaluating '" ++ operator.symbol ++ "'")) := by
  have entered := failed
  rw [Interpreter.execute, Rule.program,
    Run.from?_bind_ok (Run.from?_read initial state)] at entered
  obtain ⟨inner, statement, between, enters, ends⟩ := Rule.block_failed entered
  obtain ⟨reason, isReason, known, unrendered, spells⟩ :=
    interpreter.evaluate_explains interpreter.depth inner statement between error after ends
  refine ⟨reason, inner, statement, between, isReason, known, unrendered, enters,
    ⟨interpreter.depth, ends⟩, spells, error.render, ?_, isReason, rfl,
    Error.rendered_render isReason unrendered⟩
  rw [Interpreter.run, Run.from?_rendered, failed]
  rfl

/-- Calls an action in which an operator stands where a value is wanted. -/
private def callsMalformed : Program :=
  [ .expression (.operator "<") (.atom "f")
      (.action ⟨0, []⟩
        [.template [("x", .expression (.operator "-") .void (.operator "+"))]]),
    .expression (.operator "print") .void
      (.expression (.operator "!") (.atom "f") .void) ]

/-- A single empty scope. -/
private def noBindings : State := { heap := ⟨#[[]]⟩ }

theorem stray_operator_in_called_action :
    ∃ error after,
      (({} : Interpreter).execute callsMalformed 0).from? noBindings =
          some (.error error, after) ∧
        error.locations = [.subtract, .call, .print] ∧
        ∃ inner statement between,
          ({} : Interpreter).Enters callsMalformed [] noBindings inner statement between ∧
            ({} : Interpreter).Spells inner statement between [.print, .call, .subtract]
              (.structural (.strayOperator "+")) := by
  obtain ⟨error, after, ran, isReason, locations⟩ : ∃ error after,
      (({} : Interpreter).execute callsMalformed 0).from? noBindings =
          some (.error error, after) ∧
        error.reason = some (.structural (.strayOperator "+")) ∧
        error.locations = [.subtract, .call, .print] := ⟨_, _, rfl, rfl, rfl⟩
  obtain ⟨reason, inner, statement, between, sameReason, _, _, enters, _, spells, _⟩ :=
    error_trace_spells_nesting {} ran
  rw [isReason] at sameReason
  cases sameReason
  rw [locations] at spells
  exact ⟨error, after, ran, locations, inner, statement, between, enters, spells⟩

end Tabula
