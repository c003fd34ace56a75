import Mathlib.Data.List.Forall2
import Mathlib.Data.List.Induction
import Tabula.Proofs.Operands

/-!
# Which function a path finds

A path to a function of the host is named in two ways: by a dotted name, which is split at its dots,
or by a template whose entries name one segment each. The two ways agree because joining the parts
of a name gives the name back.

Registered functions are found by the joined path, however it is split, and the last one that was
registered there is the one found. Only where there is none does the split count: the fixed modules
answer paths of exactly two segments. A path that finds nothing fails with the joined path.
-/

namespace Tabula

/-! ## Dotted names -/

namespace Library

theorem splitDots_eq_splitOn (characters : List Char) :
    splitDots characters = characters.splitOn '.' := by
  induction characters with
  | nil => rfl
  | cons c rest inductionHypothesis =>
      rw [splitDots, inductionHypothesis, List.splitOn_eq_splitOnP, List.splitOn_eq_splitOnP,
        List.splitOnP_cons_eq_if_modifyHead]
      by_cases isDot : c = '.'
      · rw [if_pos isDot, if_pos (beq_iff_eq.mpr isDot)]
      · rw [if_neg isDot, if_neg (fun same => isDot (beq_iff_eq.mp same))]
        cases parts : List.splitOnP (· == '.') rest with
        | nil => exact absurd parts (List.splitOnP_ne_nil _ rest)
        | cons first others => rfl

/-- Joining the segments of a name gives the name. -/
theorem dotted_segments (name : String) : dotted (segments name) = name := by
  have parts : (segments name).map String.toList = name.toList.splitOn '.' := by
    rw [segments, splitDots_eq_splitOn, List.map_map]
    simp only [Function.comp_def, String.toList_ofList, List.map_id']
  rw [dotted, parts, List.intercalate_splitOn, String.ofList_toList]

/-! ## Registrations -/

/-- The library with functions that were registered one after another. -/
def ofRegistrations (registrations : List (String × HostFunction)) : Library :=
  registrations.foldl (fun library entry => library.register entry.1 entry.2) {}

/-- The function was registered under the path, and none was after it. -/
def LastUnder (registrations : List (String × HostFunction)) (path : String)
    (function : HostFunction) : Prop :=
  ∃ earlier later, registrations = earlier ++ (path, function) :: later ∧ path ∉ Table.keys later

/-- The path has exactly two segments, and they name a fixed module and a function in it. -/
def Fixed (path : List String) (function : HostFunction) : Prop :=
  ∃ family name functions, path = [family, name] ∧ modules.get? family = some functions ∧
    functions.get? name = some function

variable {registrations : List (String × HostFunction)} {path : String} {function : HostFunction}

theorem ofRegistrations_append (registrations : List (String × HostFunction)) (path : String)
    (function : HostFunction) :
    ofRegistrations (registrations ++ [(path, function)]) =
      (ofRegistrations registrations).register path function := by
  rw [ofRegistrations, List.foldl_append]
  rfl

/-- What is registered under a path after one more registration. -/
theorem get?_ofRegistrations_append (registrations : List (String × HostFunction))
    (path other : String) (function : HostFunction) :
    (ofRegistrations (registrations ++ [(path, function)])).registered.get? other =
      if path = other then some function
      else (ofRegistrations registrations).registered.get? other := by
  rw [ofRegistrations_append, register, Table.get?_insert]

/-- Functions that are registered elsewhere leave a path alone. -/
theorem get?_ofRegistrations_of_absent (earlier : List (String × HostFunction))
    {later : List (String × HostFunction)} (absent : path ∉ Table.keys later) :
    (ofRegistrations (earlier ++ later)).registered.get? path =
      (ofRegistrations earlier).registered.get? path := by
  induction later using List.reverseRecOn with
  | nil => rw [List.append_nil]
  | append_singleton others entry inductionHypothesis =>
      rw [Table.keys, List.map_append, List.mem_append, not_or] at absent
      have apart : entry.1 ≠ path := fun same => absent.2 (List.mem_singleton.mpr same.symm)
      rw [← List.append_assoc, get?_ofRegistrations_append, if_neg apart]
      exact inductionHypothesis absent.1

theorem get?_of_lastUnder (last : LastUnder registrations path function) :
    (ofRegistrations registrations).registered.get? path = some function := by
  obtain ⟨earlier, later, rfl, absent⟩ := last
  rw [← List.singleton_append, ← List.append_assoc, get?_ofRegistrations_of_absent _ absent,
    get?_ofRegistrations_append, if_pos rfl]

/-- Of the functions registered under a path, one was the last. -/
theorem exists_lastUnder (present : path ∈ Table.keys registrations) :
    ∃ function, LastUnder registrations path function := by
  induction registrations using List.reverseRecOn with
  | nil => exact absurd present List.not_mem_nil
  | append_singleton others entry inductionHypothesis =>
      by_cases here : entry.1 = path
      · exact ⟨entry.2, others, [], by rw [← here], List.not_mem_nil⟩
      · rw [Table.keys, List.map_append, List.mem_append] at present
        have earlierPresent : path ∈ Table.keys others :=
          present.resolve_right fun last => here (List.mem_singleton.mp last).symm
        obtain ⟨function, earlier, later, rfl, absent⟩ := inductionHypothesis earlierPresent
        refine ⟨function, earlier, later ++ [entry], by simp, ?_⟩
        rw [Table.keys, List.map_append, List.mem_append, not_or]
        exact ⟨absent, fun last => here (List.mem_singleton.mp last).symm⟩

theorem get?_of_unregistered (absent : path ∉ Table.keys registrations) :
    (ofRegistrations registrations).registered.get? path = none :=
  get?_ofRegistrations_of_absent [] absent

theorem fixed?_eq_some_iff {path : List String} :
    fixed? path = some function ↔ Fixed path function := by
  constructor
  · intro found
    unfold fixed? at found
    split at found
    · rename_i family name
      obtain ⟨functions, isModule, isFunction⟩ := Option.bind_eq_some_iff.mp found
      exact ⟨family, name, functions, rfl, isModule, isFunction⟩
    · exact nomatch found
  · rintro ⟨family, name, functions, rfl, isModule, isFunction⟩
    rw [fixed?, isModule]
    exact isFunction

/-! ## Where a path leads -/

section Resolve

variable {path : List String}

theorem resolve_of_lastUnder (last : LastUnder registrations (dotted path) function) :
    (ofRegistrations registrations).resolve path = .ok function := by
  rw [resolve, get?_of_lastUnder last]
  rfl

theorem resolve_of_fixed (absent : dotted path ∉ Table.keys registrations)
    (isFixed : Fixed path function) :
    (ofRegistrations registrations).resolve path = .ok function := by
  rw [resolve, get?_of_unregistered absent, fixed?_eq_some_iff.mpr isFixed]
  rfl

theorem resolve_of_nowhere (absent : dotted path ∉ Table.keys registrations)
    (notFixed : ¬ ∃ function, Fixed path function) :
    (ofRegistrations registrations).resolve path = .error (.unresolved (dotted path)) := by
  have missing : fixed? path = none :=
    Option.eq_none_iff_forall_ne_some.mpr fun function found =>
      notFixed ⟨function, fixed?_eq_some_iff.mp found⟩
  rw [resolve, get?_of_unregistered absent, missing]
  rfl

end Resolve

end Library

/-! ## Naming a path -/

/-- The node that requires a function of the host. -/
def Node.requiring (left operand : Node) : Node :=
  .expression (.operator Operator.requireForeign.symbol) left operand

/-- The entries name these segments in order, by atoms, accessors or strings. -/
def Node.NameSegments (entries : List (String × Node)) (segments : List String) : Prop :=
  List.Forall₂ (fun entry segment => entry.2.name? = some segment) entries segments

/-- The path that an operand names: the segments of its name, or those that its entries name. -/
inductive Node.NamesPath : Node → List String → Prop
  | dotted {node : Node} {name : String} :
      node.name? = some name → NamesPath node (Library.segments name)
  | segments {entries : List (String × Node)} {path : List String} :
      NameSegments entries path → NamesPath (.template entries) path

namespace Rule

theorem from?_wantName {node : Node} {name : String} (named : node.name? = some name)
    (state : State) : (wantName node).from? state = some (.ok name, state) := by
  rw [wantName, named]
  rfl

theorem from?_requiredPath {operand : Node} {path : List String} (names : operand.NamesPath path)
    (state : State) : (requiredPath operand).from? state = some (.ok path, state) := by
  cases names with
  | @dotted _ name named =>
      have noTemplate : requiredPath operand =
          wantName operand >>= fun name => pure (Library.segments name) := by
        cases operand with
        | template entries => exact nomatch named
        | _ => rfl
      rw [noTemplate, Run.from?_bind_ok (from?_wantName named state)]
      rfl
  | @segments entries _ inOrder =>
      rw [requiredPath]
      induction inOrder with
      | nil => rfl
      | cons first _ inductionHypothesis =>
          rw [List.map_cons, List.mapM_cons, Run.from?_bind_ok (from?_wantName first state),
            Run.from?_bind_ok inductionHypothesis]
          rfl

end Rule

namespace Interpreter

variable (interpreter : Interpreter) {depth : Nat} {scope : Cell} {left operand : Node}
  {path : List String} {state : State} {function : HostFunction}

/-- Requiring the operand gives a new value of a function, under this name. -/
def GivesForeign (depth : Nat) (scope : Cell) (left operand : Node) (state : State) (name : String)
    (function : HostFunction) : Prop :=
  (interpreter.evaluate (depth + 1) scope (.requiring left operand)).from? state =
    some (.ok (.function { name, serial := state.supply, code := .host function }),
      { state with supply := state.supply + 1 })

/-- Requiring the operand fails for a reason outside the program, and leaves all as it was. -/
def LacksForeign (depth : Nat) (scope : Cell) (left operand : Node) (state : State)
    (cause : Collaborator) : Prop :=
  (interpreter.evaluate (depth + 1) scope (.requiring left operand)).from? state =
    some (.error ((Error.ofReason (.collaborator cause)).tag .requireForeign), state)

theorem givesForeign_of_resolve (names : operand.NamesPath path)
    (resolved : interpreter.library.resolve path = .ok function) :
    interpreter.GivesForeign depth scope left operand state (Library.dotted path) function := by
  rw [GivesForeign, Node.requiring, interpreter.evaluate_operator, Run.from?_tagged, apply,
    Rule.requireForeign, Run.from?_bind_ok (Rule.from?_requiredPath names state), resolved]
  rfl

theorem lacksForeign_of_resolve {cause : Collaborator} (names : operand.NamesPath path)
    (unresolved : interpreter.library.resolve path = .error cause) :
    interpreter.LacksForeign depth scope left operand state cause := by
  rw [LacksForeign, Node.requiring, interpreter.evaluate_operator, Run.from?_tagged, apply,
    Rule.requireForeign, Run.from?_bind_ok (Rule.from?_requiredPath names state), unresolved]
  rfl

end Interpreter

/-! ## Main result -/

/-- Whether a path is named by a dotted name or by a template of its segments, requiring it finds
the same. If a function was registered under the joined path, the last one is found, however the
path is split; else a function of a fixed module is found if the path has exactly two segments that
name it. Where there is neither, requiring fails with the joined path, which is the name itself if a
name was given. -/
theorem require_finds_registered_or_fixed (interpreter : Interpreter)
    {registrations : List (String × HostFunction)}
    (built : interpreter.library = Library.ofRegistrations registrations) (depth : Nat)
    (scope : Cell) (left : Node) (state : State) :
    (∀ (name : String) (operand : Node) (entries : List (String × Node)),
      operand.name? = some name → Node.NameSegments entries (Library.segments name) →
        Library.dotted (Library.segments name) = name ∧
        (interpreter.evaluate (depth + 1) scope (.requiring left operand)).from? state =
          (interpreter.evaluate (depth + 1) scope
            (.requiring left (.template entries))).from? state) ∧
    ∀ (operand : Node) (path : List String), operand.NamesPath path →
      (Library.dotted path ∈ Table.keys registrations →
        ∃ function, Library.LastUnder registrations (Library.dotted path) function ∧
          interpreter.GivesForeign depth scope left operand state (Library.dotted path)
            function) ∧
      (Library.dotted path ∉ Table.keys registrations →
        (∀ function, Library.Fixed path function →
          interpreter.GivesForeign depth scope left operand state (Library.dotted path)
            function) ∧
        ((¬ ∃ function, Library.Fixed path function) →
          interpreter.LacksForeign depth scope left operand state
            (.unresolved (Library.dotted path)))) := by
  refine ⟨?_, fun operand path names => ⟨fun present => ?_, fun absent => ⟨?_, ?_⟩⟩⟩
  · intro name operand entries named inOrder
    refine ⟨Library.dotted_segments name, ?_⟩
    cases resolved : interpreter.library.resolve (Library.segments name) with
    | ok function =>
        exact (interpreter.givesForeign_of_resolve (.dotted named) resolved).trans
          (interpreter.givesForeign_of_resolve (.segments inOrder) resolved).symm
    | error cause =>
        exact (interpreter.lacksForeign_of_resolve (.dotted named) resolved).trans
          (interpreter.lacksForeign_of_resolve (.segments inOrder) resolved).symm
  · obtain ⟨function, last⟩ := Library.exists_lastUnder present
    exact ⟨function, last,
      interpreter.givesForeign_of_resolve names (built ▸ Library.resolve_of_lastUnder last)⟩
  · intro function isFixed
    exact interpreter.givesForeign_of_resolve names
      (built ▸ Library.resolve_of_fixed absent isFixed)
  · intro notFixed
    exact interpreter.lacksForeign_of_resolve names
      (built ▸ Library.resolve_of_nowhere absent notFixed)

/-- A function that gives a text, whatever its arguments are. -/
private def saying (text : String) : HostFunction := fun _ => .ok (.string text)

/-- Two functions under one path, and one under the path of a fixed function. -/
private def greetings : List (String × HostFunction) :=
  [("app.greet", saying "hello"), ("math.floor", saying "ground"), ("app.greet", saying "welcome")]

private def greeter : Interpreter := { library := .ofRegistrations greetings }

theorem segment_with_dot_names_no_fixed_function :
    greeter.GivesForeign 0 0 .void (.template [("0", .atom "app.greet")]) {} "app.greet"
        (saying "welcome") ∧
      greeter.GivesForeign 0 0 .void (.atom "math.floor") {} "math.floor" (saying "ground") ∧
      greeter.GivesForeign 0 0 .void (.constant (.string "math.abs")) {} "math.abs"
        (Library.unary Float.abs) ∧
      greeter.LacksForeign 0 0 .void (.template [("0", .accessor "math.abs")]) {}
        (.unresolved "math.abs") := by
  have finds := (require_finds_registered_or_fixed greeter rfl 0 0 .void {}).2
  have onlyLast : ∀ {path : String} {function expected : HostFunction},
      Library.LastUnder greetings path function →
        greeter.library.registered.get? path = some expected → function = expected :=
    fun last found => Option.some.inj ((Library.get?_of_lastUnder last).symm.trans found)
  have whole := finds (.template [("0", .atom "app.greet")]) ["app.greet"]
    (.segments (.cons rfl .nil))
  have floor := finds (.atom "math.floor") _ (.dotted rfl)
  have abs := finds (.constant (.string "math.abs")) _ (.dotted rfl)
  have undivided := finds (.template [("0", .accessor "math.abs")]) ["math.abs"]
    (.segments (.cons rfl .nil))
  rw [Library.dotted_segments] at floor abs
  refine ⟨?_, ?_, ?_, ?_⟩
  · obtain ⟨function, last, given⟩ := whole.1 (by decide)
    have isLast : function = saying "welcome" := onlyLast last rfl
    exact isLast ▸ given
  · obtain ⟨function, last, given⟩ := floor.1 (by decide)
    have isLast : function = saying "ground" := onlyLast last rfl
    exact isLast ▸ given
  · exact (abs.2 (by decide)).1 _ ⟨"math", "abs", _, by decide, rfl, rfl⟩
  · refine (undivided.2 (by decide)).2 ?_
    rintro ⟨_, _, _, _, oneSegment, _⟩
    exact nomatch oneSegment

end Tabula
