/-
Running a program from its text.

The text is scanned, built and evaluated; the first stage that fails ends
the run, and its error says which stage that was. A run can also show its
tokens and its tree before it goes on. What came of it is a report, which
can be read piece by piece or put on a console.
-/
import ScopedScript.Token.Scan
import ScopedScript.Node.Build
import ScopedScript.Node.Dump
import ScopedScript.Scope.Store
import ScopedScript.Eval
import ScopedScript.Diagnostic

namespace ScopedScript

/-- The tree of a program text. -/
def parse (source : String) : Except Error Node := do
  build (← scan source)

/-- What a run shows besides what the program prints. -/
structure Options where
  showTokens : Bool := false
  showTree : Bool := false

/-- What came of a run: what was shown before the program started, what the
program printed, and the error that ended it, if one did. -/
structure Report where
  shown : List Segment := []
  printed : Array (List Printed) := #[]
  error : Option Error := none

/-- The tokens of a program, one per line. -/
def showTokens (tokens : List Token) : List Segment :=
  .plain "TOKENS\n" :: tokens.map fun token => .plain (token.render ++ "\n")

/-- The tree of a program. -/
def showTree (root : Node) : List Segment := [.plain "AST\n", .plain root.dump]

/-- Evaluates the tree of a program. -/
def evaluate (root : Node) : Except Error Unit × Array (List Printed) :=
  match runProgram root { scopes := ({} : Store) } with
  | .ok _ w => (.ok (), w.printed)
  | .error e w => (.error e, w.printed)

/-- Runs a program text. -/
def run (source : String) (options : Options) : Report :=
  match scan source with
  | .error e => { error := some (e.within .scanning) }
  | .ok tokens =>
      let shown := if options.showTokens then showTokens tokens else []
      match build tokens with
      | .error e => { shown, error := some (e.within .building) }
      | .ok root =>
          let shown := if options.showTree then shown ++ showTree root else shown
          match evaluate root with
          | (.ok _, printed) => { shown, printed }
          | (.error e, printed) => { shown, printed, error := some (e.within .executing) }

namespace Report

/-- Whether the program ran to its end. -/
def succeeded (r : Report) : Bool := r.error.isNone

/-- One line per call of `print`. -/
def lines (r : Report) : List String := r.printed.toList.map Printed.line

/-- What the program printed, as text. -/
def output (r : Report) : String := String.join (r.lines.map (· ++ "\n"))

/-- The diagnostic of the error, if there is one. -/
def diagnostic (r : Report) (source : String) : List Segment :=
  match r.error with
  | some e => Diagnostic.render source e
  | none => []

/-- Everything the run reports about a source, apart from what the program
printed. -/
def pieces (r : Report) (source : String) : List Segment := r.shown ++ r.diagnostic source

/-- Everything in the order in which it appears on a console. -/
def onConsole (r : Report) (source : String) (color : Bool) : String :=
  String.join (r.shown.map (·.onConsole color)) ++ r.output ++
    String.join ((r.diagnostic source).map (·.onConsole color))

end Report

end ScopedScript
