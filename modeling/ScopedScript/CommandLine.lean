/-
The command line.

Arguments are read from left to right, and the first one that is wrong, or
that asks for the version, decides. Flags may stand anywhere up to `--`,
short ones may share a dash, and exactly one argument that is no flag gives
the script or, with `--file`, the path of it.
-/
import ScopedScript.Run

namespace ScopedScript.CommandLine

/-- The flags. -/
inductive Flag where
  /-- The argument is the path of a script. -/
  | file
  | tokens
  | tree
  | noColor
  | version
deriving DecidableEq, Repr

/-- The flag of a letter after a single dash. -/
def Flag.ofShort? : Char → Option Flag
  | 'f' => some .file
  | 't' => some .tokens
  | 'a' => some .tree
  | 'V' => some .version
  | _ => none

/-- The flag of a word after two dashes. A flag takes no value, so a word
with `=` is none. -/
def Flag.ofLong? : String → Option Flag
  | "file" => some .file
  | "tokens" => some .tokens
  | "ast" => some .tree
  | "no-color" => some .noColor
  | "version" => some .version
  | _ => none

/-- The arguments read so far. -/
structure Arguments where
  flags : List Flag := []
  contents : Option String := none

/-- Why reading the arguments stops early. -/
inductive Halt where
  /-- Something is wrong with the arguments. -/
  | refused
  | version
deriving DecidableEq, Repr

/-- One flag more. A flag must not be given twice, and the version flag
decides at once. -/
def Arguments.addFlag (a : Arguments) : Option Flag → Except Halt Arguments
  | none => .error .refused
  | some .version => .error .version
  | some flag =>
      if flag ∈ a.flags then .error .refused else .ok { a with flags := flag :: a.flags }

/-- One argument more that is no flag. There must be only one. -/
def Arguments.addContents (a : Arguments) (text : String) : Except Halt Arguments :=
  match a.contents with
  | some _ => .error .refused
  | none => .ok { a with contents := some text }

/-- One argument in the place where flags are allowed. -/
def Arguments.add (a : Arguments) (text : String) : Except Halt Arguments :=
  match text.toList with
  | '-' :: '-' :: name => a.addFlag (Flag.ofLong? (String.ofList name))
  | '-' :: letter :: letters =>
      (letter :: letters).foldlM (fun a c => a.addFlag (Flag.ofShort? c)) a
  | _ => a.addContents text

/-- Reads arguments up to `--`, and after it only such as are no flags. -/
def Arguments.addAll (a : Arguments) : List String → Except Halt Arguments
  | [] => .ok a
  | "--" :: rest => rest.foldlM addContents a
  | text :: rest => do
      let a ← a.add text
      a.addAll rest

/-- What the arguments ask for. -/
inductive Request where
  | refused
  | version
  | script (flags : List Flag) (contents : String)
deriving DecidableEq, Repr

/-- Reads the arguments. -/
def Request.ofArguments (arguments : List String) : Request :=
  match ({} : Arguments).addAll arguments with
  | .error .refused => .refused
  | .error .version => .version
  | .ok ⟨flags, some contents⟩ => .script flags contents
  | .ok ⟨_, none⟩ => .refused

/-- The path of the script, where it is not given itself. -/
def Request.path? : Request → Option String
  | .script flags contents => if .file ∈ flags then some contents else none
  | _ => none

/-- What the program does: its exit status and its standard output. -/
structure Response where
  status : UInt32
  output : String

/-- Runs a script. -/
def runScript (flags : List Flag) (source : String) : Response :=
  let report := run source { showTokens := .tokens ∈ flags, showTree := .tree ∈ flags }
  ⟨if report.succeeded then 0 else 1, report.onConsole source (.noColor ∉ flags)⟩

/-- Answers a request. `file` is what is at the path of the script, if it can
be read; a script must be valid text. -/
def Request.respond (request : Request) (file : Option ByteArray) : Response :=
  match request with
  | .refused => ⟨2, ""⟩
  | .version => ⟨0, "sprig 0.1.0\n"⟩
  | .script flags contents =>
      if .file ∈ flags then
        match file.bind String.fromUTF8? with
        | some source => runScript flags source
        | none => ⟨1, ""⟩
      else runScript flags contents

end ScopedScript.CommandLine
