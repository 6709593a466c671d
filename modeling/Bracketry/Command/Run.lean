import Bracketry.Command.Report
import Bracketry.Settings.File
import Bracketry.Settings.Path

/-
  A run of the command line.

  A run reads its arguments, then the settings, then the
  document, and prints a report.  The first of these that
  fails ends it.  A host gives files and variables, so that
  a run can be followed without a system.

  Key definitions include:
    * `Host`
    * `RunResult`
    * `LoadFailure`, `Command.loadSettings`
    * `Command.run`
-/

------------------------------------------------------------
-- Hosts and Results
------------------------------------------------------------

namespace Bracketry

/- The files and the variables that a run can ask for. -/
structure Host (m : Type → Type) where
  read : List Char → m Reading
  lookup : List Char → m (Option (List Char))

/- How a run ends. -/
inductive RunResult where
  /- It printed a text. -/
  | success (output : List Char)
  /- It was refused, with a text about why. -/
  | failure (message : List Char)
  /- It broke a contract of the library. -/
  | fault (cause : Fault)
deriving DecidableEq, Repr, Inhabited

/- The variables with some names. -/
def Host.environment
    {m : Type → Type}
    [Monad m]
    (host : Host m)
    (names : List (List Char)) :
    m Environment := do
  let values ← names.mapM host.lookup
  return fun name => ((names.zip values).lookup name).join

end Bracketry

------------------------------------------------------------
-- Settings
------------------------------------------------------------

namespace Bracketry

/- Why a run has no settings. -/
inductive LoadFailure where
  /- There is no file with the name that was given. -/
  | missing (path : List Char)
  /- The file with a name has no proper settings. -/
  | invalid (path : List Char) (error : SettingsError)
deriving DecidableEq, Repr, Inhabited

namespace LoadFailure

/- The wording of a failure. -/
def message : LoadFailure → List Char
  | .missing path =>
      "config file '".toList ++ path ++
        "' does not exist".toList
  | .invalid path error => error.message path

/-
  All that is said about a failure: where settings can be
  mended, unless the file could not be parsed.
-/
def report
    (settingsFile : List Char)
    (failure : LoadFailure) :
    List Char :=
  let advice :=
    match failure with
    | .invalid _ .malformed => []
    | _ =>
        "\nOr fix the config file at ".toList ++
          settingsFile ++ ['\n']
  "Error: Failed to load config: ".toList ++
    failure.message ++ advice

end LoadFailure

namespace Command

variable {m : Type → Type}
variable [Monad m]

/-
  The settings of a run.  A file that was asked for has to
  be there; without one the standard settings do.
-/
def loadSettings
    (host : Host m)
    (environment : Environment)
    (asked : Option (List Char)) :
    m (Except LoadFailure Settings) := do
  let path :=
    match asked with
    | some path => (Path.expand? environment path).getD path
    | none => Path.settingsFile environment
  let reading ← host.read path
  match Settings.ofReading reading with
  | .error e => return .error (.invalid path e)
  | .ok (some settings) => return .ok settings
  | .ok none =>
      if asked.isSome then return .error (.missing path)
      else return .ok .standard

end Command

end Bracketry

------------------------------------------------------------
-- Runs
------------------------------------------------------------

namespace Bracketry

namespace Command

/- The name of the program. -/
def programName : List Char := "bracket-pairs-cli".toList

/- How the program is called. -/
def usage : List Char :=
  ("<file> [--config PATH] " ++
    "[--pairs | --brackets | --match LINE:COL] " ++
    "[--edit L:C-L:C=TEXT]...").toList

/- What is said about arguments that are refused. -/
def argumentReport
    (error : ArgumentError) :
    List Char :=
  "Error: ".toList ++ error.message ++
    "\nUsage: ".toList ++ programName ++ [' '] ++ usage ++
    ['\n']

/- What is said about a document that is not read. -/
def readReport
    (file : List Char)
    (refusal : Refusal) :
    List Char :=
  "Error: failed to read '".toList ++ file ++
    "'\n\nCaused by:\n    ".toList ++ refusal.message ++
    ['\n']

/- What is printed about the bytes of a document. -/
def reportBytes
    (settings : Settings)
    (arguments : Arguments)
    (bytes : List Nat) :
    RunResult :=
  match Document.ofBytes? bytes with
  | .error e =>
      .failure ("Error: ".toList ++ e.message.toList ++ ['\n'])
  | .ok document =>
      match Report.ofDocument settings document
          arguments.edits arguments.question with
      | .ok output => .success output
      | .error cause => .fault cause

variable {m : Type → Type}
variable [Monad m]

/- A run with arguments that were understood. -/
def runWith
    (host : Host m)
    (arguments : Arguments) :
    m RunResult := do
  let names := (arguments.settings.map Path.names).getD []
  let environment ←
    host.environment (Environment.homeName :: names)
  match ← loadSettings host environment
      arguments.settings with
  | .error failure =>
      return .failure
        (failure.report (Path.settingsFile environment))
  | .ok settings =>
      match ← host.read arguments.file with
      | .content bytes =>
          return reportBytes settings arguments bytes
      | .absent refusal =>
          return .failure
            (readReport arguments.file refusal)
      | .unreadable refusal =>
          return .failure
            (readReport arguments.file refusal)

/- A run with a list of arguments. -/
def run
    (host : Host m)
    (arguments : List (List Char)) :
    m RunResult :=
  match Arguments.parse arguments with
  | .error e => return .failure (argumentReport e)
  | .ok arguments => runWith host arguments

end Command

end Bracketry
