import Bracketry.Length
import Bracketry.Text.Field

/-
  The arguments of the command line.

  Arguments come in groups: a file, an option, or an option
  with its value.  An option takes the argument behind it as
  its value, whatever that looks like.  There is one file
  and at most one question.

  Key definitions include:
    * `Question`, `Replacement`, `Arguments`
    * `ArgumentError`, `ArgumentError.message`
    * `Group.read`
    * `Arguments.parse`
-/

------------------------------------------------------------
-- What Is Asked For
------------------------------------------------------------

namespace Bracketry

/- What is printed about a document. -/
inductive Question where
  /- All pairs. -/
  | pairs
  /- All brackets. -/
  | brackets
  /- The pair with a bracket at a position. -/
  | partner (position : Position)
deriving DecidableEq, Repr, Inhabited

/- A text that takes the place of a stretch. -/
structure Replacement where
  start : Position
  stop : Position
  text : List Char
deriving DecidableEq, Repr, Inhabited

/-
  A whole command line.  `settings` is the path of the
  settings, if one was given.
-/
structure Arguments where
  file : List Char
  settings : Option (List Char)
  question : Question
  edits : List Replacement
deriving DecidableEq, Repr, Inhabited

/- A group of arguments. -/
inductive Group where
  | file (path : List Char)
  | settings (path : List Char)
  | question (question : Question)
  | edit (edit : Replacement)
deriving DecidableEq, Repr, Inhabited

end Bracketry

------------------------------------------------------------
-- Errors
------------------------------------------------------------

namespace Bracketry

/- Why a command line is refused. -/
inductive ArgumentError where
  /- More than one question was made. -/
  | secondQuestion
  | missingPosition
  | missingEdit
  | missingSettings
  | badPosition (value : List Char)
  | badEdit (value : List Char)
  | unknownOption (option : List Char)
  /- A file was named although there was one. -/
  | secondFile (argument : List Char)
  | noFile
deriving DecidableEq, Repr, Inhabited

namespace ArgumentError

/- A description, and an argument in quotes. -/
def about
    (description : String)
    (argument : List Char) :
    List Char :=
  description.toList ++ [' ', '\''] ++ argument ++ ['\'']

/- The wording of an error. -/
def message : ArgumentError → List Char
  | .secondQuestion =>
      ("only one of --pairs, --brackets, --match " ++
        "may be given").toList
  | .missingPosition => "--match needs LINE:COL".toList
  | .missingEdit => "--edit needs L:C-L:C=TEXT".toList
  | .missingSettings => "--config needs a path".toList
  | .badPosition value => about "bad position" value
  | .badEdit value => about "bad edit" value
  | .unknownOption option => about "unknown option" option
  | .secondFile argument =>
      about "unexpected argument" argument
  | .noFile => "no input file given".toList

end ArgumentError

end Bracketry

------------------------------------------------------------
-- Values
------------------------------------------------------------

namespace Bracketry

/- A position `LINE:COL`, both counted from zero. -/
def Question.position?
    (value : List Char) :
    Option Position := do
  let (line, column) ← Text.splitFirst? (· = ':') value
  let line ← Text.count? (Text.trim line)
  let column ← Text.count? (Text.trim column)
  return ⟨line, column⟩

namespace Replacement

/- A text in which `\n` and `\t` were written out. -/
def unescape : List Char → List Char
  | '\\' :: 'n' :: rest => '\n' :: unescape rest
  | '\\' :: 't' :: rest => '\t' :: unescape rest
  | c :: rest => c :: unescape rest
  | [] => []

/- A replacement `L:C-L:C=TEXT`. -/
def ofValue?
    (value : List Char) :
    Option Replacement := do
  let (stretch, text) ← Text.splitFirst? (· = '=') value
  let (start, stop) ← Text.splitFirst? (· = '-') stretch
  let start ← Question.position? start
  let stop ← Question.position? stop
  return ⟨start, stop, unescape text⟩

end Replacement

end Bracketry

------------------------------------------------------------
-- Groups
------------------------------------------------------------

namespace Bracketry

namespace Group

/- The option that asks for the pairs. -/
def pairsOption : List Char := "--pairs".toList

/- The option that asks for the brackets. -/
def bracketsOption : List Char := "--brackets".toList

/- The option that asks for the pair at a position. -/
def partnerOption : List Char := "--match".toList

/- The option that edits the document. -/
def editOption : List Char := "--edit".toList

/- The option that names the file of the settings. -/
def settingsOption : List Char := "--config".toList

/- The argument is written like an option. -/
def isOption
    (argument : List Char) :
    Bool :=
  argument.take 2 = ['-', '-']

/- The group for a value, and the arguments behind it. -/
def withValue
    (missing : ArgumentError)
    (group : List Char → Except ArgumentError Group) :
    List (List Char) →
      Except ArgumentError (Group × List (List Char))
  | [] => .error missing
  | value :: rest =>
      match group value with
      | .ok group => .ok (group, rest)
      | .error e => .error e

/- The group that asks for the pair at a position. -/
def ofPosition
    (value : List Char) :
    Except ArgumentError Group :=
  match Question.position? value with
  | some position => .ok (.question (.partner position))
  | none => .error (.badPosition value)

/- The group that edits the document. -/
def ofEdit
    (value : List Char) :
    Except ArgumentError Group :=
  match Replacement.ofValue? value with
  | some made => .ok (.edit made)
  | none => .error (.badEdit value)

/-
  The group that begins with an argument, and the arguments
  behind it.
-/
def read
    (argument : List Char)
    (rest : List (List Char)) :
    Except ArgumentError (Group × List (List Char)) :=
  if argument = pairsOption then .ok (.question .pairs, rest)
  else if argument = bracketsOption then
    .ok (.question .brackets, rest)
  else if argument = partnerOption then
    withValue .missingPosition ofPosition rest
  else if argument = editOption then
    withValue .missingEdit ofEdit rest
  else if argument = settingsOption then
    withValue .missingSettings (fun path =>
      .ok (.settings path)) rest
  else if isOption argument then
    .error (.unknownOption argument)
  else .ok (.file argument, rest)

theorem length_le_of_withValue
    {missing : ArgumentError}
    {group : List Char → Except ArgumentError Group}
    {arguments rest : List (List Char)}
    {found : Group}
    (h : withValue missing group arguments =
      .ok (found, rest)) :
    rest.length ≤ arguments.length := by
  unfold withValue at h
  split at h
  · cases h
  · split at h
    · cases h
      simp
    · cases h

/- Reading a group leaves none but the arguments behind. -/
theorem length_le_of_read
    {argument : List Char}
    {arguments rest : List (List Char)}
    {found : Group}
    (h : read argument arguments = .ok (found, rest)) :
    rest.length ≤ arguments.length := by
  unfold read at h
  split at h
  · cases h
    exact Nat.le_refl _
  split at h
  · cases h
    exact Nat.le_refl _
  split at h
  · exact length_le_of_withValue h
  split at h
  · exact length_le_of_withValue h
  split at h
  · exact length_le_of_withValue h
  split at h
  · cases h
  · cases h
    exact Nat.le_refl _

end Group

end Bracketry

------------------------------------------------------------
-- Command Lines
------------------------------------------------------------

namespace Bracketry

namespace Arguments

/- What is known of a command line so far. -/
structure Draft where
  file : Option (List Char)
  settings : Option (List Char)
  question : Option Question
  edits : List Replacement
deriving DecidableEq, Repr, Inhabited

namespace Draft

/- Nothing is known yet. -/
def empty : Draft :=
  ⟨none, none, none, []⟩

/- Add what a group says.  Later settings win. -/
def add
    (draft : Draft) :
    Group → Except ArgumentError Draft
  | .file path =>
      match draft.file with
      | none => .ok { draft with file := some path }
      | some _ => .error (.secondFile path)
  | .settings path =>
      .ok { draft with settings := some path }
  | .question question =>
      match draft.question with
      | none => .ok { draft with question := some question }
      | some _ => .error .secondQuestion
  | .edit edit =>
      .ok { draft with edits := draft.edits ++ [edit] }

/- Add what a list of arguments says. -/
def addAll
    (draft : Draft)
    (arguments : List (List Char)) :
    Except ArgumentError Draft :=
  match arguments with
  | [] => .ok draft
  | argument :: rest =>
      match _hRead : Group.read argument rest with
      | .error e => .error e
      | .ok (group, behind) =>
          match draft.add group with
          | .error e => .error e
          | .ok draft => addAll draft behind
termination_by arguments.length
decreasing_by
  have hLength := Group.length_le_of_read _hRead
  simp only [List.length_cons]
  omega

/- The command line, once all arguments were read. -/
def finish
    (draft : Draft) :
    Except ArgumentError Arguments :=
  match draft.file with
  | none => .error .noFile
  | some file =>
      .ok
        { file := file
          settings := draft.settings
          question := draft.question.getD .pairs
          edits := draft.edits }

end Draft

/- The command line that a list of arguments makes. -/
def parse
    (arguments : List (List Char)) :
    Except ArgumentError Arguments := do
  let draft ← Draft.empty.addAll arguments
  draft.finish

end Arguments

end Bracketry
