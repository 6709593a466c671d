import Bracketry.Text.Word

/-
  Paths with variables and a home directory in them.

  A path is cut into parts: texts that stand for themselves,
  and names of variables with a dollar sign before them,
  with or without braces.  Behind `:-` between braces stands
  a text for a variable that is not set.  A tilde in front
  stands for the home directory.

  Key definitions include:
    * `PathPart`, `PathPart.ofPath`
    * `Environment`, `Environment.home?`
    * `Path.expand?`
    * `Path.settingsName`, `Path.settingsFile`
-/

------------------------------------------------------------
-- Parts
------------------------------------------------------------

namespace Bracketry

/- A part of a path. -/
inductive PathPart where
  /- A text that stands for itself. -/
  | text (chars : List Char)
  /- A name behind a dollar sign. -/
  | variable (name : List Char)
  /- A name between braces, and the text to fall back on. -/
  | braced
    (name : List Char)
    (fallback : Option (List Char))
deriving DecidableEq, Repr, Inhabited

namespace PathPart

/- A character of a name that needs no braces. -/
def isNameChar
    (c : Char) :
    Bool :=
  isAlphanumeric c || c = '_'

/- Cut at the first `:-`, and leave it out. -/
def splitFallback? :
    List Char → Option (List Char × List Char)
  | [] => none
  | c :: rest =>
      if c = ':' ∧ rest.head? = some '-' then
        some ([], rest.drop 1)
      else
        (splitFallback? rest).map
          fun (before, behind) => (c :: before, behind)

/- The part for what stands between braces. -/
def ofBraced
    (spelling : List Char) :
    PathPart :=
  match splitFallback? spelling with
  | some (c :: name, fallback) =>
      .braced (c :: name) (some fallback)
  | _ => .braced spelling none

/- The part behind a dollar sign, and the rest. -/
def behindDollar
    (text : List Char) :
    PathPart × List Char :=
  match text with
  | '$' :: rest => (.text ['$'], rest)
  | '\x7b' :: rest =>
      if rest.contains '\x7d' then
        (ofBraced (rest.takeWhile (· ≠ '\x7d')),
          (rest.dropWhile (· ≠ '\x7d')).drop 1)
      else (.text ['$', '\x7b'], rest)
  | _ =>
      match text.takeWhile isNameChar with
      | [] => (.text ['$'], text)
      | name => (.variable name, text.dropWhile isNameChar)

/- What follows a dollar sign leaves no more than that. -/
theorem length_behindDollar_le
    (text : List Char) :
    (behindDollar text).2.length ≤ text.length := by
  unfold behindDollar
  split
  · simp
  · rename_i rest
    split
    · have h :=
        (List.dropWhile_sublist
          (l := rest) (· ≠ '\x7d')).length_le
      simp only [List.length_drop, List.length_cons]
      omega
    · simp
  · split
    · simp
    · exact (List.dropWhile_sublist isNameChar).length_le

/- The parts of a path. -/
def ofPath
    (path : List Char) :
    List PathPart :=
  match path with
  | [] => []
  | c :: rest =>
      if c = '$' then
        (behindDollar rest).1 ::
          ofPath (behindDollar rest).2
      else .text [c] :: ofPath rest
termination_by path.length
decreasing_by
  · have h := length_behindDollar_le rest
    simp only [List.length_cons]
    omega
  · simp

/- The name that a part asks for. -/
def name? : PathPart → Option (List Char)
  | .text _ => none
  | .variable name => some name
  | .braced name _ => some name

end PathPart

end Bracketry

------------------------------------------------------------
-- Expansion
------------------------------------------------------------

namespace Bracketry

/- The variables that are set, with their values. -/
abbrev Environment := List Char → Option (List Char)

namespace Environment

/- The name of the variable for the home directory. -/
def homeName : List Char := "HOME".toList

/- The home directory, unless it is not set or empty. -/
def home?
    (environment : Environment) :
    Option (List Char) :=
  (environment homeName).filter (· ≠ [])

end Environment

namespace PathPart

/-
  What a part stands for; nothing if it asks for a variable
  that is not set and has no text to fall back on.  A
  variable that is set to the empty text is set.
-/
def expand?
    (environment : Environment) :
    PathPart → Option (List Char)
  | .text chars => some chars
  | .variable name => environment name
  | .braced name fallback =>
      (environment name).or fallback

end PathPart

namespace Path

/-
  A path with a tilde in front turned into one from the home
  directory.  The tilde stands alone or before a slash.
-/
def expandHome
    (environment : Environment)
    (path : List Char) :
    List Char :=
  match path with
  | '~' :: rest =>
      if rest = [] ∨ rest.head? = some '/' then
        match environment.home? with
        | some home => home ++ rest
        | none => path
      else path
  | _ => path

/-
  A path with its variables and its tilde expanded; nothing
  if a variable is not set.  A tilde that comes out of a
  variable stands for itself.
-/
def expand?
    (environment : Environment)
    (path : List Char) :
    Option (List Char) := do
  let parts ←
    (PathPart.ofPath path).mapM (·.expand? environment)
  let expanded := parts.flatten
  if path.head? = some '~' then
    return expandHome environment expanded
  else return expanded

/- The names of the variables that a path depends on. -/
def names
    (path : List Char) :
    List (List Char) :=
  (PathPart.ofPath path).filterMap PathPart.name?

/- Where a home directory has the settings of a user. -/
def settingsName : List Char :=
  ".config/bracket-pairs/config.toml".toList

/- The file that the settings of a user are in. -/
def settingsFile
    (environment : Environment) :
    List Char :=
  expandHome environment ('~' :: '/' :: settingsName)

end Path

end Bracketry
