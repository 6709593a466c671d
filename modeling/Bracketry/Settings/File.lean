import Bracketry.Reading
import Bracketry.Settings.Basic
import Bracketry.Text.Utf8
import Bracketry.Toml.Reader
import Bracketry.Toml.Writer

/-
  Settings in a file.

  The file is a TOML document.  Entries that it leaves out
  have their standard value and entries of other names are
  left alone, but an entry of the wrong type is refused.

  Key definitions include:
    * `Settings.ofTable?`
    * `Settings.render`
    * `SettingsError`, `SettingsError.message`
    * `Settings.ofReading`
-/

------------------------------------------------------------
-- Reading a Document
------------------------------------------------------------

namespace Bracketry

namespace Settings

/- The name of the entry for the width of a tab. -/
def tabSizeKey : Toml.Key := "tab_size".toList

/- The name of the entry for the messages to log. -/
def logFilterKey : Toml.Key := "log_filter".toList

/- The name of the entry for the bracket pairs. -/
def bracketsKey : Toml.Key := "brackets".toList

/- The name of the entry for the coloured pairs. -/
def colorizedKey : Toml.Key := "colorized_brackets".toList

/- The name of an opening literal. -/
def openerKey : Toml.Key := "open".toList

/- The name of a closing literal. -/
def closerKey : Toml.Key := "close".toList

/- An integer that a 32-bit count can hold. -/
def count? : Toml.Value → Option Nat
  | .integer (some number) =>
      if 0 ≤ number ∧ number < countLimit then
        some number.toNat
      else none
  | _ => none

/- The characters of a text. -/
def text? : Toml.Value → Option (List Char)
  | .text chars => some chars
  | _ => none

/- The numbers in entries of other names can be read. -/
def othersReadable
    (known : List Toml.Key)
    (entries : List (Toml.Key × Toml.Value)) :
    Bool :=
  entries.all fun (key, value) =>
    known.contains key || value.isReadable

/-
  A pair: a table with both literals, or an array that they
  are the first two items of.
-/
def pair? : Toml.Value → Option BracketPair
  | .table _ entries => do
      let opener ← text? (← entries.lookup openerKey)
      let closer ← text? (← entries.lookup closerKey)
      if othersReadable [openerKey, closerKey] entries then
        return ⟨opener, closer⟩
      else none
  | .array _ (opener :: closer :: _) => do
      return ⟨← text? opener, ← text? closer⟩
  | _ => none

/- A list of pairs. -/
def pairs? : Toml.Value → Option (List BracketPair)
  | .array _ items => items.mapM pair?
  | _ => none

/- An entry that may be left out. -/
def optional?
    (read : Toml.Value → Option α) :
    Option Toml.Value → Option (Option α)
  | none => some none
  | some value => (read value).map some

/- The settings in a document. -/
def ofTable?
    (table : Toml.Table) :
    Option Settings := do
  let tabSize ← optional? count? (table.get? tabSizeKey)
  let logFilter ← optional? text? (table.get? logFilterKey)
  let brackets ← optional? pairs? (table.get? bracketsKey)
  let colorized ← optional? pairs? (table.get? colorizedKey)
  let known :=
    [tabSizeKey, logFilterKey, bracketsKey, colorizedKey]
  if othersReadable known table.entries then
    return {
      tabSize := tabSize.getD standard.tabSize
      logFilter := logFilter
      brackets := brackets.getD standard.brackets
      colorized := colorized }
  else none

end Settings

end Bracketry

------------------------------------------------------------
-- Writing a Document
------------------------------------------------------------

namespace Bracketry

namespace Settings

/- The line for a list that is empty. -/
def renderEmpty
    (key : Toml.Key)
    (pairs : List BracketPair) :
    List Char :=
  if pairs = [] then Toml.renderEntry key ['[', ']'] else []

/- The tables for a list of pairs. -/
def renderPairs
    (key : Toml.Key)
    (pairs : List BracketPair) :
    List Char :=
  pairs.flatMap fun pair =>
    Toml.renderItem key
      [(openerKey, pair.opener), (closerKey, pair.closer)]

/-
  The document for some settings.  Entries that take a line
  come before those that take tables.
-/
def render
    (settings : Settings) :
    List Char :=
  let logFilter :=
    match settings.logFilter with
    | some filter =>
        Toml.renderEntry logFilterKey
          (Toml.renderText filter)
    | none => []
  let (emptyColors, colors) :=
    match settings.colorized with
    | some pairs =>
        (renderEmpty colorizedKey pairs,
          renderPairs colorizedKey pairs)
    | none => ([], [])
  Toml.renderEntry tabSizeKey
      (toString settings.tabSize).toList ++
    logFilter ++ renderEmpty bracketsKey settings.brackets ++
    emptyColors ++ renderPairs bracketsKey settings.brackets ++
    colors

end Settings

end Bracketry

------------------------------------------------------------
-- Reading a File
------------------------------------------------------------

namespace Bracketry

/- Why a file gives no settings. -/
inductive SettingsError where
  /- The system does not read it. -/
  | unreadable (refusal : Refusal)
  /- Its bytes are no text. -/
  | undecodable
  /- Its text is no document with settings. -/
  | malformed
  /- One of its pairs has a defect. -/
  | invalidPair (defect : PairDefect)
deriving DecidableEq, Repr, Inhabited

namespace SettingsError

/- The message for a file that was not read, and why. -/
def readMessage
    (path cause : List Char) :
    List Char :=
  "Failed to read config file at ".toList ++ path ++
    ": ".toList ++ cause ++ ": ".toList ++ cause

/- The wording of an error in the file with a name. -/
def message
    (path : List Char) :
    SettingsError → List Char
  | .unreadable refusal => readMessage path refusal.message
  | .undecodable =>
      readMessage path
        "stream did not contain valid UTF-8".toList
  | .malformed =>
      "Failed to parse config file at ".toList ++ path ++
        ": ".toList
  | .invalidPair defect =>
      "Invalid bracket pair in ".toList ++ path ++
        ": ".toList ++ defect.message

end SettingsError

namespace Settings

/- The settings in a text. -/
def ofText
    (text : List Char) :
    Except SettingsError Settings :=
  match Toml.Table.ofText? text with
  | none => .error .malformed
  | some table =>
      match ofTable? table with
      | none => .error .malformed
      | some settings =>
          match settings.firstDefect? with
          | some defect => .error (.invalidPair defect)
          | none => .ok settings

/- The settings in a file; none if there is no file. -/
def ofReading :
    Reading → Except SettingsError (Option Settings)
  | .absent _ => .ok none
  | .unreadable refusal => .error (.unreadable refusal)
  | .content bytes =>
      match Utf8.decode? bytes with
      | .error _ => .error .undecodable
      | .ok text => (ofText text).map some

end Settings

end Bracketry
