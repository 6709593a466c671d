/-
  Texts and entries of a TOML document, written.

  A text is written between the quotes that need the fewest
  escapes: plain double quotes when nothing in it asks for
  more, then single quotes, then three quotes of a kind.

  Key definitions include:
    * `Toml.Quoting`, `Toml.Quoting.ofText`
    * `Toml.escape`
    * `Toml.renderText`
    * `Toml.renderEntry`, `Toml.renderItem`
-/

------------------------------------------------------------
-- Choosing the Quotes
------------------------------------------------------------

namespace Bracketry

namespace Toml

/- The quotes around a text. -/
inductive Quoting where
  /- One double quote, with escapes. -/
  | basic
  /- One single quote. -/
  | literal
  /- Three double quotes, with escapes. -/
  | longBasic
  /- Three single quotes. -/
  | longLiteral
deriving DecidableEq, Repr, Inhabited

/- A character that can only be written by an escape. -/
def needsEscape
    (c : Char) :
    Bool :=
  (c.toNat < 32 && c ≠ '\t' && c ≠ '\n') || c.toNat = 127

/- More than so many of one character stand in a row. -/
def runExceeds
    (quote : Char)
    (limit : Nat)
    (run : Nat) :
    List Char → Bool
  | [] => false
  | c :: rest =>
      if c = quote then
        limit ≤ run || runExceeds quote limit (run + 1) rest
      else runExceeds quote limit 0 rest

/- The quotes that fit a text best. -/
def Quoting.ofText
    (text : List Char) :
    Quoting :=
  let breaks := text.contains '\n'
  let codes := text.any needsEscape
  let slashes := text.contains '\\'
  if !codes && !slashes && !breaks &&
      !text.contains '"' then .basic
  else if !codes && !breaks && !text.contains '\'' then
    .literal
  else if !codes && !slashes && !runExceeds '"' 2 0 text then
    .longBasic
  else if !codes && !runExceeds '\'' 2 0 text then
    .longLiteral
  else if breaks then .longBasic
  else .basic

end Toml

end Bracketry

------------------------------------------------------------
-- Escapes
------------------------------------------------------------

namespace Bracketry

namespace Toml

/- The letter that stands for a character in an escape. -/
def escapeLetter?
    (long : Bool)
    (c : Char) :
    Option Char :=
  if c = '\\' then some '\\'
  else if c = '\t' then some 't'
  else if c = '\r' then some 'r'
  else if c = '\n' then if long then none else some 'n'
  else if c.toNat = 8 then some 'b'
  else if c.toNat = 12 then some 'f'
  else none

/- A code of four hexadecimal digits. -/
def escapeCode
    (c : Char) :
    List Char :=
  let digits :=
    (Nat.toDigits 16 c.toNat).map Char.toUpper
  ['\\', 'u'] ++ List.replicate (4 - digits.length) '0' ++
    digits

/-
  A text with its escapes.  `run` counts the quotes before.
  Between three quotes, two in a row need no escape.
-/
def escapeFrom
    (long : Bool)
    (run : Nat) :
    List Char → List Char
  | [] => []
  | c :: rest =>
      if c = '"' then
        if (if long then 2 else 0) ≤ run then
          '\\' :: '"' :: escapeFrom long 0 rest
        else '"' :: escapeFrom long (run + 1) rest
      else
        match escapeLetter? long c with
        | some letter =>
            '\\' :: letter :: escapeFrom long 0 rest
        | none =>
            if needsEscape c then
              escapeCode c ++ escapeFrom long 0 rest
            else c :: escapeFrom long 0 rest

/- A text with its escapes. -/
def escape
    (long : Bool)
    (text : List Char) :
    List Char :=
  escapeFrom long 0 text

end Toml

end Bracketry

------------------------------------------------------------
-- Writing
------------------------------------------------------------

namespace Bracketry

namespace Toml

/- The line break behind the opening three quotes. -/
def opening
    (text : List Char) :
    List Char :=
  if text.contains '\n' then ['\n'] else []

/- A text between its quotes. -/
def renderText
    (text : List Char) :
    List Char :=
  match Quoting.ofText text with
  | .basic => ['"'] ++ escape false text ++ ['"']
  | .literal => ['\''] ++ text ++ ['\'']
  | .longBasic =>
      List.replicate 3 '"' ++ opening text ++
        escape true text ++ List.replicate 3 '"'
  | .longLiteral =>
      List.replicate 3 '\'' ++ opening text ++ text ++
        List.replicate 3 '\''

/- The line of an entry with a written value. -/
def renderEntry
    (key value : List Char) :
    List Char :=
  key ++ [' ', '=', ' '] ++ value ++ ['\n']

/- One item of an array of tables, with texts in it. -/
def renderItem
    (key : List Char)
    (entries : List (List Char × List Char)) :
    List Char :=
  ['\n', '[', '['] ++ key ++ [']', ']', '\n'] ++
    entries.flatMap fun (name, text) =>
      renderEntry name (renderText text)

end Toml

end Bracketry
