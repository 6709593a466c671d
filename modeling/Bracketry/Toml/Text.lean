/-
  Quoted texts in a TOML document, read.

  A text stands between double quotes and has escapes, or
  between single quotes and has none.  Three quotes in place
  of one begin a text that can go over several lines.

  Key definitions include:
    * `Toml.Reader`
    * `Toml.isBlank`, `Toml.isTextChar`
    * `Toml.Text.readShort?`
    * `Toml.Text.read?`
-/

------------------------------------------------------------
-- Characters
------------------------------------------------------------

namespace Bracketry

namespace Toml

/- Reads from the front of a text and leaves the rest. -/
abbrev Reader (α : Type) :=
  List Char → Option (α × List Char)

/- A blank inside a line. -/
def isBlank
    (c : Char) :
    Bool :=
  c = ' ' || c = '\t'

/- A character that texts and comments can hold as it is. -/
def isTextChar
    (c : Char) :
    Bool :=
  c = '\t' || (32 ≤ c.toNat && c.toNat ≠ 127)

/-
  A character and what follows begin a line break: a line
  feed, or a carriage return before one.
-/
def startsLineBreak
    (c : Char)
    (rest : List Char) :
    Bool :=
  c = '\n' || (c = '\r' && rest.head? = some '\n')

/- The value of a hexadecimal digit. -/
def digit?
    (c : Char) :
    Option Nat :=
  if '0' ≤ c ∧ c ≤ '9' then some (c.toNat - '0'.toNat)
  else if 'a' ≤ c ∧ c ≤ 'f' then
    some (c.toNat - 'a'.toNat + 10)
  else if 'A' ≤ c ∧ c ≤ 'F' then
    some (c.toNat - 'A'.toNat + 10)
  else none

end Toml

end Bracketry

------------------------------------------------------------
-- Escapes
------------------------------------------------------------

namespace Bracketry

namespace Toml

namespace Text

/- The character that a letter stands for in an escape. -/
def escaped? : Char → Option Char
  | '"' => some '"'
  | '\\' => some '\\'
  | 'b' => some (Char.ofNat 8)
  | 't' => some '\t'
  | 'n' => some '\n'
  | 'f' => some (Char.ofNat 12)
  | 'r' => some '\r'
  | 'e' => some (Char.ofNat 27)
  | _ => none

/- How many digits follow a letter that begins a code. -/
def codeSize? : Char → Option Nat
  | 'x' => some 2
  | 'u' => some 4
  | 'U' => some 8
  | _ => none

/- Where a reader stands inside a text with escapes. -/
inductive Place where
  | plain
  /- Behind a backslash. -/
  | escape
  /- Inside a code that lacks some digits. -/
  | code (missing value : Nat)
  /- Behind a backslash that the line has to end after. -/
  | lineEnd
  /- Behind such a line, where blanks are left out. -/
  | margin
deriving DecidableEq, Repr, Inhabited

/- The place behind a blank that follows a backslash. -/
def Place.afterBlank?
    (c : Char)
    (rest : List Char) :
    Option Place :=
  if isBlank c then some .lineEnd
  else if c = '\n' then some .margin
  else if startsLineBreak c rest then some .lineEnd
  else none

end Text

end Toml

end Bracketry

------------------------------------------------------------
-- Reading
------------------------------------------------------------

namespace Bracketry

namespace Toml

namespace Text

/- A character in front of what was read. -/
def keep
    (c : Char)
    (read : Option (List Char × List Char)) :
    Option (List Char × List Char) :=
  read.map fun (text, rest) => (c :: text, rest)

/-
  The end of a text over lines, behind three quotes.  Up to
  two more quotes belong to the text.
-/
def close
    (quote : Char) :
    List Char → List Char × List Char
  | a :: b :: rest =>
      if a ≠ quote then ([], a :: b :: rest)
      else if b ≠ quote then ([quote], b :: rest)
      else ([quote, quote], rest)
  | [a] => if a = quote then ([quote], []) else ([], [a])
  | [] => ([], [])

/- Two quotes are next. -/
def twoQuotes
    (quote : Char)
    (rest : List Char) :
    Bool :=
  rest.take 2 = [quote, quote]

/- A character stands for itself inside a text. -/
def standsForItself
    (long : Bool)
    (c : Char)
    (rest : List Char) :
    Bool :=
  isTextChar c || (long && startsLineBreak c rest)

/- The rest of a text with escapes. -/
def readBasic?
    (long : Bool) :
    Place → Reader (List Char)
  | _, [] => none
  | .escape, c :: rest =>
      match escaped? c, codeSize? c with
      | some meant, _ =>
          keep meant (readBasic? long .plain rest)
      | none, some size =>
          readBasic? long (.code size 0) rest
      | none, none =>
          match Place.afterBlank? c rest with
          | some place =>
              if long then readBasic? long place rest
              else none
          | none => none
  | .lineEnd, c :: rest =>
      match Place.afterBlank? c rest with
      | some place => readBasic? long place rest
      | none => none
  | .code missing value, c :: rest =>
      match digit? c with
      | none => none
      | some digit =>
          let value := value * 16 + digit
          if missing ≠ 1 then
            readBasic? long (.code (missing - 1) value) rest
          else if value.isValidChar then
            keep (Char.ofNat value)
              (readBasic? long .plain rest)
          else none
  | place, c :: rest =>
      if place = .margin ∧
          (isBlank c ∨ startsLineBreak c rest) then
        readBasic? long .margin rest
      else if c = '\\' then readBasic? long .escape rest
      else if c = '"' then
        if !long then some ([], rest)
        else if twoQuotes '"' rest then
          some (close '"' (rest.drop 2))
        else keep c (readBasic? long .plain rest)
      else if standsForItself long c rest then
        keep c (readBasic? long .plain rest)
      else none

/- The rest of a text without escapes. -/
def readLiteral?
    (long : Bool) :
    Reader (List Char)
  | [] => none
  | c :: rest =>
      if c = '\'' then
        if !long then some ([], rest)
        else if twoQuotes '\'' rest then
          some (close '\'' (rest.drop 2))
        else keep c (readLiteral? long rest)
      else if standsForItself long c rest then
        keep c (readLiteral? long rest)
      else none

/- A text that stays in its line. -/
def readShort? : Reader (List Char)
  | '"' :: rest => readBasic? false .plain rest
  | '\'' :: rest => readLiteral? false rest
  | _ => none

/- What follows a line break at the very front. -/
def dropLineBreak : List Char → List Char
  | '\n' :: rest => rest
  | '\r' :: '\n' :: rest => rest
  | text => text

/- A quoted text. -/
def read? : Reader (List Char)
  | '"' :: '"' :: '"' :: rest =>
      readBasic? true .plain (dropLineBreak rest)
  | '\'' :: '\'' :: '\'' :: rest =>
      readLiteral? true (dropLineBreak rest)
  | text => readShort? text

end Text

end Toml

end Bracketry
