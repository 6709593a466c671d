import Bracketry.Toml.Moment
import Bracketry.Toml.Number

/-
  A TOML document, read.

  A document is read line by line.  Each line is blank, has
  an entry for the table that is open, or opens a table.  A
  document that breaks a rule is refused as a whole.

  Key definitions include:
    * `Toml.filler?`, `Toml.lineEnd?`
    * `Toml.key?`
    * `Toml.value?`
    * `Toml.Draft.line?`
    * `Toml.Table.ofText?`
-/

------------------------------------------------------------
-- Blanks and Comments
------------------------------------------------------------

namespace Bracketry

namespace Toml

/- What follows the blanks of a line. -/
def afterBlanks
    (text : List Char) :
    List Char :=
  text.dropWhile isBlank

/-
  What follows blanks, line breaks and comments.  The flag
  says that a comment was begun.
-/
def fillerFrom?
    (inComment : Bool) :
    List Char → Option (List Char)
  | [] => some []
  | c :: rest =>
      if startsLineBreak c rest then
        fillerFrom? (inComment && c ≠ '\n') rest
      else if inComment then
        if isTextChar c then fillerFrom? true rest else none
      else if c = '#' then fillerFrom? true rest
      else if isBlank c then fillerFrom? false rest
      else some (c :: rest)

/- What follows blanks, line breaks and comments. -/
def filler?
    (text : List Char) :
    Option (List Char) :=
  fillerFrom? false text

/-
  The next line, when the rest of this one is blank.  The
  flag says that a comment was begun.
-/
def lineEndFrom?
    (inComment : Bool) :
    List Char → Option (List Char)
  | [] => some []
  | c :: rest =>
      if c = '\n' then some rest
      else if startsLineBreak c rest then
        lineEndFrom? inComment rest
      else if inComment then
        if isTextChar c then lineEndFrom? true rest else none
      else if c = '#' then lineEndFrom? true rest
      else if isBlank c then lineEndFrom? false rest
      else none

/- The next line, when the rest of this one is blank. -/
def lineEnd?
    (text : List Char) :
    Option (List Char) :=
  lineEndFrom? false text

end Toml

end Bracketry

------------------------------------------------------------
-- Keys
------------------------------------------------------------

namespace Bracketry

namespace Toml

/- A character of a key that needs no quotes. -/
def isBareChar
    (c : Char) :
    Bool :=
  c.isAlphanum || c = '_' || c = '-'

/- One part of a key. -/
def keyPart?
    (text : List Char) :
    Option (Key × List Char) :=
  match text.takeWhile isBareChar with
  | [] => Text.readShort? text
  | part => some (part, text.dropWhile isBareChar)

/- The parts of a key: those on the way, and the last. -/
def keyParts?
    (text : List Char) :
    Option ((List Key × Key) × List Char) :=
  match keyPart? text with
  | none => none
  | some (part, rest) =>
      match afterBlanks rest with
      | '.' :: next =>
          let next := afterBlanks next
          if next.length < text.length then
            (keyParts? next).map fun ((path, last), rest) =>
              ((part :: path, last), rest)
          else none
      | next => some (([], part), next)
termination_by text.length

/- How many parts a key may have. -/
def maxKeyParts : Nat := 80

/- A key: the parts on the way, and the last one. -/
def key?
    (text : List Char) :
    Option ((List Key × Key) × List Char) :=
  (keyParts? text).filter
    fun ((path, _), _) => path.length < maxKeyParts

end Toml

end Bracketry

------------------------------------------------------------
-- Values
------------------------------------------------------------

namespace Bracketry

namespace Toml

/-
  A character of a value without brackets that does not
  begin with a quote.
-/
def isSpellingChar
    (c : Char) :
    Bool :=
  let marks :=
    ['\n', '\r', '#', ',', '=', '[', ']', '\x7b', '\x7d']
  !isBlank c && !marks.contains c

/- A spelling goes on, perhaps behind some tabs. -/
def goesOn
    (text : List Char) :
    Bool :=
  (text.dropWhile (· = '\t')).head?.any fun c =>
    isSpellingChar c && c ≠ '"' && c ≠ '\''

/- Characters with at most tabs between them. -/
def unquoted : List Char → List Char × List Char
  | [] => ([], [])
  | c :: rest =>
      if isSpellingChar c || (c = '\t' && goesOn rest) then
        let (word, rest) := unquoted rest
        (c :: word, rest)
      else ([], c :: rest)

/-
  The spelling of a value without quotes or brackets.  A
  blank may stand between a date and a time.
-/
def spelling
    (text : List Char) :
    List Char × List Char :=
  let (first, rest) := unquoted text
  match rest with
  | ' ' :: next =>
      if Moment.isDate first ∧ next.head?.any (·.isDigit) then
        (first ++ ' ' :: (unquoted next).1, (unquoted next).2)
      else (first, rest)
  | _ => (first, rest)

/- The value that a spelling stands for. -/
def ofSpelling?
    (spelling : List Char) :
    Option Value :=
  if spelling = ['t', 'r', 'u', 'e'] then
    some (.boolean true)
  else if spelling = ['f', 'a', 'l', 's', 'e'] then
    some (.boolean false)
  else
    match Number.integer? spelling with
    | some number => some (.integer number)
    | none =>
        match Number.float? spelling with
        | some number => some (.float number)
        | none =>
            if Moment.isMoment spelling then
              some (.moment spelling)
            else none

/- A value without brackets. -/
def simpleValue? : Reader Value
  | '"' :: rest => do
      let (text, rest) ← Text.read? ('"' :: rest)
      return (.text text, rest)
  | '\'' :: rest => do
      let (text, rest) ← Text.read? ('\'' :: rest)
      return (.text text, rest)
  | text => do
      let (word, rest) := spelling text
      let value ← ofSpelling? word
      return (value, rest)

/- The items of an array, up to its closing bracket. -/
def items?
    (item : Reader Value)
    (text : List Char) :
    Option (List Value × List Char) :=
  match filler? text with
  | none => none
  | some (']' :: rest) => some ([], rest)
  | some start =>
      match item start with
      | none => none
      | some (value, rest) =>
          match filler? rest with
          | some (']' :: rest) => some ([value], rest)
          | some (',' :: rest) =>
              if rest.length < text.length then
                (items? item rest).map fun (values, rest) =>
                  (value :: values, rest)
              else none
          | _ => none
termination_by text.length

/- An entry between braces, added to a table. -/
def inlineEntry?
    (item : Reader Value)
    (table : Table)
    (text : List Char) :
    Option (Table × List Char) := do
  let ((path, key), rest) ← key? text
  let rest ← Moment.behind? '=' (← filler? rest)
  let (value, rest) ← item (← filler? rest)
  let table ← table.insert? path key value
  return (table, rest)

/- The entries of a table, up to its closing brace. -/
def inlineEntries?
    (item : Reader Value)
    (table : Table)
    (text : List Char) :
    Option (Table × List Char) :=
  match filler? text with
  | none => none
  | some ('\x7d' :: rest) => some (table, rest)
  | some start =>
      match inlineEntry? item table start with
      | none => none
      | some (table, rest) =>
          match filler? rest with
          | some ('\x7d' :: rest) => some (table, rest)
          | some (',' :: rest) =>
              if rest.length < text.length then
                inlineEntries? item table rest
              else none
          | _ => none
termination_by text.length

/- How many brackets and braces may be open at a time. -/
def maxNesting : Nat := 80

/- A value with so many brackets and braces open at most. -/
def valueWithin? : Nat → Reader Value
  | 0, text => simpleValue? text
  | depth + 1, text =>
      match text with
      | '[' :: rest => do
          let (values, rest) ←
            items? (valueWithin? depth) rest
          return (.array false values, rest)
      | '\x7b' :: rest => do
          let (table, rest) ←
            inlineEntries? (valueWithin? depth)
              (.empty .inline) rest
          return (table.toValue, rest)
      | text => simpleValue? text

/- A value. -/
def value? : Reader Value :=
  valueWithin? maxNesting

end Toml

end Bracketry

------------------------------------------------------------
-- Documents
------------------------------------------------------------

namespace Bracketry

namespace Toml

/- What was read so far, and the path of the open table. -/
structure Draft where
  root : Table
  opened : List Key
deriving Inhabited

namespace Draft

/- Add an entry to the open table. -/
def insert?
    (draft : Draft)
    (path : List Key)
    (key : Key)
    (value : Value) :
    Option Draft := do
  let root ←
    draft.root.within? false
      (fun table => table.insert? path key value)
      draft.opened
  return { draft with root := root }

/- Open a table; the flag tells an item of an array. -/
def open?
    (draft : Draft)
    (isItem : Bool)
    (path : List Key)
    (key : Key) :
    Option Draft := do
  let root ←
    if isItem then draft.root.openItem? path key
    else draft.root.openTable? path key
  return ⟨root, path ++ [key]⟩

/- Read a header behind its opening brackets. -/
def header?
    (draft : Draft)
    (isItem : Bool)
    (text : List Char) :
    Option (Draft × List Char) := do
  let ((path, key), rest) ← key? (afterBlanks text)
  let rest ← Moment.behind? ']' rest
  let rest ← if isItem then Moment.behind? ']' rest
    else some rest
  let draft ← draft.open? isItem path key
  return (draft, ← lineEnd? rest)

/- Read one line. -/
def line?
    (draft : Draft)
    (text : List Char) :
    Option (Draft × List Char) :=
  match afterBlanks text with
  | '[' :: '[' :: rest => draft.header? true rest
  | '[' :: rest => draft.header? false rest
  | start =>
      match lineEnd? start with
      | some rest => some (draft, rest)
      | none => do
          let ((path, key), rest) ← key? start
          let rest ← Moment.behind? '=' rest
          let (value, rest) ← value? (afterBlanks rest)
          let draft ← draft.insert? path key value
          return (draft, ← lineEnd? rest)

/- Read the lines up to the end. -/
def lines?
    (draft : Draft)
    (text : List Char) :
    Option Draft :=
  if text = [] then some draft
  else
    match draft.line? text with
    | none => none
    | some (draft, rest) =>
        if rest.length < text.length then lines? draft rest
        else none
termination_by text.length

end Draft

namespace Table

/- What follows the mark of byte order. -/
def dropMark : List Char → List Char
  | [] => []
  | c :: rest =>
      if c.toNat = 65279 then rest else c :: rest

/- The table of a document. -/
def ofText?
    (text : List Char) :
    Option Table := do
  let draft ←
    Draft.lines? ⟨.empty .header, []⟩ (dropMark text)
  return draft.root

end Table

end Toml

end Bracketry
