import Bracketry.Token.LineReader
import Bracketry.Token.Scan

/-
  Tokens in the order of the text, with one token of
  look-ahead.

  A stream is either the tokens of one scan of the text, or
  a reader of classified lines.  Only the reader can skip to
  a place without reading what lies before it.

  Key definitions include:
    * `TokenStream`
    * `TokenStream.read`, `TokenStream.peek`
    * `TokenStream.skip`
-/

------------------------------------------------------------
-- Streams
------------------------------------------------------------

namespace Bracketry

/- Where the tokens of a stream come from. -/
inductive TokenSource where
  /- The tokens of a scan that were not read yet. -/
  | scanned (tokens : List Token) (length : Length)
  /- A reader, and its next token if that was looked at. -/
  | lines
    (source : LineSource)
    (reader : LineReader)
    (peeked : Option (Option Token))
deriving Inhabited

/- A source of tokens and the length read from it. -/
structure TokenStream where
  source : TokenSource
  offset : Position
deriving Inhabited

namespace TokenStream

/- The tokens of a whole text. -/
def ofText
    (table : TokenTable)
    (text : List Char) :
    TokenStream :=
  let tokens := Scan.tokens table text
  ⟨.scanned tokens (Scan.length tokens), 0⟩

/- The tokens of classified content. -/
def ofLines
    (source : LineSource) :
    TokenStream :=
  ⟨.lines source LineReader.start none, 0⟩

/- The length of the whole text. -/
def length
    (stream : TokenStream) :
    Length :=
  match stream.source with
  | .scanned _ length => length
  | .lines source _ _ => source.length

/- Move the offset behind a token that was read. -/
def passed
    (stream : TokenStream)
    (source : TokenSource)
    (token : Token) :
    Checked (Option Token × TokenStream) := do
  let offset ← stream.offset.plus token.length
  return (some token, ⟨source, offset⟩)

/- Read the next token. -/
def read
    (stream : TokenStream) :
    Checked (Option Token × TokenStream) :=
  match stream.source with
  | .scanned [] _ => .ok (none, stream)
  | .scanned (token :: rest) length =>
      stream.passed (.scanned rest length) token
  | .lines source reader (some none) =>
      .ok (none, ⟨.lines source reader none, stream.offset⟩)
  | .lines source reader (some (some token)) =>
      stream.passed (.lines source reader none) token
  | .lines source reader none => do
      let (token, reader) ← reader.read source
      match token with
      | none =>
          return (none,
            ⟨.lines source reader none, stream.offset⟩)
      | some token =>
          stream.passed (.lines source reader none) token

/- Look at the next token without moving the offset. -/
def peek
    (stream : TokenStream) :
    Checked (Option Token × TokenStream) :=
  match stream.source with
  | .scanned tokens _ => .ok (tokens.head?, stream)
  | .lines _ _ (some token) => .ok (token, stream)
  | .lines source reader none => do
      let (token, reader) ← reader.read source
      return (token,
        ⟨.lines source reader (some token), stream.offset⟩)

/- Move forward by a length without reading. -/
def skip
    (stream : TokenStream)
    (length : Length) :
    Checked TokenStream :=
  match stream.source with
  | .scanned _ _ => .error .skipOverScan
  | .lines source _ _ => do
      let offset ← stream.offset.plus length
      return ⟨.lines source (LineReader.ofPosition offset) none,
        offset⟩

end TokenStream

end Bracketry

------------------------------------------------------------
-- All Tokens
------------------------------------------------------------

namespace Bracketry

namespace TokenStream

/-
  The tokens that are left, at most as many as a count
  allows, and the stream behind them.
-/
def readUpTo :
    Nat → TokenStream → Checked (List Token × TokenStream)
  | 0, stream => .ok ([], stream)
  | count + 1, stream => do
      let (token, stream) ← stream.read
      match token with
      | none => return ([], stream)
      | some token =>
          let (tokens, stream) ← readUpTo count stream
          return (token :: tokens, stream)

/- A bound on the number of tokens that are left. -/
def bound
    (stream : TokenStream) :
    Nat :=
  match stream.source with
  | .scanned tokens _ => tokens.length + 1
  | .lines source _ _ =>
      2 * source.content.lines.foldl (fun size line =>
        size + Text.byteSize line.text + 1) 0 + 2

/- The tokens that are left. -/
def readAll
    (stream : TokenStream) :
    Checked (List Token × TokenStream) :=
  readUpTo stream.bound stream

end TokenStream

end Bracketry
