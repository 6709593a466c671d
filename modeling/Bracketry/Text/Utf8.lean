/-
  Texts measured and cut by their UTF-8 bytes.

  A text is a list of characters.  Offsets count the bytes
  of its UTF-8 form, so an offset can lie inside a
  character; `Text.splitAt?` refuses such an offset.

  Key definitions include:
    * `Text.byteSize`
    * `Text.splitAt?`
    * `Utf8.decode?`
    * `Utf8.DecodeError`
-/

------------------------------------------------------------
-- Byte Offsets
------------------------------------------------------------

namespace Bracketry

namespace Text

/- The number of bytes of a text. -/
def byteSize : List Char → Nat
  | [] => 0
  | c :: rest => c.utf8Size + byteSize rest

/-
  Cut a text at a byte offset.  An offset inside a character
  or behind the end has no cut.
-/
def splitAt?
    (offset : Nat) :
    List Char → Option (List Char × List Char)
  | [] => if offset = 0 then some ([], []) else none
  | c :: rest =>
      if offset = 0 then some ([], c :: rest)
      else if offset < c.utf8Size then none
      else
        match splitAt? (offset - c.utf8Size) rest with
        | some (before, after) => some (c :: before, after)
        | none => none

/- Texts one after the other, with a separator between. -/
def join
    (separator : List Char) :
    List (List Char) → List Char
  | [] => []
  | [text] => text
  | text :: rest => text ++ separator ++ join separator rest

theorem byteSize_append
    (a b : List Char) :
    byteSize (a ++ b) = byteSize a + byteSize b := by
  induction a with
  | nil => simp [byteSize]
  | cons c rest ih =>
      simp [byteSize, ih, Nat.add_assoc]

/- A cut loses nothing and has the asked size. -/
theorem eq_append_of_splitAt?
    {offset : Nat}
    {text before after : List Char}
    (h : splitAt? offset text = some (before, after)) :
    text = before ++ after ∧ byteSize before = offset := by
  induction text generalizing offset before after with
  | nil =>
      unfold splitAt? at h
      split at h
      · rename_i hZero
        simp only [Option.some.injEq, Prod.mk.injEq] at h
        simp [← h.1, ← h.2, byteSize, hZero]
      · cases h
  | cons c rest ih =>
      unfold splitAt? at h
      split at h
      · rename_i hZero
        simp only [Option.some.injEq, Prod.mk.injEq] at h
        simp [← h.1, ← h.2, byteSize, hZero]
      · split at h
        · cases h
        · rename_i hSize
          split at h
          · rename_i first last hCut
            simp only [Option.some.injEq,
              Prod.mk.injEq] at h
            have hRest := ih hCut
            rw [← h.1, ← h.2]
            refine ⟨by simp [hRest.1], ?_⟩
            rw [byteSize, hRest.2]
            omega
          · cases h

end Text

end Bracketry

------------------------------------------------------------
-- Decoding
------------------------------------------------------------

namespace Bracketry

namespace Utf8

/- Why a list of bytes is no text. -/
inductive DecodeError where
  /- So many bytes from an index begin no character. -/
  | invalid (size index : Nat)
  /- The character that begins at an index is cut off. -/
  | incomplete (index : Nat)
deriving DecidableEq, Repr, Inhabited

/- The wording of a decoding error. -/
def DecodeError.message : DecodeError → String
  | .invalid size index =>
      "invalid utf-8 sequence of " ++ toString size ++
        " bytes from index " ++ toString index
  | .incomplete index =>
      "incomplete utf-8 byte sequence from index " ++
        toString index

/-
  A character that was begun: where, how many bytes are
  missing, the code so far, and the bounds of the next byte.
-/
structure Begun where
  start : Nat
  missing : Nat
  code : Nat
  low : Nat
  high : Nat

/-
  The character that a leading byte begins.  The bounds of
  the second byte rule out long forms and surrogates.
-/
def begin?
    (index byte : Nat) :
    Option Begun :=
  if byte < 194 then none
  else if byte < 224 then
    some ⟨index, 1, byte - 192, 128, 191⟩
  else if byte < 240 then
    some
      { start := index
        missing := 2
        code := byte - 224
        low := if byte = 224 then 160 else 128
        high := if byte = 237 then 159 else 191 }
  else if byte < 245 then
    some
      { start := index
        missing := 3
        code := byte - 240
        low := if byte = 240 then 144 else 128
        high := if byte = 244 then 143 else 191 }
  else none

/- Decode the bytes from an index on. -/
def decodeFrom
    (index : Nat)
    (begun : Option Begun) :
    List Nat → Except DecodeError (List Char)
  | [] =>
      match begun with
      | none => .ok []
      | some b => .error (.incomplete b.start)
  | byte :: rest =>
      match begun with
      | none =>
          if byte < 128 then do
            let text ← decodeFrom (index + 1) none rest
            return Char.ofNat byte :: text
          else
            match begin? index byte with
            | none => .error (.invalid 1 index)
            | some b => decodeFrom (index + 1) (some b) rest
      | some b =>
          if b.low ≤ byte ∧ byte ≤ b.high then
            let code := b.code * 64 + (byte - 128)
            if b.missing = 1 then do
              let text ← decodeFrom (index + 1) none rest
              return Char.ofNat code :: text
            else
              decodeFrom (index + 1)
                (some ⟨b.start, b.missing - 1, code, 128,
                  191⟩) rest
          else .error (.invalid (index - b.start) b.start)

/- The text of a list of bytes. -/
def decode?
    (bytes : List Nat) :
    Except DecodeError (List Char) :=
  decodeFrom 0 none bytes

end Utf8

end Bracketry
