import Bracketry.Proofs.ByteTrees
import Bracketry.Proofs.Peeks

/-
  Bytes with their characters.

  Each byte of a text is taken with the character that it is
  part of, and its place in that character.  So the bytes of
  a bracket tell what stands in the text, and a bracket that
  is kept through edits still lies over its literal.

  Key definitions include:
    * `CharByte`, `CharByte.ofText`
    * `CharByte.Shows`, `CharByte.script`
    * `CharByte.account`

  Main declarations:
    * `CharByte.exists_cut`
    * `CharByte.isSound_script`, `CharByte.keeps_script`
    * `CharByte.covers`
-/

------------------------------------------------------------
-- Bytes with Characters
------------------------------------------------------------

namespace Bracketry

open Measured

/-
  A byte with the character that it is part of and its place
  in it.  Lines behind the end of a text have no characters.
-/
structure CharByte where
  byte : TextByte
  source : Option (Char × Nat)
deriving DecidableEq, Repr, Inhabited

namespace CharByte

instance : Measured CharByte where
  size charByte := charByte.byte.length
  size_ne_zero charByte := size_ne_zero charByte.byte

/- The bytes of a character, with it. -/
def ofChar
    (c : Char) :
    List CharByte :=
  (TextByte.ofChar c).zipIdx.map fun (byte, index) =>
    ⟨byte, some (c, index)⟩

/- The bytes of a text, with their characters. -/
def ofText
    (text : List Char) :
    List CharByte :=
  text.flatMap ofChar

/- Lines behind the end of a text. -/
def pads
    (count : Nat) :
    List CharByte :=
  List.replicate (count + 1) ⟨.beyond, none⟩

@[simp] theorem ofText_nil :
    ofText [] = [] :=
  rfl

@[simp] theorem ofText_cons
    (c : Char)
    (rest : List Char) :
    ofText (c :: rest) = ofChar c ++ ofText rest := by
  simp [ofText]

@[simp] theorem ofText_append
    (a b : List Char) :
    ofText (a ++ b) = ofText a ++ ofText b := by
  simp [ofText]

@[simp] theorem map_byte_ofChar
    (c : Char) :
    (ofChar c).map byte = TextByte.ofChar c := by
  unfold ofChar
  rw [List.map_map]
  exact List.zipIdx_map_fst 0 (TextByte.ofChar c)

@[simp] theorem map_byte_ofText
    (text : List Char) :
    (ofText text).map byte = TextByte.ofText text := by
  induction text with
  | nil => rfl
  | cons c rest ih =>
      rw [ofText_cons, List.map_append, map_byte_ofChar, ih,
        TextByte.ofText_cons]

@[simp] theorem map_byte_pads
    (count : Nat) :
    (pads count).map byte = TextByte.pads count :=
  List.map_replicate

/- A text carries its bytes. -/
theorem carries_ofText
    (text : List Char)
    (count : Nat) :
    TextByte.Carries byte text count (ofText text) (pads count) :=
  ⟨fun _ => rfl, map_byte_ofText text, map_byte_pads count⟩

/- With their characters, bytes are as long as before. -/
theorem extent_map_byte
    (charBytes : List CharByte) :
    extent (charBytes.map byte) = extent charBytes :=
  TextByte.extent_map (carries_ofText [] 0).sizes charBytes

theorem extent_ofText
    (text : List Char) :
    extent (ofText text) = Length.ofText text := by
  rw [← extent_map_byte, map_byte_ofText, TextByte.extent_ofText]

theorem length_ofText
    (text : List Char) :
    (ofText text).length = Text.byteSize text :=
  (carries_ofText text 0).length

end CharByte

end Bracketry

------------------------------------------------------------
-- Characters among Bytes
------------------------------------------------------------

namespace Bracketry

open Measured

namespace CharByte

/- Only the first byte of a character begins it. -/
theorem exists_ofChar
    (c : Char) :
    ∃ byte rest,
      ofChar c = ⟨byte, some (c, 0)⟩ :: rest ∧
        ∀ charByte ∈ rest, ∀ d,
          charByte.source ≠ some (d, 0) := by
  have hSome : TextByte.ofChar c ≠ [] := by
    intro hNil
    have hExtent := TextByte.extent_ofChar c
    rw [hNil] at hExtent
    exact Length.ofChar_ne_zero c hExtent.symm
  rcases List.exists_cons_of_ne_nil hSome with
    ⟨byte, others, hBytes⟩
  refine ⟨byte, _, by rw [ofChar, hBytes]; rfl, ?_⟩
  intro charByte hCharByte d hFirst
  rcases List.mem_map.1 hCharByte with
    ⟨⟨other, index⟩, hMem, rfl⟩
  have hIndex := List.le_snd_of_mem_zipIdx hMem
  simp only [Option.some.injEq, Prod.mk.injEq] at hFirst hIndex
  omega

theorem source_of_mem_pads
    {charByte : CharByte}
    {count : Nat}
    (h : charByte ∈ pads count) :
    charByte.source = none := by
  rw [List.eq_of_mem_replicate h]

/- A text ends in front of the first byte of a character. -/
theorem exists_cut
    {text : List Char}
    {count : Nat}
    {before behind : List CharByte}
    {charByte : CharByte}
    {c : Char}
    (hFirst : charByte.source = some (c, 0))
    (h :
      ofText text ++ pads count = before ++ charByte :: behind) :
    ∃ first last,
      text = first ++ last ∧ before = ofText first ∧
        charByte :: behind = ofText last ++ pads count := by
  induction text generalizing before with
  | nil =>
      have hMem : charByte ∈ pads count := by
        rw [ofText_nil, List.nil_append] at h
        rw [h]
        simp
      rw [source_of_mem_pads hMem] at hFirst
      cases hFirst
  | cons d rest ih =>
      rcases exists_ofChar d with ⟨byte, others, hChar, hOthers⟩
      cases before with
      | nil => exact ⟨[], d :: rest, rfl, rfl, h.symm⟩
      | cons start more =>
          have hCharBytes := h
          rw [ofText_cons, hChar, List.cons_append,
            List.cons_append, List.cons_append,
            List.cons.injEq, List.append_assoc] at hCharBytes
          rcases hCharBytes with ⟨rfl, hCharBytes⟩
          rcases List.append_eq_append_iff.1 hCharBytes with
            ⟨inner, rfl, hInner⟩ | ⟨inner, rfl, hInner⟩
          · rcases ih hInner with ⟨first, last, rfl, rfl, hLast⟩
            refine ⟨d :: first, last, rfl, ?_, hLast⟩
            rw [ofText_cons, hChar, List.cons_append]
          · cases inner with
            | nil =>
                refine ⟨[d], rest, rfl, ?_, ?_⟩
                · simp [hChar]
                · simpa using hInner
            | cons next tail =>
                rw [List.cons_append, List.cons.injEq]
                  at hInner
                rcases hInner with ⟨rfl, _⟩
                exact absurd hFirst
                  (hOthers charByte (by simp) c)

/- What begins with the bytes of a text begins with it. -/
theorem exists_of_starts
    {text found : List Char}
    {count : Nat}
    {behind : List CharByte}
    (h :
      ofText text ++ pads count = ofText found ++ behind) :
    ∃ rest,
      text = found ++ rest ∧
        behind = ofText rest ++ pads count := by
  induction found generalizing text with
  | nil => exact ⟨text, rfl, h.symm⟩
  | cons c others ih =>
      rcases exists_ofChar c with ⟨byte, tail, hChar, _⟩
      cases text with
      | nil =>
          have hMem :
              (⟨byte, some (c, 0)⟩ : CharByte) ∈ pads count := by
            rw [ofText_nil, List.nil_append] at h
            rw [h, ofText_cons, hChar]
            simp
          cases source_of_mem_pads hMem
      | cons d rest =>
          have hSame : d = c := by
            rcases exists_ofChar d with ⟨first, more, hFirst, _⟩
            rw [ofText_cons, ofText_cons, hChar, hFirst,
              List.cons_append, List.cons_append,
              List.cons_append, List.cons_append,
              List.cons.injEq, CharByte.mk.injEq] at h
            exact (Prod.mk.inj (Option.some.inj h.1.2)).1
          subst hSame
          rw [ofText_cons, ofText_cons, List.append_assoc,
            List.append_assoc, List.append_cancel_left_eq] at h
          rcases ih h with ⟨more, rfl, rfl⟩
          exact ⟨more, rfl, rfl⟩

/- Where the bytes of a text stand, the text stands. -/
theorem exists_of_bytes
    {text found : List Char}
    {count : Nat}
    {before behind : List CharByte}
    (hSome : found ≠ [])
    (h :
      ofText text ++ pads count =
        before ++ (ofText found ++ behind)) :
    ∃ first last,
      text = first ++ (found ++ last) ∧
        before = ofText first ∧
        behind = ofText last ++ pads count := by
  rcases List.exists_cons_of_ne_nil hSome with ⟨c, others, rfl⟩
  rcases exists_ofChar c with ⟨byte, tail, hChar, _⟩
  have hCharBytes := h
  rw [ofText_cons, hChar, List.cons_append, List.cons_append]
    at hCharBytes
  rcases exists_cut rfl hCharBytes with
    ⟨first, more, rfl, rfl, _⟩
  rw [ofText_append, List.append_assoc,
    List.append_cancel_left_eq] at h
  rcases exists_of_starts h with ⟨last, rfl, rfl⟩
  exact ⟨first, last, rfl, rfl, rfl⟩

end CharByte

end Bracketry

------------------------------------------------------------
-- Brackets of a Line
------------------------------------------------------------

namespace Bracketry

open Measured

/- What stands on a line stands in the text. -/
theorem Line.exists_of_getElem?
    {text before behind : List Char}
    {number : Nat}
    {line : Line}
    (hLine : (split text)[number]? = some line)
    (hText : line.text = before ++ behind) :
    ∃ first last,
      text = first ++ (behind ++ last) ∧
        Length.ofText first =
          ⟨number, Text.byteSize before⟩ := by
  fun_induction split text
    generalizing number line before behind with
  | case1 =>
      cases number with
      | zero =>
          rcases Option.some.inj hLine with rfl
          rcases List.append_eq_nil_iff.1 hText.symm with
            ⟨rfl, rfl⟩
          exact ⟨[], [], rfl, rfl⟩
      | succ number => simp at hLine
  | case2 rest ih =>
      cases number with
      | zero =>
          rcases Option.some.inj hLine with rfl
          rcases List.append_eq_nil_iff.1 hText.symm with
            ⟨rfl, rfl⟩
          exact ⟨[], '\n' :: rest, rfl, rfl⟩
      | succ number =>
          rcases ih hLine hText with ⟨first, last, rfl, hFirst⟩
          refine ⟨'\n' :: first, last, rfl, ?_⟩
          rw [Length.ofText_cons, hFirst]
          exact Length.break_add _
  | case3 rest ih =>
      cases number with
      | zero =>
          rcases Option.some.inj hLine with rfl
          rcases List.append_eq_nil_iff.1 hText.symm with
            ⟨rfl, rfl⟩
          exact ⟨[], '\r' :: '\n' :: rest, rfl, rfl⟩
      | succ number =>
          rcases ih hLine hText with ⟨first, last, rfl, hFirst⟩
          refine ⟨'\r' :: '\n' :: first, last, rfl, ?_⟩
          rw [Length.ofText_cons, Length.ofText_cons, hFirst,
            ← add_assoc]
          exact Length.break_add _
  | case4 c rest _ _ hNil ih =>
      exact absurd hNil (split_ne_nil rest)
  | case5 c rest hBreak _ head lines hCons ih =>
      rw [hCons] at ih
      have hChar : Length.ofChar c = ⟨0, c.utf8Size⟩ := by
        rw [Length.ofChar, if_neg hBreak]
      cases number with
      | zero =>
          rcases Option.some.inj hLine with rfl
          cases before with
          | nil =>
              rcases @ih [] head.text 0 head rfl rfl with
                ⟨first, last, hRest, hFirst⟩
              have hNil : first = [] :=
                extent_eq_zero.1 ((extent_chars _).trans hFirst)
              subst hNil
              refine ⟨[], last, ?_, rfl⟩
              rw [List.nil_append] at hText hRest ⊢
              rw [← hText, hRest]
              rfl
          | cons d others =>
              rw [List.cons_append, List.cons.injEq] at hText
              rcases hText with ⟨rfl, hText⟩
              rcases @ih others behind 0 head rfl hText with
                ⟨first, last, rfl, hFirst⟩
              refine ⟨c :: first, last, rfl, ?_⟩
              rw [Length.ofText_cons, hFirst, hChar,
                Length.add_def, if_pos rfl]
              rfl
      | succ number =>
          rcases @ih before behind (number + 1) line hLine
              hText with
            ⟨first, last, rfl, hFirst⟩
          refine ⟨c :: first, last, rfl, ?_⟩
          rw [Length.ofText_cons, hFirst, hChar,
            Length.add_def, if_neg (Nat.succ_ne_zero number),
            Nat.zero_add]

namespace LineReader

variable {source : LineSource} {text : List Char}

/- A bracket that is passed lies over a match. -/
theorem Passes.exists_match
    {reader after : LineReader}
    {token : Token}
    (hOf : source.IsOf text)
    (hReader : reader.Follows source)
    (h : Passes source reader token after)
    (hBracket : token.isBracket = true) :
    ∃ before found behind,
      text = before ++ (found ++ behind) ∧
        Length.ofText before = reader.place ∧
        source.table.tokenOfMatch? found = some token := by
  have hPlace := hReader.hasPlace
  rw [LineSource.hasPlace_iff hOf, ← TextByte.hasPlace_iff]
    at hPlace
  rcases hPlace with ⟨line, hLine, _⟩
  rcases h.isRead hBracket with
    ⟨passed, found, left, hText, hColumn, hToken⟩
  have hSame :
      source.content.line reader.line = line.text := by
    refine Content.line_of_getElem? ?_
    rw [hOf.lines]
    exact hLine
  rw [hSame] at hText
  rcases Line.exists_of_getElem? hLine hText with
    ⟨before, behind, rfl, hBefore⟩
  refine ⟨before, found, left ++ behind, by simp, ?_, hToken⟩
  rw [hBefore, hColumn]
  rfl

end LineReader

end Bracketry

------------------------------------------------------------
-- The Script of Bytes
------------------------------------------------------------

namespace Bracketry

open Measured

namespace CharByte

/- On one line, each byte is a column. -/
theorem length_eq_columns
    {charBytes : List CharByte}
    (h : (extent charBytes).lines = 0) :
    charBytes.length = (extent charBytes).columns := by
  induction charBytes with
  | nil => rfl
  | cons charByte rest ih =>
      rw [extent_cons, Length.add_lines] at h
      have hSize : size charByte = ⟨0, 1⟩ := by
        have hLines : (size charByte).lines = 0 := by omega
        rcases charByte with ⟨byte, source⟩
        cases byte <;> first | rfl | cases hLines
      have hRest := ih (by omega)
      rw [extent_cons, hSize, Length.add_def, if_pos (by omega),
        List.length_cons, hRest]
      simp only
      omega

/-
  A token begins and ends where the bytes can be split, and a
  bracket is what the characters under it match.
-/
def Shows
    (table : TokenTable)
    (before part behind : List CharByte)
    (token : Token) :
    Prop :=
  TextByte.Shows (before.map byte) (part.map byte)
      (behind.map byte) token ∧
    (token.isBracket = true →
      ∃ found,
        part = ofText found ∧
          table.tokenOfMatch? found = some token)

/- What a token shows depends on the bytes next to it. -/
theorem isLocal_shows
    (table : TokenTable) :
    IsLocal (Shows table) :=
  TextByte.isLocal_map fun part token =>
    token.isBracket = true →
      ∃ found,
        part = ofText found ∧
          table.tokenOfMatch? found = some token

/- A document that is read by lines, as bytes. -/
def script
    (source : LineSource)
    (text : List Char)
    (count : Nat) :
    Script CharByte where
  source := source
  text := ofText text
  ending := pads count
  Shows := Shows source.table
  Stands reader before _ :=
    reader.Follows source ∧ reader.place = extent before

variable {source : LineSource} {text : List Char}
variable {count : Nat}

/- The bytes of a bracket are those of what it matches. -/
theorem exists_match_of_passes
    {reader after : LineReader}
    {token : Token}
    {before first more : List CharByte}
    (hOf : source.IsOf text)
    (hSolid : source.table.IsSolid)
    (hText : ofText text = before ++ (first ++ more))
    (hReader : reader.Follows source)
    (hPlace : reader.place = extent before)
    (hPasses : LineReader.Passes source reader token after)
    (hExtent : extent first = token.length)
    (hBracket : token.isBracket = true) :
    ∃ found,
      first = ofText found ∧
        source.table.tokenOfMatch? found = some token := by
  rcases hPasses.exists_match hOf hReader hBracket with
    ⟨passed, found, left, rfl, hPassed, hToken⟩
  have hLiteral := hSolid.isLiteral hToken
  rcases TokenTable.of_tokenOfMatch? hToken with ⟨_, hSize⟩
  rw [ofText_append, ofText_append] at hText
  have hStart : extent (ofText passed) = extent before := by
    rw [extent_ofText, hPassed, hPlace]
  rcases eq_of_extent_eq hText hStart with ⟨_, hRest⟩
  have hLength : first.length = (ofText found).length := by
    rw [length_eq_columns (by rw [hExtent, hLiteral.lines]),
      hExtent, hSize, length_ofText]
  exact ⟨found, (List.append_inj hRest.symm hLength).1, hToken⟩

/- Each document is read as its bytes. -/
theorem isSound_script
    (hOf : source.IsOf text)
    (hSolid : source.table.IsSolid)
    (hSize : Text.byteSize text + count + 1 < 2 ^ 31) :
    (script source text count).IsSound := by
  refine TextByte.isSound_of_carries (carries_ofText text count)
    hOf hSolid hSize ⟨LineReader.follows_start source, rfl⟩
    (fun _ _ _ hStands => hStands) ?_
  rintro reader after token before first more hText
    ⟨hReader, hPlace⟩ hRead hPasses hSome hExtent hNext hShows
  refine ⟨⟨hShows, fun hBracket => ?_⟩, hPasses.follows,
    hNext⟩
  exact exists_match_of_passes hOf hSolid hText hReader hPlace
    hPasses hExtent hBracket

/- An old document keeps its places in a new one. -/
theorem keeps_script
    {old : List Char}
    {tokens : List Token}
    (hOf : source.IsOf text)
    (hSize : Text.byteSize old + count + 1 < 2 ^ 31)
    (hSpells :
      Spells (Shows source.table) [] tokens (ofText old)
        (pads count)) :
    (script source text count).Keeps
      ⟨ofText old, tokens, Forest.IsMatched⟩ :=
  TextByte.keeps_of_carries (carries_ofText text count)
    (carries_ofText old count) hOf hSize
    Forest.isInherited_isMatched (fun _ h => h)
    (isLocal_shows source.table)
    (fun _ _ _ _ hShows => hShows.1)
    (fun _ _ hReader => ⟨hReader, rfl⟩) hSpells

end CharByte

end Bracketry

------------------------------------------------------------
-- The Account of Bytes
------------------------------------------------------------

namespace Bracketry

open Measured

namespace CharByte

/- Trees whose brackets are known by what they match. -/
def account
    (table : TokenTable) :
    Account CharByte where
  ending := pads 0
  Shows := Shows table
  IsText charBytes :=
    ∃ text, charBytes = ofText text ∧ Text.IsShort text
  kept := Forest.IsMatched

variable {table : TokenTable} {text : List Char}

theorem isSound_account
    (table : TokenTable) :
    (account table).IsSound := by
  rintro _ ⟨text, rfl, hShort⟩
  exact (carries_ofText text 0).isSmall hShort

/- Reading by lines keeps to the account. -/
theorem reads_script
    {source : LineSource}
    (hOf : source.IsOf text)
    (hSolid : source.table.IsSolid)
    (hShort : Text.IsShort text) :
    (account source.table).Reads (script source text 0) := by
  constructor
  case ending => rfl
  case shows => rfl
  case sound => exact isSound_script hOf hSolid hShort
  case keeps =>
    rintro _ forest ⟨old, rfl, hOld⟩ _ hSpells
    exact keeps_script hOf hOld hSpells
  case known => exact fun hMatched _ _ => hMatched

/- The tokens of a scan spell the bytes of the text. -/
theorem spells_of_scan
    (hSolid : table.IsSolid)
    (hFlat : table.IsFlat)
    (text : List Char) :
    Spells (Shows table) [] (Scan.tokens table text)
      (ofText text) (pads 0) := by
  have hScan := Scan.spells_tokens hSolid hFlat text
  have hStart :
      TextByte.Splits (TextByte.ofText [])
        (TextByte.ofText text ++ TextByte.pads 0) :=
    TextByte.splits_nil _
  refine hScan.translate
    (fun before behind =>
      TextByte.Splits (TextByte.ofText before)
        (TextByte.ofText behind ++ TextByte.pads 0))
    ofText_append ?_ ?_ hStart
  · intro text
    rw [extent_ofText, extent_chars]
  · intro before first behind token hFirst hShows
    have hStop := TextByte.splits_of_shows 0 hSolid hFlat hShows
    rw [TextByte.ofText_append, List.append_assoc] at hFirst
    refine ⟨hStop, ⟨?_, ?_⟩, fun hBracket => ?_⟩
    · simpa using hFirst
    · simpa using hStop
    · cases token with
      | text length => cases hBracket
      | bracket leaf id => exact ⟨first, rfl, hShows.2.2⟩

/- The tree of a scan describes the bytes. -/
theorem exists_scanned
    (hSolid : table.IsSolid)
    (hFlat : table.IsFlat)
    (hShort : Text.IsShort text) :
    ∃ root stats,
      parseDocument (TokenStream.ofText table text) [] none =
          .ok (root, stats) ∧
        (account table).Describes root (ofText text) := by
  have hScan := Scan.spells_tokens hSolid hFlat text
  refine Account.exists_scanned
    (TextByte.regular_of_spells hSolid hScan)
    ((carries_ofText text 0).isSmall hShort) ?_
    (fun hMatched _ _ => hMatched)
    (spells_of_scan hSolid hFlat text)
  rw [length_ofText]
  unfold Text.IsShort at hShort
  omega

/- The account tells of every document. -/
theorem covers
    {content : Content}
    (spans : Option SpanTable)
    (hContent : content.Holds text)
    (hSolid : table.IsSolid)
    (hFlat : table.IsFlat)
    (hShort : Text.IsShort text) :
    (account table).Covers table content spans
      (ofText text) where
  isText := ⟨text, rfl, hShort⟩
  lines := by
    have hOf :
        LineSource.IsOf
          ⟨content, spans.getD SpanTable.plain, table⟩
          text :=
      LineSource.isOf_of_isShort hContent.lines hShort
    exact ⟨_, reads_script hOf hSolid hShort, rfl, rfl⟩
  scan _ := by
    rw [hContent.text_eq]
    exact exists_scanned hSolid hFlat hShort

end CharByte

end Bracketry
