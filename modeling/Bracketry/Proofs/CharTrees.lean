import Bracketry.Proofs.ByteTrees
import Bracketry.Proofs.CharReading
import Bracketry.Proofs.Outlines

/-
  Trees of the characters of a document.

  A text that is not classified is read as its characters,
  by lines as well as in one scan.  If it nests brackets no
  deeper than trees show them, its brackets tell the outline
  of every tree that describes it.

  Key definitions include:
    * `TokenTable.IsShallow`, `TokenTable.Admits`
    * `TokenTable.outline`
    * `TextChar.account`

  Main declarations:
    * `TextChar.covers`
    * `TextChar.outline_of_describes`
-/

------------------------------------------------------------
-- Scans for Symbols
------------------------------------------------------------

namespace Bracketry

open Measured

namespace Scan

variable {table : TokenTable}

/- A bracket that a scan finds is one character. -/
theorem exists_of_finds
    {before part behind : List Char}
    {token : Token}
    (h : table.IsSymbolic)
    (hFinds : Finds table before part behind token) :
    ∃ c, part = [c] ∧ table.sign? c = some token := by
  rcases hFinds with ⟨_, _, hToken⟩
  rcases TokenTable.of_tokenOfMatch? hToken with ⟨hEntry, hSize⟩
  rcases TokenTable.exists_of_token? hEntry with
    ⟨entry, hMem, rfl⟩
  rcases h entry hMem with ⟨_, _, _, hLength⟩
  have hOne : entry.token.length = ⟨0, 1⟩ := hLength
  rw [hOne] at hSize
  simp only at hSize
  cases part with
  | nil => cases hSize
  | cons c rest =>
      have hPos := Char.utf8Size_pos c
      rw [Text.byteSize] at hSize
      have hRest : Text.byteSize rest = 0 := by omega
      have hNil : rest = [] := by
        by_contra hSome
        exact absurd (byteSize_pos hSome) (by omega)
      subst hNil
      exact ⟨c, rfl, hToken⟩

/- A match that is no bracket has none in it. -/
theorem sign?_of_firstAt?
    {before : Option Char}
    {found behind : List Char}
    (h : table.IsSymbolic)
    (hFound :
      Pattern.firstAt? (searched table) before
          (found ++ behind) = some (found, behind))
    (hNone :
      found ∈ lineBreaks ∨ table.tokenOfMatch? found = none) :
    ∀ c ∈ found, table.sign? c = none := by
  have hBreaks :
      ∀ part ∈ lineBreaks, ∀ c ∈ part, IsBreak c := by
    simp [lineBreaks, IsBreak]
  rcases Pattern.exists_of_firstAt? hFound with
    ⟨_, literal, hLiteral, hFold⟩
  rw [searched, List.mem_append] at hLiteral
  intro c hChar
  rcases hLiteral with hKey | hBreak
  · rcases hNone with hLine | hToken
    · exact h.sign?_break (hBreaks _ hLine c hChar)
    · rcases List.mem_map.1 hKey with ⟨entry, hEntry, rfl⟩
      rcases h entry hEntry with ⟨symbol, hSymbol, hOwn, _⟩
      rw [hOwn, List.map_singleton] at hFold
      rcases List.map_eq_singleton_iff.1 hFold with
        ⟨d, rfl, hSame⟩
      rw [List.mem_singleton] at hChar
      rw [hChar]
      exact hToken
  · rcases List.mem_map.1
        (hFold ▸ List.mem_map_of_mem hChar) with
      ⟨d, hOther, hSame⟩
    have hBreak := hBreaks _ hBreak d hOther
    rcases hBreak.eq_of_foldChar hSame.symm with rfl
    exact h.sign?_break hBreak

/- What a scan passes has no bracket in it. -/
theorem Passes.sign?_eq_none
    {before part behind : List Char}
    (h : table.IsSymbolic)
    (hPasses : Passes table before part behind) :
    ∀ c ∈ part, table.sign? c = none := by
  induction hPasses with
  | stay => simp
  | step c hPart hNone ih =>
      rw [searched, Pattern.firstAt?, List.findSome?_append,
        ← Pattern.firstAt?, h.firstAt?_eq] at hNone
      have hSign := (Option.or_eq_none_iff.1 hNone).1
      rw [List.forall_mem_append, List.forall_mem_singleton]
      exact ⟨ih, Option.map_eq_none_iff.1 hSign⟩
  | jump found hPart hFound hNone ih =>
      rw [List.forall_mem_append]
      exact ⟨ih, sign?_of_firstAt? h hFound hNone⟩

end Scan

end Bracketry

------------------------------------------------------------
-- The Account of Characters
------------------------------------------------------------

namespace Bracketry

open Measured

/- The text nests brackets no deeper than trees show them. -/
def TokenTable.IsShallow
    (table : TokenTable)
    (text : List Char) :
    Prop :=
  (Matcher.read (table.symbols 0 text)).IsShallow

/- The outline of the brackets of a text. -/
def TokenTable.outline
    (table : TokenTable)
    (text : List Char) :
    List Entry :=
  (Matcher.read (table.symbols 0 text)).entries 0
    (Length.ofText text)

instance
    (table : TokenTable)
    (text : List Char) :
    Decidable (table.IsShallow text) :=
  inferInstanceAs (Decidable (Forest.IsShallow _))

/-
  The text is shallow, and small with so many lines behind
  its end.
-/
structure TokenTable.Admits
    (table : TokenTable)
    (count : Nat)
    (text : List Char) :
    Prop where
  size : Text.byteSize text + count + 1 < 2 ^ 31
  shallow : table.IsShallow text

instance
    (table : TokenTable)
    (count : Nat)
    (text : List Char) :
    Decidable (table.Admits count text) :=
  decidable_of_iff
    (Text.byteSize text + count + 1 < 2 ^ 31 ∧
      table.IsShallow text)
    ⟨fun ⟨hSize, hShallow⟩ => ⟨hSize, hShallow⟩,
      fun ⟨hSize, hShallow⟩ => ⟨hSize, hShallow⟩⟩

namespace TextChar

/-
  Trees that are known by the brackets of their text, where
  some lines behind its end count as well.
-/
def account
    (table : TokenTable)
    (count : Nat) :
    Account TextChar where
  ending := pads count
  Shows := Shows table
  IsText chars :=
    ∃ text, chars = ofText text ∧ table.Admits count text
  kept := Forest.IsKept

variable {table : TokenTable} {text : List Char}
variable {count : Nat}

theorem isSound_account
    (table : TokenTable)
    (count : Nat) :
    (account table count).IsSound := by
  rintro _ ⟨text, rfl, hText⟩
  exact isSmall_ofText hText.size

/- A forest of a shallow text is shallow. -/
theorem isKept_of_spells
    {forest : Forest Token}
    (hShallow : table.IsShallow text)
    (hMatched : forest.IsMatched)
    (hHides :
      forest.Nests (Parser.maxNestingLevel < ·)
        (fun _ => True) 0)
    (hSpells :
      Spells (Shows table) [] forest.leaves (ofText text)
        (pads count)) :
    forest.IsKept :=
  Node.isKept_of_brackets hMatched hHides
    (symbols_of_spells 0 rfl hSpells) hShallow

/- Reading by lines keeps to the account. -/
theorem reads_script
    {source : LineSource}
    (h : source.table.IsSymbolic)
    (hSolid : source.table.IsSolid)
    (hPlain : source.spans = SpanTable.plain)
    (hOf : source.IsOf text)
    (hText : source.table.Admits count text) :
    (account source.table count).Reads
      (script source text count) where
  ending := rfl
  shows := rfl
  sound := isSound_script h hSolid hPlain hOf hText.size
  keeps := by
    rintro _ forest ⟨old, rfl, hOld⟩ _ hSpells
    exact keeps_script hPlain hOf hOld.size hSpells
  known hMatched hNests hSpells :=
    isKept_of_spells hText.shallow hMatched
      (hNests fun _ hKept => hKept.2) hSpells

/- The tree of a scan describes the characters. -/
theorem exists_scanned
    (h : table.IsSymbolic)
    (hSolid : table.IsSolid)
    (hText : table.Admits count text) :
    ∃ root stats,
      parseDocument (TokenStream.ofText table text) [] none =
          .ok (root, stats) ∧
        (account table count).Describes root
          (ofText text) := by
  have hScan := Scan.spells_tokens hSolid h.isFlat text
  have hStart :
      Splits (ofText []) (ofText text ++ pads count) :=
    fun hNone => by cases hNone.1
  have hSpells :
      Spells (Shows table) (ofText []) (Scan.tokens table text)
        (ofText text) (pads count) := by
    refine hScan.translate
      (fun before behind =>
        Splits (ofText before) (ofText behind ++ pads count))
      ofText_append ?_ ?_ hStart
    · intro text
      rw [extent_ofText, extent_chars]
    · intro before first behind token hFirst hShows
      have hBytes :=
        TextByte.splits_of_shows 0 hSolid h.isFlat hShows
      have hStop :
          Splits (ofText (before ++ first))
            (ofText behind ++ pads count) :=
        splits_ofText.2
          (TextByte.cut_of_splits (TextByte.splits_pads.1 hBytes))
      rw [ofText_append, List.append_assoc] at hFirst
      refine ⟨hStop, hFirst, ?_, first, rfl, ?_⟩
      · rwa [ofText_append] at hStop
      · cases token with
        | text length => exact hShows.1.sign?_eq_none h
        | bracket leaf id => exact Scan.exists_of_finds h hShows
  refine Account.exists_scanned
    (TextByte.regular_of_spells hSolid hScan)
    (isSmall_ofText hText.size) ?_
    (isKept_of_spells hText.shallow) hSpells
  have hLength := length_le text
  have hSize := hText.size
  omega

/- The account tells of every shallow document. -/
theorem covers
    {content : Content}
    (hContent : content.Holds text)
    (h : table.IsSymbolic)
    (hSolid : table.IsSolid)
    (hText : table.Admits count text) :
    (account table count).Covers table content none
      (ofText text) where
  isText := ⟨text, rfl, hText⟩
  lines := by
    have hOf :
        LineSource.IsOf ⟨content, SpanTable.plain, table⟩
          text :=
      LineSource.isOf_of_isShort hContent.lines
        (Text.isShort_of_lt hText.size)
    exact ⟨_, reads_script h hSolid rfl hOf hText, rfl, rfl⟩
  scan _ := by
    rw [hContent.text_eq]
    exact exists_scanned h hSolid hText

/-
  The brackets of a text tell the outline of each tree that
  describes it.
-/
theorem outline_of_describes
    {root : Node}
    (hText : table.Admits count text)
    (h :
      (account table count).Describes root (ofText text)) :
    root.outline = .ok (table.outline text) := by
  rcases h with ⟨forest, hRoot, hShape, hKept, hSpells⟩
  have hTotal : forest.total = Length.ofText text := by
    rw [Forest.total, ← hSpells.extent_eq, extent_ofText]
  rw [TokenTable.outline, ← hTotal]
  exact Node.outline_of_brackets hRoot hShape hKept.1 hKept.2
    (hSpells.allFit (isSmall_ofText hText.size))
    (symbols_of_spells 0 rfl hSpells) hText.shallow

end TextChar

end Bracketry
