import Bracketry.Proofs.Accounts
import Bracketry.Proofs.Outlines
import Bracketry.Proofs.LineBytes

/-
  Trees of classified documents.

  A classified document is read as its bytes with their
  lines.  The spans of each line are sorted, so that a reader
  finds the same brackets wherever it begins.  The brackets
  that can be read in the document tell the outline of every
  tree that describes its bytes.

  Key definitions include:
    * `TokenTable.readable`, `TokenTable.AdmitsLines`
    * `TokenTable.outlineOf`
    * `LineByte.script`, `LineByte.account`

  Main declarations:
    * `LineByte.isSound_script`, `LineByte.keeps_script`
    * `LineByte.covers`
    * `LineByte.outline_of_describes`
-/

------------------------------------------------------------
-- The Script of Classified Text
------------------------------------------------------------

namespace Bracketry

open Measured

namespace LineByte

/- A classified document, read as bytes with their lines. -/
def script
    (source : LineSource)
    (text : List Char)
    (count : Nat) :
    Script LineByte where
  source := source
  text := ofText text source.spans
  ending := pads count
  Shows := Shows source.table
  Stands reader before _ :=
    reader.Follows source ∧ reader.Knows source ∧
      reader.place = extent before

variable {source : LineSource} {text : List Char}
variable {count : Nat}

/- Each document with sorted spans is read as its bytes. -/
theorem isSound_script
    (hOf : source.IsOf text)
    (hSolid : source.table.IsSolid)
    (hSorted : source.spans.IsSorted)
    (hSize : Text.byteSize text + count + 1 < 2 ^ 31) :
    (script source text count).IsSound := by
  refine TextByte.isSound_of_carries
    (carries_ofText text source.spans count) hOf hSolid hSize
    ⟨LineReader.follows_start source,
      LineReader.knows_ofPosition hSorted 0, rfl⟩
    (fun _ _ _ hStands => ⟨hStands.1, hStands.2.2⟩) ?_
  rintro reader after token before first more hText
    ⟨hReader, hKnows, hPlace⟩ hRead hPasses hSome hExtent hNext
    hShows
  rcases exists_of_stamp hText with ⟨a, b, _, rfl, hAhead⟩
  rcases exists_of_stamp hAhead.symm with
    ⟨bytes, others, rfl, rfl, rfl⟩
  rw [extent_stamp] at hPlace hExtent
  have hMeant :
      after.Knows source ∧
        IsMeant source.table token
          (stamp (ClassifiedLine.ofText text source.spans)
            (0 + extent a) bytes) := by
    rcases hKnows.read_spec hOf.hasRoom hSolid hReader with
      ⟨_, hEnd⟩ |
        ⟨found, next, hFound, hFollows, hKnown, hMarks⟩
    · cases hRead.symm.trans hEnd
    · cases hRead.symm.trans hFound
      refine ⟨hKnown, (isMeant_stamp hOf ?_).2 ?_⟩
      · rintro rfl
        exact hSome rfl
      · rw [hFollows.place, hPlace] at hMarks
        rwa [zero_add, hExtent]
  exact ⟨⟨hShows, hMeant.2⟩, hPasses.follows, hMeant.1, hNext⟩

/- An old document keeps its places in a new one. -/
theorem keeps_script
    {old : List Char}
    {spans : SpanTable}
    {tokens : List Token}
    (hOf : source.IsOf text)
    (hSorted : source.spans.IsSorted)
    (hSize : Text.byteSize old + count + 1 < 2 ^ 31)
    (hSpells :
      Spells (Shows source.table) [] tokens
        (ofText old spans) (pads count)) :
    (script source text count).Keeps
      ⟨ofText old spans, tokens, Forest.IsKept⟩ :=
  TextByte.keeps_of_carries
    (carries_ofText text source.spans count)
    (carries_ofText old spans count) hOf hSize
    Forest.isInherited_isKept (fun _ h => h.1)
    (isLocal_shows source.table)
    (fun _ _ _ _ hShows => hShows.1)
    (fun _ _ hReader =>
      ⟨hReader, LineReader.knows_ofPosition hSorted _, rfl⟩)
    hSpells

end LineByte

end Bracketry

------------------------------------------------------------
-- The Account of Classified Text
------------------------------------------------------------

namespace Bracketry

open Measured

/- A text with its classification, to be read by lines. -/
def LineSource.ofText
    (table : TokenTable)
    (text : List Char)
    (spans : SpanTable) :
    LineSource :=
  ⟨.ofDocument (.ofText text), spans, table⟩

namespace TokenTable

/- The brackets that can be read in a classified text. -/
def readable
    (table : TokenTable)
    (text : List Char)
    (spans : SpanTable) :
    List Placed :=
  (LineSource.ofText table text spans).brackets

/- The outline of those brackets. -/
def outlineOf
    (table : TokenTable)
    (text : List Char)
    (spans : SpanTable) :
    List Entry :=
  (Matcher.read (table.readable text spans)).entries 0
    (Length.ofText text)

/-
  The spans of each line are sorted, the brackets are not
  nested too deeply, and the text is small with so many
  lines behind its end.
-/
structure AdmitsLines
    (table : TokenTable)
    (count : Nat)
    (text : List Char)
    (spans : SpanTable) :
    Prop where
  size : Text.byteSize text + count + 1 < 2 ^ 31
  sorted : spans.IsSorted
  shallow :
    (Matcher.read (table.readable text spans)).IsShallow

instance
    (table : TokenTable)
    (count : Nat)
    (text : List Char)
    (spans : SpanTable) :
    Decidable (table.AdmitsLines count text spans) :=
  decidable_of_iff
    (Text.byteSize text + count + 1 < 2 ^ 31 ∧
      spans.IsSorted ∧
      (Matcher.read (table.readable text spans)).IsShallow)
    ⟨fun ⟨hSize, hSorted, hShallow⟩ =>
        ⟨hSize, hSorted, hShallow⟩,
      fun ⟨hSize, hSorted, hShallow⟩ =>
        ⟨hSize, hSorted, hShallow⟩⟩

theorem AdmitsLines.isShort
    {table : TokenTable}
    {count : Nat}
    {text : List Char}
    {spans : SpanTable}
    (h : table.AdmitsLines count text spans) :
    Text.IsShort text :=
  Text.isShort_of_lt h.size

end TokenTable

namespace LineByte

/-
  Trees that are known by the brackets of their classified
  text, where some lines behind its end count as well.
-/
def account
    (table : TokenTable)
    (count : Nat) :
    Account LineByte where
  ending := pads count
  Shows := Shows table
  IsText lineBytes :=
    ∃ text spans,
      lineBytes = ofText text spans ∧
        table.AdmitsLines count text spans
  kept := Forest.IsKept

variable {table : TokenTable} {text : List Char}
variable {spans : SpanTable} {count : Nat}

theorem isSound_account
    (table : TokenTable)
    (count : Nat) :
    (account table count).IsSound := by
  intro lineBytes hLineBytes
  rcases hLineBytes with ⟨text, spans, rfl, hText⟩
  exact (carries_ofText text spans count).isSmall hText.size

/- Tokens that spell a text have its brackets. -/
theorem readable_of_spells
    {tokens : List Token}
    (hShort : Text.IsShort text)
    (h :
      Spells (Shows table) [] tokens (ofText text spans)
        (pads count)) :
    Placed.brackets (Placed.row 0 tokens) =
      table.readable text spans := by
  have hOf : (LineSource.ofText table text spans).IsOf text :=
    LineSource.isOf_of_isShort rfl hShort
  apply brackets_of_spells hOf _ h
  rw [zero_add, TextByte.extent_ofText, LineSource.length_eq hOf]

/- A forest of a shallow text is shallow. -/
theorem isKept_of_spells
    {forest : Forest Token}
    (hText : table.AdmitsLines count text spans)
    (hMatched : forest.IsMatched)
    (hHides :
      forest.Nests (Parser.maxNestingLevel < ·)
        (fun _ => True) 0)
    (hSpells :
      Spells (Shows table) [] forest.leaves
        (ofText text spans) (pads count)) :
    forest.IsKept :=
  Node.isKept_of_brackets hMatched hHides
    (readable_of_spells hText.isShort hSpells) hText.shallow

/- Reading by lines keeps to the account. -/
theorem reads_script
    {source : LineSource}
    (hOf : source.IsOf text)
    (hSolid : source.table.IsSolid)
    (hText :
      source.table.AdmitsLines count text source.spans) :
    (account source.table count).Reads
      (script source text count) := by
  constructor
  case ending => rfl
  case shows => rfl
  case sound =>
    exact isSound_script hOf hSolid hText.sorted hText.size
  case keeps =>
    intro base forest hBase _ hSpells
    rcases hBase with ⟨old, spans, rfl, hOld⟩
    exact keeps_script hOf hText.sorted hOld.size hSpells
  case known =>
    intro forest hMatched hNests hSpells
    exact isKept_of_spells hText hMatched
      (hNests fun _ hKept => hKept.2) hSpells

/- The account tells of every shallow document. -/
theorem covers
    {content : Content}
    (hContent : content.Holds text)
    (hSolid : table.IsSolid)
    (hText : table.AdmitsLines count text spans) :
    (account table count).Covers table content (some spans)
      (ofText text spans) := by
  have hOf : LineSource.IsOf ⟨content, spans, table⟩ text :=
    LineSource.isOf_of_isShort hContent.lines hText.isShort
  refine ⟨⟨text, spans, rfl, hText⟩,
    ⟨_, reads_script hOf hSolid hText, rfl, rfl⟩, ?_⟩
  intro hNone
  cases hNone

/-
  The brackets of a classified text tell the outline of each
  tree that describes it.
-/
theorem outline_of_describes
    {root : Node}
    (hText : table.AdmitsLines count text spans)
    (h :
      (account table count).Describes root
        (ofText text spans)) :
    root.outline = .ok (table.outlineOf text spans) := by
  rcases h with ⟨forest, hRoot, hShape, hKept, hSpells⟩
  have hTotal : forest.total = Length.ofText text := by
    rw [Forest.total, ← hSpells.extent_eq, ofText,
      extent_stamp, TextByte.extent_ofText]
  rw [TokenTable.outlineOf, ← hTotal]
  exact Node.outline_of_brackets hRoot hShape hKept.1 hKept.2
    (hSpells.allFit
      ((carries_ofText text spans count).isSmall hText.size))
    (readable_of_spells hText.isShort hSpells) hText.shallow

end LineByte

end Bracketry
