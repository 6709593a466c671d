import Bracketry.Proofs.Entries
import Bracketry.Proofs.Grounded
import Bracketry.Proofs.Sightings

/-
  Brackets of a tree over the text.

  The tokens that a tree shows stand for stretches of its
  text, so each bracket of its pairs has a stretch of its
  own, which the range of the bracket tells.  Among bytes
  that is the literal of the bracket, up to case.

  Key definitions include:
    * `Stands`
    * `PairInfo.IsShown`
    * `Text.HasLiteral`

  Main declarations:
    * `Node.isShown_of_spells`
    * `Account.Describes.isShown`
    * `CharByte.hasLiteral_of_stands`
-/

------------------------------------------------------------
-- Brackets That Are Shown
------------------------------------------------------------

namespace Bracketry

open Measured

variable {α : Type} [Measured α]

/- A bracket of a kind stands for the pieces in a range. -/
def Stands
    (Shows : List α → List α → List α → Token → Prop)
    (pieces : List α)
    (range : Range)
    (kind : BracketKind) :
    Prop :=
  ∃ before first behind leaf id,
    pieces = before ++ (first ++ behind) ∧
      extent before = range.start ∧
      extent (before ++ first) = range.stop ∧
      Shows before first behind (.bracket leaf id) ∧
      leaf.kind = kind

/- The brackets of a pair stand where they are told to be. -/
structure PairInfo.IsShown
    (Shows : List α → List α → List α → Token → Prop)
    (pieces : List α)
    (info : PairInfo) :
    Prop where
  opening : Stands Shows pieces info.openingRange info.opening
  closing :
    ∀ range, info.closingRange = some range →
      ∃ kind,
        info.closing = some kind ∧
          Stands Shows pieces range kind

namespace Node

variable {Shows : List α → List α → List α → Token → Prop}
variable {before part behind : List α}

/- A token with the sign of a bracket is that bracket. -/
theorem exists_of_sign_eq
    {token : Token}
    {leaf : Bracket}
    (h : token.sign = Sign.bracket leaf) :
    ∃ id, token = .bracket leaf id := by
  cases token with
  | text length => cases congrArg Sign.kind h
  | bracket other id =>
      rcases leaf with ⟨length, kind, ids⟩
      rcases other with ⟨otherLength, otherKind, otherIds⟩
      injection h with hLength hIds hKind
      rcases Option.some.inj hKind with rfl
      subst hLength hIds
      exact ⟨id, rfl⟩

/- What a part shows is as long as the part. -/
theorem extent_of_part
    {child : Option Node}
    {forest : Forest Token}
    (hProper : ∀ node, child = some node → node.IsProper)
    (hShape : forest.shape = partShape child)
    (hSpells : Spells Shows before forest.leaves part behind) :
    extent part = partLength child := by
  rw [hSpells.extent_eq]
  cases child with
  | none =>
      rcases Forest.shape_eq_nil.1 hShape with rfl
      rfl
  | some node =>
      exact (length_eq_total (hProper node rfl)
        hShape.symm).symm

/-
  The two brackets of a pair stand at the ends of what the
  pair shows.
-/
theorem isShown_pair
    {opener : Bracket}
    {closer : Option Bracket}
    {id : Option Nat}
    {last : Option Token}
    {first inside rest : List α}
    {length middle : Length}
    (around : List Enclosure)
    (hFirst : extent first = opener.length)
    (hInside : extent inside = middle)
    (hLength :
      length =
        opener.length +
          (middle + partLength (closer.map .bracket)))
    (hClosing :
      last.map Token.sign = (closer.map .bracket).map sign)
    (hShows :
      Shows before first (inside ++ (rest ++ behind))
        (.bracket opener id))
    (hRest :
      Spells Shows (before ++ first ++ inside) last.toList rest
        behind) :
    ((Enclosure.mk opener closer).info (extent before) length
      middle around).IsShown Shows
        (before ++ (first ++ (inside ++ (rest ++ behind)))) := by
  have hMiddle :
      extent (before ++ first) =
        extent before + opener.length := by
    rw [extent_append, hFirst]
  refine ⟨⟨before, first, _, opener, id, rfl, rfl, hMiddle,
    hShows, rfl⟩, ?_⟩
  rintro range hRange
  rcases Option.map_eq_some_iff.1 hRange with ⟨leaf, hLeaf, rfl⟩
  subst hLeaf
  rcases Option.map_eq_some_iff.1 hClosing with
    ⟨token, rfl, hSign⟩
  rcases exists_of_sign_eq hSign with ⟨other, rfl⟩
  rcases hRest with ⟨found, left, rfl, _, hFound, hEnds, hNil⟩
  subst hNil
  refine ⟨leaf.kind, rfl, before ++ first ++ inside, found,
    behind, leaf, other, ?_, ?_, ?_, ?_, rfl⟩
  · simp
  · rw [extent_append, hMiddle, hInside]
  · rw [extent_append, extent_append, hMiddle, hInside, hFound,
      hLength, add_assoc, add_assoc]
    rfl
  · simpa using hEnds

/- The pieces around a stretch belong to the whole. -/
theorem isShown_of_spells
    {node : Node}
    {forest : Forest Token}
    (around : List Enclosure)
    (hProper : node.IsProper)
    (hShape : forest.shape = node.shape)
    (hSpells :
      Spells Shows before forest.leaves part behind) :
    ∀ info ∈ node.pairRecords (extent before) around,
      info.IsShown Shows (before ++ (part ++ behind)) := by
  induction node using Node.induction
    generalizing forest before part behind around with
  | text key length => exact List.forall_mem_nil _
  | bracket leaf => exact List.forall_mem_nil _
  | invalid key ids length => exact List.forall_mem_nil _
  | pair key length missing opening child closing ih =>
      rcases isProper_pair.1 hProper with
        ⟨⟨opener, rfl⟩, hClosing, hLength, _, hChild⟩
      rcases exists_closer hClosing with ⟨closer, rfl⟩
      rw [shape_pair] at hShape
      rcases Forest.exists_of_shape_eq_pair hShape with
        ⟨token, middle, last, rfl, hSign, hMiddle, hLast⟩
      rcases exists_of_sign_eq hSign with ⟨id, rfl⟩
      rcases hSpells with
        ⟨first, more, rfl, _, hFirst, hShows, hMore⟩
      rw [Forest.leaves, List.append_nil] at hMore
      rcases spells_append.1 hMore with
        ⟨inside, rest, rfl, hInside, hRest⟩
      have hSize := extent_of_part hChild hMiddle hInside
      have hStart :
          extent (before ++ first) =
            extent before + opener.length := by
        rw [extent_append, hFirst]
        rfl
      have hWhole :
          before ++ (first ++ (inside ++ rest) ++ behind) =
            before ++ (first ++ (inside ++ (rest ++ behind))) := by
        simp
      rw [List.append_assoc] at hShows
      rw [pairRecords_pair, List.forall_mem_cons, hWhole]
      refine ⟨isShown_pair around hFirst hSize hLength hLast
        hShows hRest, ?_⟩
      cases child with
      | none => exact List.forall_mem_nil _
      | some part =>
          have hPart :=
            ih part rfl (⟨opener, closer⟩ :: around)
              (hChild part rfl) hMiddle hInside
          rw [hStart] at hPart
          simpa [partRecords] using hPart
  | list key height length missing items ih =>
      have hItems := isProper_item hProper
      rw [shape] at hShape
      rw [pairRecords]
      clear hProper
      induction items generalizing forest before part with
      | nil => exact List.forall_mem_nil _
      | cons item rest ihRest =>
          rw [List.forall_mem_cons] at ih hItems
          rw [shapeOfAll] at hShape
          rcases Forest.exists_of_shape_append hShape with
            ⟨first, others, rfl, hFirst, hOthers⟩
          rw [Forest.leaves_append] at hSpells
          rcases spells_append.1 hSpells with
            ⟨a, b, rfl, hA, hB⟩
          have hStop :
              extent (before ++ a) =
                extent before + item.length := by
            rw [extent_append, hA.extent_eq,
              length_eq_total hItems.1.2 hFirst.symm]
            rfl
          have hHere := ih.1 around hItems.1.2 hFirst hA
          have hThere := ihRest ih.2 hOthers hB hItems.2
          rw [hStop] at hThere
          rw [pairRecordsOfAll, List.forall_mem_append]
          constructor
          · simpa using hHere
          · simpa using hThere

end Node

/- The brackets of a tree stand in the text it describes. -/
theorem Account.Describes.isShown
    {account : Account α}
    {root : Node}
    {text : List α}
    (h : account.Describes root text) :
    ∀ info ∈ root.pairRecords 0 [],
      info.IsShown account.Shows (text ++ account.ending) := by
  rcases h with ⟨forest, hRoot, hShape, _, hSpells⟩
  rcases hRoot with hProper | ⟨key, rfl⟩
  · exact Node.isShown_of_spells [] hProper hShape hSpells
  · exact List.forall_mem_nil _

end Bracketry

------------------------------------------------------------
-- Literals in a Text
------------------------------------------------------------

namespace Bracketry

open Measured

namespace Text

/- Lower case keeps a character that is in lower case. -/
theorem mem_lowercase
    {text : List Char}
    {c : Char}
    (hLower : IsLower c)
    (hMem : c ∈ text) :
    c ∈ lowercase text := by
  have hFrom :
      ∀ passed, c ∈ lowercaseFrom passed text := by
    induction text with
    | nil => cases hMem
    | cons d rest ih =>
        intro passed
        rw [lowercaseFrom, List.mem_append]
        rcases List.mem_cons.1 hMem with rfl | hRest
        · rcases hLower with ⟨hSame, hSigma, hDotted⟩
          rw [if_neg hSigma, if_neg hDotted, hSame]
          exact .inl (List.mem_singleton_self c)
        · exact .inr (ih hRest (d :: passed))
  exact hFrom []

/-
  On a range of places, the text is a literal up to case.  It
  is not empty, and no line ends in it.
-/
def HasLiteral
    (text : List Char)
    (range : Range)
    (literal : List Char) :
    Prop :=
  ∃ before found behind,
    text = before ++ (found ++ behind) ∧
      Length.ofText before = range.start ∧
      Length.ofText (before ++ found) = range.stop ∧
      found ≠ [] ∧ (∀ c ∈ found, ¬IsBreak c) ∧
      lowercase found = lowercase literal

end Text

namespace TokenTable

/- A break is in lower case. -/
theorem isLower_of_isBreak
    {c : Char}
    (h : IsBreak c) :
    IsLower c := by
  rcases h with rfl | rfl <;> decide +kernel

/- No line ends in what matches a flat literal. -/
theorem IsFlat.not_isBreak_of_match
    {table : TokenTable}
    {found : List Char}
    {token : Token}
    (hFlat : table.IsFlat)
    (h : table.tokenOfMatch? found = some token) :
    ∀ c ∈ found, ¬IsBreak c := by
  have hKey :
      ∃ entry ∈ table.entries,
        entry.key = found ∨
          entry.key = Text.lowercase found := by
    have hToken := (of_tokenOfMatch? h).1
    unfold token? entry? at hToken
    split at hToken
    · rename_i entry hEntry
      have hSame := List.find?_some hEntry
      exact ⟨entry, List.mem_of_find?_eq_some hEntry,
        .inl (beq_iff_eq.1 hSame)⟩
    · rcases Option.map_eq_some_iff.1 hToken with
        ⟨entry, hEntry, _⟩
      have hSame := List.find?_some hEntry
      exact ⟨entry, List.mem_of_find?_eq_some hEntry,
        .inr (beq_iff_eq.1 hSame)⟩
  rcases hKey with ⟨entry, hEntry, hKey⟩
  intro c hMem hBreak
  refine hFlat entry hEntry c ?_ hBreak
  rcases hKey with hSame | hSame
  · rwa [hSame]
  · rw [hSame]
    exact Text.mem_lowercase (isLower_of_isBreak hBreak) hMem

end TokenTable

variable {declaration : BracketDeclaration}
variable {text : List Char} {range : Range}

/- Among bytes, a bracket stands for its literal. -/
theorem CharByte.hasLiteral_of_stands
    {kind : BracketKind}
    {count : Nat}
    (hFlat : declaration.IsFlat)
    (h :
      Stands
        (CharByte.Shows (TokenTable.ofDeclaration declaration))
        (CharByte.ofText text ++ CharByte.pads count) range
        kind) :
    Text.HasLiteral text range kind.literal := by
  rcases h with
    ⟨before, first, behind, leaf, id, hPieces, hStart, hStop,
      ⟨_, hMatch⟩, rfl⟩
  rcases hMatch rfl with ⟨found, rfl, hToken⟩
  have hLiteral :=
    (TokenTable.isSolid_ofDeclaration declaration).isLiteral
      hToken
  rcases TokenTable.of_tokenOfMatch? hToken with ⟨_, hSize⟩
  have hSome : found ≠ [] := by
    rintro rfl
    have hColumns := hLiteral.columns
    rw [hSize] at hColumns
    exact Nat.lt_irrefl 0 hColumns
  rcases CharByte.exists_of_bytes hSome hPieces with
    ⟨passed, left, rfl, rfl, _⟩
  rw [CharByte.extent_ofText] at hStart
  rw [← CharByte.ofText_append, CharByte.extent_ofText] at hStop
  refine ⟨passed, found, left, rfl, hStart, hStop, hSome,
    (TokenTable.isFlat_ofDeclaration hFlat).not_isBreak_of_match
      hToken, ?_⟩
  rcases TokenTable.literal_of_tokenOfMatch? hToken with
    hSame | hSame
  · rw [hSame, Text.lowercase_lowercase]
  · exact hSame

end Bracketry
