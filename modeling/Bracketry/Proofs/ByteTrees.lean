import Bracketry.Proofs.Accounts
import Bracketry.Proofs.ByteReading
import Bracketry.Proofs.Scans

/-
  Trees of the bytes of a document.

  Whatever the classification, the tree of a document
  describes its bytes.  What a scan of the text gives are
  stretches of bytes as well: a bracket has no line break in
  it, and so does not split one.

  Key definitions include:
    * `TextByte.account`

  Main declarations:
    * `TextByte.spells_of_scan`
    * `TextByte.covers`
-/

------------------------------------------------------------
-- Scanned Bytes
------------------------------------------------------------

namespace Bracketry

open Measured

namespace TextByte

/- The last byte of a text is that of its last character. -/
theorem getLast?_ofText_ne
    {text : List Char}
    (h : ∀ c, text.getLast? = some c → ¬IsBreak c) :
    (ofText text).getLast? ≠ some .carriage := by
  rcases List.eq_nil_or_concat' text with
    rfl | ⟨before, c, rfl⟩
  · simp
  · have hBreak := h c (by simp)
    intro hLast
    rw [ofText_append, ofText_cons, ofText_nil,
      List.append_nil] at hLast
    have hSome : ofChar c ≠ [] := by
      intro hNil
      have hExtent := extent_ofChar c
      rw [hNil] at hExtent
      exact Length.ofChar_ne_zero c hExtent.symm
    rw [List.getLast?_append_of_ne_nil _ hSome] at hLast
    exact hBreak (.inr (eq_of_carriage_mem
      (List.mem_of_getLast? hLast)))

variable {table : TokenTable}

/- What a scan finds begins and ends with no line break. -/
theorem flat_of_finds
    {before part behind : List Char}
    {token : Token}
    (hSolid : table.IsSolid)
    (hFlat : table.IsFlat)
    (h : Scan.Finds table before part behind token) :
    part ≠ [] ∧ ∀ c ∈ part, ¬IsBreak c := by
  rcases h with ⟨hFirst, hBreak, _⟩
  rcases Scan.of_firstAt? hSolid hFlat hFirst with
    ⟨_, hSome, hKind⟩
  exact ⟨hSome, hKind.resolve_left hBreak⟩

/- Where a token of a scan ends, the bytes are split. -/
theorem splits_of_shows
    (count : Nat)
    {before part behind : List Char}
    {token : Token}
    (hSolid : table.IsSolid)
    (hFlat : table.IsFlat)
    (h : Scan.Shows table before part behind token) :
    Splits (ofText (before ++ part))
      (ofText behind ++ pads count) := by
  rw [splits_pads]
  cases token with
  | text length =>
      rcases h.2 with rfl | ⟨found, rest, other, rfl, hFinds⟩
      · rintro ⟨_, hNone⟩
        cases hNone
      · rcases flat_of_finds hSolid hFlat hFinds with
          ⟨hSome, hAll⟩
        rintro ⟨_, hHead⟩
        refine head?_ofText_ne ?_ hHead
        rintro others hSame
        rcases List.exists_cons_of_ne_nil hSome with
          ⟨c, more, rfl⟩
        rw [List.cons_append, List.cons.injEq] at hSame
        exact hAll c List.mem_cons_self (.inl hSame.1)
  | bracket leaf id =>
      rcases flat_of_finds hSolid hFlat h with ⟨hSome, hAll⟩
      rintro ⟨hLast, _⟩
      refine getLast?_ofText_ne ?_ hLast
      intro c hChar
      rw [List.getLast?_append_of_ne_nil _ hSome] at hChar
      exact hAll c (List.mem_of_getLast? hChar)

/- The tokens of a scan spell the bytes of the text. -/
theorem spells_of_scan
    {before part : List Char}
    {tokens : List Token}
    {count : Nat}
    (hSolid : table.IsSolid)
    (hFlat : table.IsFlat)
    (hStart :
      Splits (ofText before) (ofText part ++ pads count))
    (h : Spells (Scan.Shows table) before tokens part []) :
    Spells Shows (ofText before) tokens (ofText part)
      (pads count) := by
  refine h.translate
    (fun before behind =>
      Splits (ofText before) (ofText behind ++ pads count))
    ofText_append ?_ ?_ hStart
  · intro text
    rw [extent_ofText, extent_chars]
  · intro before first behind token hFirst hShows
    have hStop := splits_of_shows count hSolid hFlat hShows
    rw [ofText_append, List.append_assoc] at hFirst
    rw [ofText_append] at hStop
    exact ⟨by rwa [ofText_append], hFirst, hStop⟩

/- What tokens of a scan are is regular. -/
theorem regular_of_spells
    {before part behind : List Char}
    {tokens : List Token}
    (hSolid : table.IsSolid)
    (h :
      Spells (Scan.Shows table) before tokens part behind) :
    ∀ token ∈ tokens, token.IsRegular := by
  induction tokens generalizing before part with
  | nil => simp
  | cons token rest ih =>
      rcases h with ⟨first, more, rfl, _, _, hShows, hMore⟩
      rw [List.forall_mem_cons]
      refine ⟨?_, ih hMore⟩
      cases token with
      | text length => trivial
      | bracket leaf id =>
          exact (hSolid.isLiteral hShows.2.2).regular

end TextByte

end Bracketry

------------------------------------------------------------
-- The Account of Bytes
------------------------------------------------------------

namespace Bracketry

open Measured

namespace TextByte

/- Trees that are known by the bytes of their text. -/
def account : Account TextByte where
  ending := pads 0
  Shows := Shows
  IsText bytes :=
    ∃ text, bytes = ofText text ∧ Text.IsShort text
  kept := Forest.IsMatched

theorem isSmall_pads
    {text : List Char}
    (h : Text.IsShort text) :
    IsSmall (ofText text ++ pads 0) := by
  apply isSmall_of_length
  rw [List.length_append, length_ofText, pads,
    List.length_replicate]
  exact h

theorem isSound_account :
    account.IsSound := by
  rintro _ ⟨text, rfl, hShort⟩
  exact isSmall_pads hShort

variable {table : TokenTable} {text : List Char}

/- Reading by lines keeps to the account. -/
theorem reads_script
    {source : LineSource}
    (hOf : source.IsOf text)
    (hSolid : source.table.IsSolid)
    (hShort : Text.IsShort text) :
    account.Reads (script source text 0) where
  ending := rfl
  shows := rfl
  sound := isSound_script hOf hSolid hShort
  keeps := by
    rintro _ forest ⟨old, rfl, hOld⟩ _ hSpells
    exact keeps_script hOf hOld hSpells
  known hMatched _ _ := hMatched

/- The tree of a scan describes the bytes. -/
theorem exists_scanned
    (hSolid : table.IsSolid)
    (hFlat : table.IsFlat)
    (hShort : Text.IsShort text) :
    ∃ root stats,
      parseDocument (TokenStream.ofText table text) [] none =
          .ok (root, stats) ∧
        account.Describes root (ofText text) := by
  have hScan := Scan.spells_tokens hSolid hFlat text
  have hStart :
      Splits (ofText []) (ofText text ++ pads 0) :=
    splits_nil _
  have hSpells := spells_of_scan hSolid hFlat hStart hScan
  refine Account.exists_scanned
    (regular_of_spells hSolid hScan) (isSmall_pads hShort)
    ?_ (fun hMatched _ _ => hMatched) hSpells
  rw [length_ofText]
  unfold Text.IsShort at hShort
  omega

/- The account tells of every document. -/
theorem covers
    {content : Content}
    {spans : Option SpanTable}
    (hContent : content.Holds text)
    (hSolid : table.IsSolid)
    (hFlat : table.IsFlat)
    (hShort : Text.IsShort text) :
    account.Covers table content spans (ofText text) where
  isText := ⟨text, rfl, hShort⟩
  lines := by
    have hOf :
        LineSource.IsOf
          ⟨content, spans.getD SpanTable.plain, table⟩
          text :=
      LineSource.isOf_of_isShort hContent.lines hShort
    exact ⟨_, reads_script hOf hSolid hShort, rfl, rfl⟩
  scan _ := by
    rw [hContent.text_eq]
    exact exists_scanned hSolid hFlat hShort

end TextByte

end Bracketry
