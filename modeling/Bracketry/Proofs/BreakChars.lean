import Bracketry.Proofs.CharReading
import Bracketry.Proofs.ByteTrees
import Bracketry.Proofs.Documents

/-
  Characters that know their line breaks.

  Each character of a text is taken with whether it begins a
  line break of two characters.  An edit may make a line
  break of a carriage return that is kept, but it leaves none
  alone.  So a stretch that is kept up to one character
  behind its end is the same in both texts.

  Key definitions include:
    * `BreakChar`, `BreakChar.ofText`
    * `BreakChar.IsWhole`
    * `BreakChar.Stays`

  Main declarations:
    * `BreakChar.exists_cut`
    * `BreakChar.eq_of_stays`
    * `BreakChar.turns_replace`
-/

------------------------------------------------------------
-- Characters and Line Breaks
------------------------------------------------------------

namespace Bracketry

open Measured

/-
  A character, a carriage return with a line feed behind it,
  or a line behind the end of a text.
-/
inductive BreakChar where
  | char (c : Char)
  | carriage
  | beyond
deriving DecidableEq, Repr, Inhabited

namespace BreakChar

/- The character alone. -/
def textChar : BreakChar → TextChar
  | .char c => .char c
  | .carriage => .char '\r'
  | .beyond => .beyond

instance : Measured BreakChar where
  size char := size char.textChar
  size_ne_zero char := size_ne_zero char.textChar

/- A character with another one behind it. -/
def mark
    (c : Char)
    (next : Option Char) :
    BreakChar :=
  if c = '\r' ∧ next = some '\n' then .carriage else .char c

/- The characters of a text, with their line breaks. -/
def ofText : List Char → List BreakChar
  | [] => []
  | c :: rest => mark c rest.head? :: ofText rest

/- A line behind the end of a text. -/
def pads : List BreakChar :=
  [.beyond]

theorem textChar_mark
    (c : Char)
    (next : Option Char) :
    (mark c next).textChar = .char c := by
  unfold mark
  split_ifs with hReturn
  · rw [hReturn.1]
    rfl
  · rfl

theorem map_textChar_ofText
    (text : List Char) :
    (ofText text).map textChar = TextChar.ofText text := by
  induction text with
  | nil => rfl
  | cons c rest ih =>
      rw [ofText, List.map_cons, textChar_mark, ih]
      rfl

/- With their line breaks, characters are as long. -/
theorem extent_map_textChar
    (chars : List BreakChar) :
    extent (chars.map textChar) = extent chars := by
  induction chars with
  | nil => rfl
  | cons char rest ih =>
      rw [List.map_cons, extent_cons, ih, extent_cons]
      rfl

theorem extent_ofText
    (text : List Char) :
    extent (ofText text) = Length.ofText text := by
  rw [← extent_map_textChar, map_textChar_ofText,
    TextChar.extent_ofText]

theorem length_ofText
    (text : List Char) :
    (ofText text).length = text.length := by
  induction text with
  | nil => rfl
  | cons c rest ih =>
      rw [ofText, List.length_cons, ih, List.length_cons]

theorem isSmall_ofText
    {text : List Char}
    (h : Text.IsShort text) :
    IsSmall (ofText text ++ pads) := by
  have hTextChars :
      IsSmall (TextChar.ofText text ++ TextChar.pads 0) :=
    TextChar.isSmall_ofText h
  intro before behind hSplit
  rw [← extent_map_textChar]
  refine hTextChars _ (behind.map textChar) ?_
  rw [← List.map_append, ← hSplit, List.map_append,
    map_textChar_ofText]
  rfl

theorem beyond_not_mem
    (text : List Char) :
    BreakChar.beyond ∉ ofText text := by
  induction text with
  | nil => exact List.not_mem_nil
  | cons c rest ih =>
      rw [ofText, List.mem_cons, not_or]
      refine ⟨?_, ih⟩
      unfold mark
      split_ifs <;> simp

end BreakChar

end Bracketry

------------------------------------------------------------
-- Cuts of a Text
------------------------------------------------------------

namespace Bracketry

open Measured

namespace BreakChar

/- The characters do not end inside a line break. -/
def IsWhole
    (chars : List BreakChar) :
    Prop :=
  chars.getLast? ≠ some .carriage

theorem isWhole_nil : IsWhole [] :=
  nofun

/- Only the last character of a stretch counts. -/
theorem isWhole_append_iff
    {a b : List BreakChar}
    (hSome : b ≠ []) :
    IsWhole (a ++ b) ↔ IsWhole b := by
  rw [IsWhole, List.getLast?_append_of_ne_nil _ hSome, IsWhole]

theorem isWhole_append
    {a b : List BreakChar}
    (hLeft : IsWhole a)
    (hRight : IsWhole b) :
    IsWhole (a ++ b) := by
  by_cases hSome : b = []
  · rwa [hSome, List.append_nil]
  · exact (isWhole_append_iff hSome).2 hRight

theorem ofText_eq_nil
    {text : List Char} :
    ofText text = [] ↔ text = [] := by
  rw [← List.length_eq_zero_iff, length_ofText,
    List.length_eq_zero_iff]

/- No line break goes on behind the end of a text. -/
theorem isWhole_ofText
    (text : List Char) :
    IsWhole (ofText text) := by
  induction text with
  | nil => exact isWhole_nil
  | cons c rest ih =>
      by_cases hSome : rest = []
      · subst hSome
        simp [IsWhole, ofText, mark]
      · have hRest := ofText_eq_nil.not.2 hSome
        exact (isWhole_append_iff (a := [_]) hRest).2 ih

/- Where no line break is cut, texts are put together. -/
theorem ofText_append
    {a b : List Char}
    (hCut :
      ¬(a.getLast? = some '\r' ∧ b.head? = some '\n')) :
    ofText (a ++ b) = ofText a ++ ofText b := by
  induction a with
  | nil => rfl
  | cons c rest ih =>
      rw [List.cons_append, ofText, ofText, List.cons_append]
      cases rest with
      | nil =>
          rw [List.nil_append, mark, mark, if_neg, if_neg]
          · rfl
          · simp
          · rintro ⟨rfl, hHead⟩
            exact hCut ⟨rfl, hHead⟩
      | cons d others =>
          rw [ih hCut]
          rfl

/- A cut between line breaks is a cut of the text. -/
theorem exists_cut
    {text : List Char}
    {a b : List BreakChar}
    (hText : ofText text = a ++ b)
    (hWhole : IsWhole a) :
    ∃ before behind,
      text = before ++ behind ∧ ofText before = a ∧
        ofText behind = b ∧
        ¬(before.getLast? = some '\r' ∧
          behind.head? = some '\n') := by
  induction a generalizing text with
  | nil => exact ⟨[], text, rfl, rfl, hText, by simp⟩
  | cons char rest ih =>
      cases text with
      | nil => cases hText
      | cons c others =>
          rcases List.cons.inj hText with ⟨rfl, hOthers⟩
          by_cases hRest : rest = []
          · subst hRest
            have hBreak :
                ¬(c = '\r' ∧ others.head? = some '\n') := by
              intro hBreak
              exact hWhole (by simp [mark, hBreak])
            refine ⟨[c], others, rfl, ?_, hOthers, ?_⟩
            · simp [ofText, mark, hBreak]
            · simpa using hBreak
          · rw [IsWhole, ← List.singleton_append] at hWhole
            rcases ih hOthers
                ((isWhole_append_iff hRest).1 hWhole) with
              ⟨before, behind, rfl, rfl, hBehind, hCut⟩
            have hBefore := ofText_eq_nil.not.1 hRest
            rcases List.exists_cons_of_ne_nil hBefore with
              ⟨d, more, rfl⟩
            exact ⟨c :: d :: more, behind, rfl, rfl, hBehind,
              hCut⟩

end BreakChar

end Bracketry

------------------------------------------------------------
-- Characters that Stay
------------------------------------------------------------

namespace Bracketry

open Measured

namespace BreakChar

/-
  A character that is kept: a carriage return may have become
  part of a line break.
-/
def Stays
    (old new : BreakChar) :
    Prop :=
  old = new ∨ old = .char '\r' ∧ new = .carriage

theorem Stays.refl
    (char : BreakChar) :
    Stays char char :=
  .inl rfl

theorem forall₂_stays_refl
    (chars : List BreakChar) :
    List.Forall₂ Stays chars chars :=
  List.forall₂_same.2 fun char _ => .refl char

theorem sameSize_stays : SameSize Stays := by
  rintro old new (rfl | ⟨rfl, rfl⟩) <;> rfl

/- What stays twice stays. -/
theorem via_stays :
    Via Stays Stays = Stays := by
  funext old new
  refine propext ⟨?_, fun h => ⟨old, .refl old, h⟩⟩
  rintro ⟨_, rfl | ⟨rfl, rfl⟩, hNext⟩
  · exact hNext
  · rcases hNext with rfl | ⟨hReturn, _⟩
    · exact .inr ⟨rfl, rfl⟩
    · cases hReturn

/- A line feed stays one, and is no other character. -/
theorem Stays.lineFeed_iff
    {old new : BreakChar}
    (h : Stays old new) :
    old = .char '\n' ↔ new = .char '\n' := by
  rcases h with rfl | ⟨rfl, rfl⟩
  · rfl
  · simp

/- Other characters stay as they are. -/
theorem Stays.eq_of_ne
    {old new : BreakChar}
    (hReturn : old ≠ .char '\r')
    (h : Stays old new) :
    new = old :=
  h.elim Eq.symm fun hBoth => absurd hBoth.1 hReturn

/-
  Carriage returns are told apart by what is behind them.
-/
def IsMarked : List BreakChar → Prop
  | [] => True
  | first :: rest =>
      (first = .carriage → rest.head? = some (.char '\n')) ∧
        (first = .char '\r' →
          rest.head? ≠ some (.char '\n')) ∧
        IsMarked rest

theorem IsMarked.behind
    {before behind : List BreakChar}
    (h : IsMarked (before ++ behind)) :
    IsMarked behind := by
  induction before with
  | nil => exact h
  | cons char rest ih => exact ih h.2.2

theorem isMarked_ofText
    (text : List Char) :
    IsMarked (ofText text ++ pads) := by
  induction text with
  | nil => exact ⟨nofun, nofun, trivial⟩
  | cons c rest ih =>
      have hHead :
          (ofText rest ++ pads).head? = some (.char '\n') ↔
            rest.head? = some '\n' := by
        cases rest with
        | nil => simp [ofText, pads]
        | cons d others =>
            simp only [ofText, mark]
            split_ifs with hReturn <;> simp [hReturn]
      rw [ofText, List.cons_append, IsMarked, ne_eq, hHead]
      refine ⟨?_, ?_, ih⟩
      · rw [mark]
        split_ifs with hReturn
        · exact fun _ => hReturn.2
        · nofun
      · rw [mark]
        split_ifs with hReturn
        · nofun
        · intro hSame hNext
          exact hReturn ⟨BreakChar.char.inj hSame, hNext⟩

/-
  A stretch that stays, with one more character behind it,
  stays as it is.  The induction is on the stretch: what is
  behind a carriage return tells what that is in both texts.
-/
theorem eq_of_stays
    {part same behind others : List BreakChar}
    {next other : BreakChar}
    (hPart : List.Forall₂ Stays part same)
    (hNext : Stays next other)
    (hOld : IsMarked (part ++ next :: behind))
    (hNew : IsMarked (same ++ other :: others)) :
    same = part := by
  induction hPart with
  | nil => rfl
  | @cons old new rest more hStays hRest ih =>
      rcases ih hOld.2.2 hNew.2.2 with rfl
      refine congrArg (· :: more) ?_
      rcases hStays with rfl | ⟨rfl, rfl⟩
      · rfl
      · -- Behind it is a line feed in one of the texts only.
        have hFeed := hNew.1 rfl
        have hNone := hOld.2.1 rfl
        cases more with
        | nil =>
            have hOther := Option.some.inj hFeed
            exact absurd
              (congrArg some (hNext.lineFeed_iff.2 hOther)) hNone
        | cons _ _ => exact absurd hFeed hNone

end BreakChar

end Bracketry

------------------------------------------------------------
-- Edits of Characters
------------------------------------------------------------

namespace Bracketry

open Measured

namespace BreakChar

/- A first part of a text stays, whatever is behind it. -/
theorem exists_ofText_append
    (a b : List Char) :
    ∃ first,
      ofText (a ++ b) = first ++ ofText b ∧
        List.Forall₂ Stays (ofText a) first := by
  induction a with
  | nil => exact ⟨[], rfl, .nil⟩
  | cons c rest ih =>
      rcases ih with ⟨first, hFirst, hStays⟩
      refine ⟨mark c (rest ++ b).head? :: first, ?_,
        .cons ?_ hStays⟩
      · rw [List.cons_append, ofText, hFirst, List.cons_append]
      · cases rest with
        | nil =>
            simp only [mark, List.head?_nil, reduceCtorEq,
              and_false, if_false, List.nil_append]
            split_ifs with hReturn
            · exact .inr ⟨by rw [hReturn.1], rfl⟩
            · exact .refl _
        | cons d others => exact .refl _

/- A replacement in a text is an edit of its characters. -/
theorem turns_replace
    {before cut behind : List Char}
    (inserted : List Char)
    (hCut :
      ¬(before.getLast? = some '\r' ∧
        (cut ++ behind).head? = some '\n')) :
    Turns Stays 0
      [Edit.replace (Length.ofText before)
        (Length.ofText before + Length.ofText cut) inserted]
      (ofText (before ++ (cut ++ behind)) ++ pads)
      (ofText (before ++ (inserted ++ behind)) ++ pads) := by
  rcases exists_ofText_append cut behind with
    ⟨left, hLeft, hCutStays⟩
  rcases exists_ofText_append inserted behind with
    ⟨middle, hMiddle, hInserted⟩
  rcases exists_ofText_append before (inserted ++ behind) with
    ⟨first, hFirst, hStays⟩
  rw [ofText_append hCut, hLeft, hFirst, hMiddle]
  simp only [List.append_assoc]
  refine Turns.single hStays (forall₂_stays_refl _) ?_ ?_ ?_
  · rw [extent_ofText]
    rfl
  · rw [← extent_eq_of_forall₂ sameSize_stays hCutStays,
      extent_ofText]
    rfl
  · rw [← extent_eq_of_forall₂ sameSize_stays hInserted,
      extent_ofText]
    rfl

end BreakChar

end Bracketry
