import Bracketry.Content.Snapshot
import Bracketry.Proofs.Turns

/-
  Texts as bytes.

  Of each byte of a text only matters whether it is part of
  a line break.  A place of a text, by line and column, is a
  way to split its bytes, but not between a carriage return
  and the line feed behind it.

  Key definitions include:
    * `TextByte`, `TextByte.ofText`
    * `TextByte.Splits`
    * `Line.HasPlace`

  Main declarations:
    * `TextByte.extent_ofText`
    * `TextByte.hasPlace_iff`
-/

------------------------------------------------------------
-- Bytes
------------------------------------------------------------

namespace Bracketry

open Measured

/-
  A byte of a text: a line feed, a carriage return, or
  another one.  Lines behind the end of a text are of a kind
  of their own.
-/
inductive TextByte where
  | lineFeed
  | carriage
  | plain
  | beyond
deriving DecidableEq, Repr, Inhabited

namespace TextByte

/- The length of a byte. -/
def length : TextByte → Length
  | .lineFeed => ⟨1, 0⟩
  | .carriage => ⟨0, 1⟩
  | .plain => ⟨0, 1⟩
  | .beyond => ⟨1, 0⟩

instance : Measured TextByte where
  size := length
  size_ne_zero byte := by cases byte <;> decide

/- The bytes of a character. -/
def ofChar
    (c : Char) :
    List TextByte :=
  if c = '\n' then [.lineFeed]
  else if c = '\r' then [.carriage]
  else List.replicate c.utf8Size .plain

/- The bytes of a text. -/
def ofText
    (text : List Char) :
    List TextByte :=
  text.flatMap ofChar

@[simp] theorem ofText_nil :
    ofText [] = [] :=
  rfl

@[simp] theorem ofText_cons
    (c : Char)
    (rest : List Char) :
    ofText (c :: rest) = ofChar c ++ ofText rest := by
  simp [ofText]

@[simp] theorem ofText_append
    (a b : List Char) :
    ofText (a ++ b) = ofText a ++ ofText b := by
  simp [ofText]

/- The bytes of a character that ends no line. -/
theorem extent_eq_of_flat
    {bytes : List TextByte}
    (h : ∀ byte ∈ bytes, size byte = ⟨0, 1⟩) :
    extent bytes = ⟨0, bytes.length⟩ := by
  induction bytes with
  | nil => rfl
  | cons byte rest ih =>
      rw [List.forall_mem_cons] at h
      rw [extent_cons, h.1, ih h.2, Length.add_def,
        if_pos rfl, List.length_cons, Nat.add_comm 1]

theorem ofChar_flat
    {c : Char}
    (h : c ≠ '\n') :
    (∀ byte ∈ ofChar c, size byte = ⟨0, 1⟩) ∧
      (ofChar c).length = c.utf8Size := by
  unfold ofChar
  rw [if_neg h]
  split_ifs with hReturn
  · subst hReturn
    exact ⟨by simp [size, length], rfl⟩
  · refine ⟨?_, List.length_replicate⟩
    intro byte hByte
    rw [List.eq_of_mem_replicate hByte]
    rfl

theorem extent_ofChar
    (c : Char) :
    extent (ofChar c) = Length.ofChar c := by
  by_cases hBreak : c = '\n'
  · subst hBreak
    rfl
  · rcases ofChar_flat hBreak with ⟨hFlat, hLength⟩
    rw [extent_eq_of_flat hFlat, hLength, Length.ofChar,
      if_neg hBreak]

/- The bytes of a text are as long as the text. -/
theorem extent_ofText
    (text : List Char) :
    extent (ofText text) = Length.ofText text := by
  induction text with
  | nil => rfl
  | cons c rest ih =>
      rw [ofText_cons, extent_append, extent_ofChar, ih,
        Length.ofText_cons]

/- There are as many of them as the size of the text. -/
theorem length_ofText
    (text : List Char) :
    (ofText text).length = Text.byteSize text := by
  induction text with
  | nil => rfl
  | cons c rest ih =>
      rw [ofText_cons, List.length_append, ih, Text.byteSize]
      congr 1
      by_cases hBreak : c = '\n'
      · subst hBreak
        rfl
      · exact (ofChar_flat hBreak).2

/- A line break of two characters is not split. -/
def Splits
    (before behind : List TextByte) :
    Prop :=
  ¬(before.getLast? = some .carriage ∧
    behind.head? = some .lineFeed)

theorem splits_nil
    (behind : List TextByte) :
    Splits [] behind :=
  fun h => by cases h.1

/- Only the last byte before a place counts. -/
theorem splits_append
    {first before behind : List TextByte}
    (hSome : before ≠ []) :
    Splits (first ++ before) behind ↔
      Splits before behind := by
  unfold Splits
  rw [List.getLast?_append_of_ne_nil _ hSome]

end TextByte

end Bracketry

------------------------------------------------------------
-- Places on Lines
------------------------------------------------------------

namespace Bracketry

open Measured

namespace Line

/- There is at least one line. -/
theorem split_ne_nil
    (text : List Char) :
    split text ≠ [] := by
  fun_cases split text <;> simp_all

/- A character that breaks no line begins the first one. -/
theorem split_cons
    {c : Char}
    {rest : List Char}
    {first : Line}
    {lines : List Line}
    (hBreak : c ≠ '\n')
    (hReturn : ¬(c = '\r' ∧ rest.head? = some '\n'))
    (h : split rest = first :: lines) :
    split (c :: rest) =
      ⟨c :: first.text, first.ending⟩ :: lines := by
  rw [split.eq_def]
  split
  · rename_i hNil
    cases hNil
  · rename_i hFeed
    exact absurd (List.cons.inj hFeed).1 hBreak
  · rename_i others hFeed
    rcases List.cons.inj hFeed with ⟨rfl, rfl⟩
    exact absurd ⟨rfl, rfl⟩ hReturn
  · rename_i d others _ hSame
    rcases List.cons.inj hSame with ⟨rfl, rfl⟩
    rw [h]

/- A text without a line feed is one line. -/
theorem split_of_not_mem
    {text : List Char}
    (h : '\n' ∉ text) :
    split text = [⟨text, []⟩] := by
  induction text with
  | nil => rfl
  | cons c rest ih =>
      rw [List.mem_cons, not_or] at h
      refine split_cons (Ne.symm h.1) ?_ (ih h.2)
      rintro ⟨_, hHead⟩
      exact h.2 (List.mem_of_head? hHead)

/- There is one line more than there are line breaks. -/
theorem length_split
    (text : List Char) :
    (split text).length = (Length.ofText text).lines + 1 := by
  fun_induction split text with
  | case1 => rfl
  | case2 rest ih =>
      rw [List.length_cons, ih, Length.ofText_cons,
        Length.add_lines, Length.ofChar, if_pos rfl,
        Nat.add_comm 1]
  | case3 rest ih =>
      rw [List.length_cons, ih, Length.ofText_cons,
        Length.ofText_cons, Length.add_lines,
        Length.add_lines]
      have hReturn : (Length.ofChar '\r').lines = 0 := rfl
      have hFeed : (Length.ofChar '\n').lines = 1 := rfl
      omega
  | case4 c rest _ _ hNil ih =>
      exact absurd hNil (split_ne_nil rest)
  | case5 c rest hBreak _ line lines hCons ih =>
      rw [hCons] at ih
      rw [Length.ofText_cons, Length.add_lines, Length.ofChar,
        if_neg hBreak, Nat.zero_add]
      exact ih

/- The place lies on one of the lines. -/
def HasPlace
    (lines : List Line)
    (place : Position) :
    Prop :=
  ∃ line,
    lines[place.lines]? = some line ∧
      place.columns ≤ line.columns

theorem hasPlace_cons
    {first : Line}
    {rest : List Line}
    {place : Position} :
    HasPlace (first :: rest) place ↔
      (place.lines = 0 ∧ place.columns ≤ first.columns) ∨
        ∃ line,
          place.lines = line + 1 ∧
            HasPlace rest ⟨line, place.columns⟩ := by
  rcases place with ⟨line, column⟩
  cases line with
  | zero => simp [HasPlace]
  | succ line => simp [HasPlace]

end Line

end Bracketry

------------------------------------------------------------
-- Places as Splits
------------------------------------------------------------

namespace Bracketry

open Measured

namespace TextByte

/- The place splits the bytes. -/
def HasSplit
    (bytes : List TextByte)
    (place : Position) :
    Prop :=
  ∃ before behind,
    bytes = before ++ behind ∧ extent before = place ∧
      Splits before behind

theorem hasSplit_zero
    (bytes : List TextByte) :
    HasSplit bytes 0 :=
  ⟨[], bytes, rfl, rfl, splits_nil bytes⟩

/- Behind a line break, the next line begins. -/
theorem hasSplit_of_break
    {first bytes : List TextByte}
    {place : Position}
    (hFirst : extent first = ⟨1, 0⟩)
    (hLast : first.getLast? = some .lineFeed)
    (hNone :
      ∀ before behind,
        first = before ++ behind → before ≠ [] →
          behind ≠ [] → ¬Splits before (behind ++ bytes)) :
    HasSplit (first ++ bytes) place ↔
      place = 0 ∨
        ∃ line,
          place.lines = line + 1 ∧
            HasSplit bytes ⟨line, place.columns⟩ := by
  constructor
  · rintro ⟨before, behind, hBytes, rfl, hSplits⟩
    rcases List.append_eq_append_iff.1 hBytes with
      ⟨inner, rfl, rfl⟩ | ⟨more, rfl, rfl⟩
    · right
      refine ⟨(extent inner).lines, ?_, inner, behind, rfl,
        ?_, ?_⟩
      · rw [extent_append, hFirst, Length.break_add]
      · rw [extent_append, hFirst, Length.break_add]
      · by_cases hInner : inner = []
        · subst hInner
          exact splits_nil behind
        · exact (splits_append hInner).1 hSplits
    · by_cases hBefore : before = []
      · subst hBefore
        exact .inl rfl
      · by_cases hMore : more = []
        · subst hMore
          rw [List.append_nil] at hFirst
          refine .inr ⟨0, by rw [hFirst], [], bytes, rfl, ?_,
            splits_nil bytes⟩
          rw [hFirst]
          rfl
        · exact absurd hSplits
            (hNone before more rfl hBefore hMore)
  · rintro (rfl | ⟨line, hLine, before, behind, rfl, hExtent,
      hSplits⟩)
    · exact hasSplit_zero _
    · refine ⟨first ++ before, behind, by simp, ?_, ?_⟩
      · rw [extent_append, hFirst, Length.break_add,
          hExtent]
        exact Length.ext hLine.symm rfl
      · by_cases hBefore : before = []
        · subst hBefore
          rintro ⟨hReturn, _⟩
          rw [List.append_nil, hLast] at hReturn
          cases hReturn
        · exact (splits_append hBefore).2 hSplits

/- A character that is no part of a line break. -/
theorem hasSplit_of_flat
    {first bytes : List TextByte}
    {place : Position}
    (hFlat : ∀ byte ∈ first, size byte = ⟨0, 1⟩)
    (hReturn :
      TextByte.carriage ∈ first →
        first.length = 1 ∧
          bytes.head? ≠ some .lineFeed) :
    HasSplit (first ++ bytes) place ↔
      (place.lines = 0 ∧ place.columns < first.length) ∨
        ∃ inner,
          place = ⟨0, first.length⟩ + inner ∧
            HasSplit bytes inner := by
  have hFirst := extent_eq_of_flat hFlat
  constructor
  · rintro ⟨before, behind, hBytes, rfl, hSplits⟩
    rcases List.append_eq_append_iff.1 hBytes with
      ⟨inner, rfl, rfl⟩ | ⟨more, rfl, rfl⟩
    · refine .inr ⟨extent inner, ?_, inner, behind, rfl, rfl,
        ?_⟩
      · rw [extent_append, hFirst]
      · by_cases hInner : inner = []
        · subst hInner
          exact splits_nil behind
        · exact (splits_append hInner).1 hSplits
    · by_cases hMore : more = []
      · subst hMore
        rw [List.append_nil] at hFirst ⊢
        exact .inr ⟨0, by rw [hFirst, add_zero],
          hasSplit_zero bytes⟩
      · left
        have hPos := List.length_pos_of_ne_nil hMore
        rw [extent_eq_of_flat (fun byte hByte =>
          hFlat byte (List.mem_append_left _ hByte)),
          List.length_append]
        exact ⟨rfl, Nat.lt_add_of_pos_right hPos⟩
  · rintro (⟨hLines, hColumns⟩ | ⟨inner, rfl, before, behind,
      rfl, rfl, hSplits⟩)
    · refine ⟨first.take place.columns,
        first.drop place.columns ++ bytes, ?_, ?_, ?_⟩
      · rw [← List.append_assoc, List.take_append_drop]
      · rw [extent_eq_of_flat (fun byte hByte =>
          hFlat byte (List.mem_of_mem_take hByte)),
          List.length_take,
          Nat.min_eq_left (Nat.le_of_lt hColumns)]
        exact Length.ext hLines.symm rfl
      · rintro ⟨hLast, _⟩
        have hMem := List.mem_of_getLast? hLast
        have hOne :=
          (hReturn (List.mem_of_mem_take hMem)).1
        rw [hOne, Nat.lt_one_iff] at hColumns
        rw [hColumns] at hLast
        cases hLast
    · refine ⟨first ++ before, behind, by simp, ?_, ?_⟩
      · rw [extent_append, hFirst]
      · by_cases hBefore : before = []
        · subst hBefore
          rintro ⟨hLast, hHead⟩
          rw [List.append_nil] at hLast
          exact (hReturn (List.mem_of_getLast? hLast)).2 hHead
        · exact (splits_append hBefore).2 hSplits

/- A character in front of a line. -/
theorem hasPlace_char
    {c : Char}
    {line : Line}
    {lines : List Line}
    {place : Position} :
    Line.HasPlace (⟨c :: line.text, line.ending⟩ :: lines)
        place ↔
      (place.lines = 0 ∧ place.columns < c.utf8Size) ∨
        ∃ inner,
          place = ⟨0, c.utf8Size⟩ + inner ∧
            Line.HasPlace (line :: lines) inner := by
  simp only [Line.hasPlace_cons, Line.columns, Text.byteSize]
  constructor
  · rintro (⟨hLines, hColumns⟩ | ⟨number, hLines, hRest⟩)
    · by_cases hInside : place.columns < c.utf8Size
      · exact .inl ⟨hLines, hInside⟩
      · refine .inr ⟨⟨0, place.columns - c.utf8Size⟩, ?_,
          .inl ⟨rfl, by simp only; omega⟩⟩
        rw [Length.add_def, if_pos rfl]
        exact Length.ext hLines (by simp only; omega)
    · refine .inr ⟨place, ?_, .inr ⟨number, hLines, hRest⟩⟩
      rw [Length.add_def, if_neg (by omega), Nat.zero_add]
  · rintro (⟨hLines, hColumns⟩ | ⟨inner, rfl, hInner⟩)
    · exact .inl ⟨hLines, by omega⟩
    · rw [Length.add_def]
      rcases hInner with
        ⟨hLines, hColumns⟩ | ⟨number, hLines, hRest⟩
      · rw [if_pos hLines]
        exact .inl ⟨rfl, by simp only; omega⟩
      · rw [if_neg (by omega), Nat.zero_add]
        exact .inr ⟨number, hLines, hRest⟩

/- Behind the break of an empty line, the next begins. -/
theorem hasPlace_break
    {ending : List Char}
    {rest : List Line}
    {place : Position} :
    Line.HasPlace (⟨[], ending⟩ :: rest) place ↔
      place = 0 ∨
        ∃ line,
          place.lines = line + 1 ∧
            Line.HasPlace rest ⟨line, place.columns⟩ := by
  rw [Line.hasPlace_cons]
  apply or_congr_left
  constructor
  · rintro ⟨hLines, hColumns⟩
    exact Length.ext hLines (Nat.le_zero.1 hColumns)
  · rintro rfl
    exact ⟨rfl, Nat.le_refl _⟩

/- The first byte of a text tells if it is a line feed. -/
theorem head?_ofText_ne
    {text : List Char}
    (h : ∀ rest, text ≠ '\n' :: rest) :
    (ofText text).head? ≠ some .lineFeed := by
  cases text with
  | nil => simp
  | cons c rest =>
      have hBreak : c ≠ '\n' := by
        rintro rfl
        exact h rest rfl
      rcases ofChar_flat hBreak with ⟨hFlat, hLength⟩
      have hPos := Char.utf8Size_pos c
      rcases List.exists_cons_of_length_pos
          (by omega : 0 < (ofChar c).length) with
        ⟨byte, others, hBytes⟩
      rw [ofText_cons, hBytes, List.cons_append,
        List.head?_cons]
      intro hFeed
      have hSize := hFlat byte (by simp [hBytes])
      rw [Option.some.inj hFeed] at hSize
      cases hSize

/- A carriage return is a character of its own. -/
theorem eq_of_carriage_mem
    {c : Char}
    (h : TextByte.carriage ∈ ofChar c) :
    c = '\r' := by
  unfold ofChar at h
  split_ifs at h with hBreak hReturn
  · simp at h
  · exact hReturn
  · cases List.eq_of_mem_replicate h

/- The places on the lines of a text split its bytes. -/
theorem hasPlace_iff
    {text : List Char}
    {place : Position} :
    Line.HasPlace (Line.split text) place ↔
      HasSplit (ofText text) place := by
  fun_induction Line.split text generalizing place with
  | case1 =>
      rw [hasPlace_break]
      constructor
      · rintro (rfl | ⟨_, _, _, hNone, _⟩)
        · exact hasSplit_zero _
        · simp at hNone
      · rintro ⟨before, behind, hBytes, rfl, _⟩
        rcases List.append_eq_nil_iff.1 hBytes.symm with
          ⟨rfl, rfl⟩
        exact .inl rfl
  | case2 rest ih =>
      have hBytes :
          ofText ('\n' :: rest) =
            [.lineFeed] ++ ofText rest := rfl
      rw [hasPlace_break, hBytes,
        hasSplit_of_break rfl rfl ?_]
      · simp only [ih]
      · intro before behind hFirst hBefore hBehind
        have hLength := congrArg List.length hFirst
        have hOne := List.length_pos_of_ne_nil hBefore
        have hTwo := List.length_pos_of_ne_nil hBehind
        simp only [List.length_append, List.length_singleton]
          at hLength
        omega
  | case3 rest ih =>
      have hBytes :
          ofText ('\r' :: '\n' :: rest) =
            [.carriage, .lineFeed] ++ ofText rest := rfl
      rw [hasPlace_break, hBytes,
        hasSplit_of_break rfl rfl ?_]
      · simp only [ih]
      · intro before behind hFirst hBefore hBehind
        cases before with
        | nil => exact absurd rfl hBefore
        | cons byte others =>
            rw [List.cons_append, List.cons.injEq] at hFirst
            rcases hFirst with ⟨rfl, hFirst⟩
            cases others with
            | nil =>
                rw [List.nil_append] at hFirst
                rw [← hFirst]
                exact fun h => h ⟨rfl, rfl⟩
            | cons next more =>
                rw [List.cons_append, List.cons.injEq]
                  at hFirst
                have hNil := hFirst.2.symm
                rw [List.append_eq_nil_iff] at hNil
                exact absurd hNil.2 hBehind
  | case4 c rest hBreak hReturn hNil ih =>
      exact absurd hNil (Line.split_ne_nil rest)
  | case5 c rest hBreak hReturn line lines hCons ih =>
      rw [hCons] at ih
      rcases ofChar_flat hBreak with ⟨hFlat, hLength⟩
      rw [hasPlace_char, ofText_cons,
        hasSplit_of_flat hFlat ?_, hLength]
      · simp only [ih]
      · intro hMem
        rcases eq_of_carriage_mem hMem with rfl
        exact ⟨rfl, head?_ofText_ne fun others hRest =>
          hReturn others rfl hRest⟩

end TextByte

end Bracketry
