import Bracketry.Content.LineAccess
import Bracketry.Proofs.RoundTrips
import Bracketry.Proofs.SameLines

/-
  Access by lines and the document of the same text.

  What follows from the lines alone is what a document of
  their text says, as long as a line breaks no line of its
  own: adding up the lines clamps positions and offsets as
  the document does.  Only the document refuses the offsets
  inside a character.

  Key definitions include:
    * `LineAccess.uncut`
    * `Line.IsPlain`

  Main declarations:
    * `LineAccess.offsetOf_uncut`
    * `LineAccess.positionOf_uncut`
    * `Line.split_join_ofTexts`
    * `LineAccess.agrees_with_document`
-/

------------------------------------------------------------
-- Adding up Lines
------------------------------------------------------------

namespace Bracketry

namespace Line

@[simp] theorem map_text_ofTexts
    (texts : List (List Char)) :
    (ofTexts texts).map text = texts := by
  fun_induction ofTexts texts with
  | case1 => rfl
  | case2 text => rfl
  | case3 text rest hRest ih => rw [List.map_cons, ih]

@[simp] theorem length_ofTexts
    (texts : List (List Char)) :
    (ofTexts texts).length = texts.length := by
  rw [← List.length_map, map_text_ofTexts]

theorem ofTexts_ne_nil
    {texts : List (List Char)}
    (h : texts ≠ []) :
    ofTexts texts ≠ [] := by
  simpa [← List.length_pos_iff] using h

@[simp] theorem textAt_ofTexts
    (texts : List (List Char))
    (number : Nat) :
    textAt (ofTexts texts) number = texts.getD number [] := by
  have hLine :
      ((ofTexts texts)[number]?).map text = texts[number]? := by
    rw [← List.getElem?_map, map_text_ofTexts]
  rw [textAt, List.getD_eq_getElem?_getD, ← hLine]
  cases (ofTexts texts)[number]? <;> rfl

end Line

namespace LineAccess

variable (texts : List (List Char)) (version : Nat)

/- Access to given lines, with no count cut down. -/
def uncut : LineAccess :=
  { lineCount := texts.length
    columnCount := fun line =>
      Text.byteSize (texts.getD line [])
    line := fun line => texts.getD line []
    version := version }

theorem ofTexts_eq_uncut
    {texts : List (List Char)}
    (h : Line.AreCounted (Line.ofTexts texts)) :
    ofTexts texts version = uncut texts version := by
  have hCount : wrapCount texts.length = texts.length :=
    wrapCount_of_lt (Line.length_ofTexts texts ▸ h.1)
  have hWidth :
      ∀ line,
        wrapCount (Text.byteSize (texts.getD line [])) =
          Text.byteSize (texts.getD line []) := by
    intro line
    rw [← Line.textAt_ofTexts]
    exact h.width_eq line
  simp only [ofTexts, uncut, hCount, hWidth]

section Cons

variable (first second : List Char) (others : List (List Char))

theorem text_cons :
    (uncut (first :: second :: others) version).text =
      first ++
        '\n' :: (uncut (second :: others) version).text := by
  simp [text, uncut, List.range_succ_eq_map,
    List.flatMap_map]

theorem bytesBefore_cons
    (line : Nat) :
    (uncut (first :: others) version).bytesBefore
        (line + 1) =
      Text.byteSize first + 1 +
        (uncut others version).bytesBefore line := by
  induction line with
  | zero => simp [bytesBefore, uncut]
  | succ line ih =>
      rw [bytesBefore, ih, bytesBefore, Nat.add_assoc]
      rfl

theorem offsetOf_cons
    (line column : Nat) :
    (uncut (first :: second :: others) version).offsetOf
        ⟨line + 1, column⟩ =
      Text.byteSize first + 1 +
        (uncut (second :: others) version).offsetOf
          ⟨line, column⟩ := by
  have hLine :
      min (line + 1)
          (uncut (first :: second :: others) version).lastLine =
        min line (uncut (second :: others) version).lastLine +
          1 :=
    Nat.succ_min_succ line others.length
  simp only [offsetOf]
  rw [hLine, bytesBefore_cons, Nat.add_assoc]
  rfl

end Cons

theorem text_uncut :
    (uncut texts version).text =
      Line.join (Line.ofTexts texts) := by
  fun_induction Line.ofTexts texts with
  | case1 => rfl
  | case2 only =>
      simp [LineAccess.text, uncut, Line.join]
  | case3 first rest hRest ih =>
      rcases List.exists_cons_of_ne_nil hRest with
        ⟨second, others, rfl⟩
      rw [text_cons, ih]
      simp [Line.join]

theorem offsetOf_uncut
    (position : Position) :
    (uncut texts version).offsetOf position =
      Line.offsetOf (Line.ofTexts texts) position := by
  rcases position with ⟨line, column⟩
  rw [Line.offsetOf]
  fun_induction Line.ofTexts texts generalizing line with
  | case1 =>
      simp [offsetOf, bytesBefore, lastLine, uncut,
        Line.offsetFrom]
  | case2 only =>
      simp [offsetOf, bytesBefore, lastLine, uncut,
        Line.offsetFrom, Line.columns]
  | case3 first rest hRest ih =>
      have hLines := Line.ofTexts_ne_nil hRest
      rcases List.exists_cons_of_ne_nil hRest with
        ⟨second, others, rfl⟩
      cases line with
      | zero =>
          rw [Line.offsetFrom, if_pos rfl]
          · simp [offsetOf, bytesBefore, lastLine, uncut,
              Line.columns]
          · exact hLines
      | succ line =>
          rw [offsetOf_cons, ih, Line.offsetFrom,
            if_neg (Nat.succ_ne_zero line)]
          · rfl
          · exact hLines

/-
  The lines that were passed count in the number of a line
  alone.
-/
theorem positionFrom_append
    (passed : List (List Char))
    (offset : Nat)
    (hTexts : texts ≠ []) :
    (uncut (passed ++ texts) version).positionFrom
        passed.length offset (texts.length - 1) =
      Line.positionFrom passed.length offset
        (Line.ofTexts texts) := by
  fun_induction Line.ofTexts texts
    generalizing passed offset with
  | case1 => exact absurd rfl hTexts
  | case2 only =>
      simp [positionFrom, uncut, Line.positionFrom,
        Line.columns]
  | case3 first rest hRest ih =>
      have hLines := Line.ofTexts_ne_nil hRest
      rcases Nat.exists_eq_add_one.2
          (List.length_pos_iff.2 hRest) with
        ⟨more, hMore⟩
      have hWidth :
          (uncut (passed ++ first :: rest) version).columnCount
              passed.length =
            Text.byteSize first := by
        simp [uncut]
      have hSize :
          Line.size ⟨first, ['\n']⟩ =
            Text.byteSize first + 1 :=
        rfl
      have hNext := ih (passed ++ [first])
        (offset - (Text.byteSize first + 1)) hRest
      rw [List.append_assoc, List.length_append] at hNext
      rw [Line.positionFrom, List.length_cons, hMore,
        Nat.add_sub_cancel, positionFrom, hWidth, hSize]
      -- up to the break of a line, its columns are counted
      simp only [Nat.lt_succ_iff]
      split
      · rename_i hLe
        simp [Line.columns, hLe]
      · rw [hMore, Nat.add_sub_cancel] at hNext
        exact hNext
      · exact hLines

theorem positionOf_uncut
    (offset : Nat) :
    (uncut texts version).positionOf offset =
      Line.positionOf (Line.ofTexts texts) offset := by
  cases texts with
  | nil =>
      simp [positionOf, lastLine, uncut, positionFrom,
        Line.positionOf, Line.ofTexts, Line.positionFrom]
  | cons first rest =>
      exact positionFrom_append _ version [] offset (by simp)

end LineAccess

end Bracketry

------------------------------------------------------------
-- Lines of Joined Texts
------------------------------------------------------------

namespace Bracketry

namespace Line

/- A text that stays one line when a line feed follows. -/
def IsPlain
    (text : List Char) :
    Prop :=
  '\n' ∉ text ∧ text.getLast? ≠ some '\r'

instance
    (text : List Char) :
    Decidable (IsPlain text) :=
  inferInstanceAs
    (Decidable ('\n' ∉ text ∧ text.getLast? ≠ some '\r'))

theorem IsPlain.split_append
    {text : List Char}
    (h : IsPlain text)
    (rest : List Char) :
    split (text ++ '\n' :: rest) =
      ⟨text, ['\n']⟩ :: split rest := by
  induction text with
  | nil => rw [List.nil_append, split]
  | cons c others ih =>
      rcases h with ⟨hFeed, hLast⟩
      rw [List.mem_cons, not_or] at hFeed
      have hOthers : IsPlain others := by
        refine ⟨hFeed.2, fun hReturn => hLast ?_⟩
        rw [List.getLast?_cons, hReturn]
        rfl
      refine split_cons (Ne.symm hFeed.1) ?_ (ih hOthers)
      rintro ⟨rfl, hHead⟩
      cases others with
      | nil => exact hLast rfl
      | cons d more =>
          exact hFeed.2 (List.mem_of_head? hHead)

/- Plain lines are the lines of the text they make up. -/
theorem split_join_ofTexts
    {texts : List (List Char)}
    (hSome : texts ≠ [])
    (hPlain : ∀ text ∈ texts, IsPlain text) :
    split (join (ofTexts texts)) = ofTexts texts := by
  fun_induction ofTexts texts with
  | case1 => exact absurd rfl hSome
  | case2 only =>
      have hOnly := hPlain only List.mem_cons_self
      simpa [join] using split_of_not_mem hOnly.1
  | case3 first rest hRest ih =>
      rw [List.forall_mem_cons] at hPlain
      have hJoin :
          join (⟨first, ['\n']⟩ :: ofTexts rest) =
            first ++ '\n' :: join (ofTexts rest) := by
        simp [join]
      rw [hJoin, hPlain.1.split_append, ih hRest hPlain.2]

/- Behind the text all offsets have one position. -/
theorem positionOf_min
    (text : List Char)
    (offset : Nat) :
    positionOf (split text) (min offset (Text.byteSize text)) =
      positionOf (split text) offset := by
  apply le_antisymm
  · exact positionOf_mono text (Nat.min_le_left _ _)
  · have hWithin := offsetFrom_le (split text)
      (positionOf (split text) offset).lines
      (positionOf (split text) offset).columns
    rw [join_split] at hWithin
    rw [le_positionOf_iff (hasPlace_positionOf text offset)]
    exact Nat.le_min.2
      ⟨offsetOf_positionOf_le text offset, hWithin⟩

end Line

end Bracketry

------------------------------------------------------------
-- Documents of Lines
------------------------------------------------------------

namespace Bracketry

namespace LineAccess

/- The content reads as the access says. -/
structure Describes
    (access : LineAccess)
    (content : Content) :
    Prop where
  text : content.text = access.text
  lineCount : content.lineCount = access.lineCount
  line : content.line = access.line
  columnCount : content.columnCount = access.columnCount
  tabSize : content.tabSize = access.tabSize
  endPosition : content.endPosition = access.endPosition
  offsetOf :
    ∀ position,
      content.offsetOf position = access.offsetOf position

variable (texts : List (List Char)) (version : Nat)

/- Content is accessed by its lines, however it is kept. -/
theorem access_eq
    {content : Content}
    (hLines : content.lines = Line.ofTexts texts)
    (hTab : content.tabSize = Document.defaultTabSize) :
    content.access = ofTexts texts content.version := by
  have hLine : content.line = (texts.getD · []) := by
    funext number
    rw [Content.line, hLines, Line.textAt_ofTexts]
  have hWidth :
      content.columnCount = fun line =>
        wrapCount (Text.byteSize (texts.getD line [])) := by
    funext number
    rw [Content.columnCount, hLines, Line.width,
      Line.textAt_ofTexts]
  have hCount :
      content.lineCount = wrapCount texts.length := by
    rw [Content.lineCount, hLines, Line.count,
      Line.length_ofTexts]
  rw [Content.access, ofTexts, hLine, hWidth, hCount, hTab]

/- The access describes all content of lines it counts. -/
theorem describes_of_lines
    {texts : List (List Char)}
    {content : Content}
    (hCounted : Line.AreCounted (Line.ofTexts texts))
    (hLines : content.lines = Line.ofTexts texts)
    (hTab : content.tabSize = Document.defaultTabSize) :
    (ofTexts texts version).Describes content := by
  have hAccess := access_eq texts hLines hTab
  have hText :
      (ofTexts texts version).text =
        Line.join content.lines := by
    rw [ofTexts_eq_uncut version hCounted, text_uncut, hLines]
  have hOffset :
      ∀ version position,
        (ofTexts texts version).offsetOf position =
          Line.countedOffset content.lines position := by
    intro version position
    rw [ofTexts_eq_uncut version hCounted, offsetOf_uncut,
      hLines, Line.countedOffset_eq hCounted.1]
  exact
    { text := by
        rw [Content.text, hText, hAccess]
        exact ite_eq_left_iff.2 fun _ => hText
      lineCount := congrArg LineAccess.lineCount hAccess
      line := congrArg LineAccess.line hAccess
      columnCount := congrArg LineAccess.columnCount hAccess
      tabSize := hTab
      endPosition := congrArg LineAccess.endPosition hAccess
      offsetOf := by
        intro position
        rw [Content.offsetOf, hOffset, hAccess]
        exact ite_eq_left_iff.2 fun _ =>
          hOffset content.version position }

/-
  Lines without breaks of their own, as they are and as the
  document of their text.  Both contents read as the access
  to the lines says, at each line and for each position, in
  the text or not.  An offset has the same position, unless
  it lies inside a character, which only the document
  refuses.  And each parse of one content is the parse of the
  other, with the same tree and the same counts.
-/
theorem agrees_with_document
    {texts : List (List Char)}
    (version : Nat)
    (hSome : texts ≠ [])
    (hPlain : ∀ text ∈ texts, Line.IsPlain text)
    (hCounted : Line.AreCounted (Line.ofTexts texts)) :
    let access := ofTexts texts version
    let document := Document.ofText access.text
    let lined := Content.ofLines texts version
    access.Describes lined ∧
      access.Describes (Content.ofDocument document) ∧
      (∀ offset,
        lined.positionOf offset =
            .ok (access.positionOf offset) ∧
          document.positionOf offset =
            if Text.HasCut document.text
                (min offset document.size) then
              .ok (access.positionOf offset)
            else .error .splitCharacter) ∧
      ∀ table spans job,
        Index.parse table lined spans job =
          Index.parse table (Content.ofDocument document) spans
            job := by
  intro access document lined
  have hUncut : access = uncut texts version :=
    ofTexts_eq_uncut version hCounted
  have hLines : document.lines = Line.ofTexts texts := by
    have hText : document.text = Line.join (Line.ofTexts texts) :=
      (congrArg LineAccess.text hUncut).trans
        (text_uncut texts version)
    rw [Document.lines, hText]
    exact Line.split_join_ofTexts hSome hPlain
  have hDocument : document.IsCounted := by
    rw [Document.IsCounted, hLines]
    exact hCounted
  have hLined : access.Describes lined :=
    describes_of_lines version hCounted rfl rfl
  have hWhole :
      access.Describes (Content.ofDocument document) :=
    describes_of_lines version hCounted hLines rfl
  refine ⟨hLined, hWhole, fun offset => ⟨?_, ?_⟩,
    Index.parse_congr hLines.symm
      (hLined.text.trans hWhole.text.symm)⟩
  · have hAccess : lined.access = access :=
      access_eq texts rfl rfl
    rw [← hAccess]
    exact if_neg Bool.false_ne_true
  · have hPosition :
        access.positionOf offset =
          Line.positionOf document.lines offset := by
      rw [hUncut, hLines]
      exact positionOf_uncut texts version offset
    rw [hDocument.positionOf_eq, hPosition]
    exact if_congr Iff.rfl
      (congrArg _ (Line.positionOf_min _ offset)) rfl

/- Brackets on three lines, the second of which is empty. -/
theorem agrees_with_document_brackets :
    let texts : List (List Char) :=
      [['(', 'é'], [], ['b', ')']]
    let access := ofTexts texts 0
    let document := Document.ofText access.text
    let lined := Content.ofLines texts 0
    texts ≠ [] ∧
      (∀ text ∈ texts, Line.IsPlain text) ∧
      Line.AreCounted (Line.ofTexts texts) ∧
      access.Describes lined ∧
      access.Describes (Content.ofDocument document) ∧
      (∀ offset,
        lined.positionOf offset =
            .ok (access.positionOf offset) ∧
          document.positionOf offset =
            if Text.HasCut document.text
                (min offset document.size) then
              .ok (access.positionOf offset)
            else .error .splitCharacter) ∧
      ∀ table spans job,
        Index.parse table lined spans job =
          Index.parse table (Content.ofDocument document) spans
            job :=
  ⟨by decide, by decide, by decide,
    agrees_with_document _ (by decide) (by decide)
      (by decide)⟩

/- Inside a character, the access has a position alone. -/
example :
    (ofTexts [['é']] 0).positionOf 1 = ⟨0, 1⟩ ∧
      (Document.ofText ['é']).positionOf 1 =
        .error .splitCharacter := by
  decide

end LineAccess

end Bracketry
