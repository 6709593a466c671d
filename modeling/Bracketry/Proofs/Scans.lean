import Bracketry.Proofs.Lines
import Bracketry.Proofs.Scripts

/-
  Tokens of a whole text at once.

  A scan finds literals and line breaks, one behind the
  other.  A character of a line break is part of no literal,
  in any case.  So what lies between two brackets of a scan
  is text of the length that the scan counts, and its tokens
  spell the whole text.

  Key definitions include:
    * `Scan.Finds`, `Scan.Passes`
    * `Scan.Shows`

  Main declarations:
    * `eq_of_foldChar_eq`
    * `TokenTable.isSolid_ofDeclaration`
    * `Scan.spells_tokens`
-/

------------------------------------------------------------
-- Case and Line Breaks
------------------------------------------------------------

namespace Bracketry

/- Partners of high code points are high. -/
theorem CaseRun.le_partner
    {bound code : Nat}
    {runs : List CaseRun}
    (hTargets : ∀ run ∈ runs, bound ≤ run.target)
    (hCode : bound ≤ code) :
    bound ≤ partner code runs := by
  induction runs with
  | nil => exact hCode
  | cons run rest ih =>
      rw [List.forall_mem_cons] at hTargets
      have hRest := ih hTargets.2
      unfold partner
      split_ifs <;> omega

theorem Case.le_target :
    (∀ run ∈ folding, 64 ≤ run.target) ∧
      ∀ run ∈ lower, 64 ≤ run.target := by
  decide +kernel

/- Only a code point that is valid makes a character. -/
theorem toNat_ofNat
    {code : Nat}
    (h : 0 < (Char.ofNat code).toNat) :
    (Char.ofNat code).toNat = code := by
  unfold Char.ofNat at h ⊢
  by_cases hValid : code.isValidChar
  · rw [dif_pos hValid]
    rfl
  · rw [dif_neg hValid] at h
    exact absurd h (by decide)

/- A character from a high code point is not a low one. -/
theorem ofNat_ne_of_low
    {code : Nat}
    {d : Char}
    (hCode : 64 ≤ code)
    (hPos : 0 < d.toNat)
    (hLow : d.toNat < 64) :
    Char.ofNat code ≠ d := by
  rintro rfl
  rw [toNat_ofNat hPos] at hLow
  omega

/- Only a control character or a digit folds to one. -/
theorem eq_of_foldChar_eq
    {c d : Char}
    (hPos : 0 < d.toNat)
    (hLow : d.toNat < 64)
    (h : foldChar c = d) :
    c = d := by
  unfold foldChar at h
  split_ifs at h with hAscii hUpper
  · rw [isAsciiUpper, Bool.and_eq_true, decide_eq_true_eq]
      at hUpper
    exact absurd h (ofNat_ne_of_low (by omega) hPos hLow)
  · exact h
  · exact absurd h (ofNat_ne_of_low
      (CaseRun.le_partner Case.le_target.1 (by omega)) hPos
      hLow)

theorem eq_of_lowerChar_eq
    {c d : Char}
    (hPos : 0 < d.toNat)
    (hLow : d.toNat < 64)
    (h : lowerChar c = d) :
    c = d := by
  unfold lowerChar at h
  split_ifs at h with hAscii hUpper
  · rw [isAsciiUpper, Bool.and_eq_true, decide_eq_true_eq]
      at hUpper
    exact absurd h (ofNat_ne_of_low (by omega) hPos hLow)
  · exact h
  · exact absurd h (ofNat_ne_of_low
      (CaseRun.le_partner Case.le_target.2 (by omega)) hPos
      hLow)

/- A character that breaks lines. -/
def IsBreak
    (c : Char) :
    Prop :=
  c = '\n' ∨ c = '\r'

instance (c : Char) : Decidable (IsBreak c) :=
  inferInstanceAs (Decidable (_ ∨ _))

theorem IsBreak.eq_of_foldChar
    {c d : Char}
    (hBreak : IsBreak d)
    (h : foldChar c = foldChar d) :
    c = d := by
  rcases hBreak with rfl | rfl
  · exact eq_of_foldChar_eq (by decide) (by decide) h
  · exact eq_of_foldChar_eq (by decide) (by decide) h

/- Lower case makes no line break. -/
theorem not_isBreak_of_mem_lowercase
    {text : List Char}
    {c : Char}
    (hText : ∀ d ∈ text, ¬IsBreak d)
    (h : c ∈ Text.lowercase text) :
    ¬IsBreak c := by
  have hFrom :
      ∀ (text passed : List Char),
        (∀ d ∈ text, ¬IsBreak d) →
          c ∈ Text.lowercaseFrom passed text →
            ¬IsBreak c := by
    intro text
    induction text with
    | nil => intro passed _ hMem; cases hMem
    | cons d rest ih =>
        intro passed hAll hMem
        rw [List.forall_mem_cons] at hAll
        unfold Text.lowercaseFrom at hMem
        rw [List.mem_append] at hMem
        rcases hMem with hHere | hRest
        · split_ifs at hHere
          · rw [List.mem_singleton] at hHere
            subst hHere
            decide
          · rw [List.mem_singleton] at hHere
            subst hHere
            decide
          · rw [List.mem_cons, List.mem_singleton] at hHere
            rcases hHere with rfl | rfl <;> decide
          · rw [List.mem_singleton] at hHere
            subst hHere
            rintro (hFeed | hReturn)
            · have hSame := eq_of_lowerChar_eq (by decide)
                (by decide) hFeed
              exact hAll.1 (.inl hSame)
            · have hSame := eq_of_lowerChar_eq (by decide)
                (by decide) hReturn
              exact hAll.1 (.inr hSame)
        · exact ih (d :: passed) hAll.2 hRest
  exact hFrom text [] hText h

end Bracketry

------------------------------------------------------------
-- Declared Literals
------------------------------------------------------------

namespace Bracketry

/- Both literals have no line break in them. -/
def BracketPair.IsFlat
    (pair : BracketPair) :
    Prop :=
  (∀ c ∈ pair.opener, ¬IsBreak c) ∧
    ∀ c ∈ pair.closer, ¬IsBreak c

instance (pair : BracketPair) : Decidable pair.IsFlat :=
  have := List.decidableBAll (¬IsBreak ·) pair.opener
  have := List.decidableBAll (¬IsBreak ·) pair.closer
  instDecidableAnd

namespace BracketDeclaration

/- The pairs that make brackets. -/
def declared
    (declaration : BracketDeclaration) :
    List BracketPair :=
  declaration.validPairs ++ declaration.colorizedPairs

/- No declared literal has a line break in it. -/
def IsFlat
    (declaration : BracketDeclaration) :
    Prop :=
  ∀ pair ∈ declaration.declared, pair.IsFlat

instance
    (declaration : BracketDeclaration) :
    Decidable declaration.IsFlat :=
  inferInstanceAs (Decidable (∀ _ ∈ _, _))

theorem isValid_of_mem_declared
    {declaration : BracketDeclaration}
    {pair : BracketPair}
    (h : pair ∈ declaration.declared) :
    pair.opener ≠ [] ∧ pair.closer ≠ [] := by
  have hValid : pair.isValid = true := by
    rw [declared, List.mem_append] at h
    rcases h with hPair | hPair
    · exact (List.mem_filter.1 hPair).2
    · unfold colorizedPairs at hPair
      split at hPair
      · exact (List.mem_filter.1 hPair).2
      · have hMem := (List.mem_filter.1 hPair).1
        exact (List.mem_filter.1 hMem).2
  simpa [BracketPair.isValid] using hValid

end BracketDeclaration

theorem mem_linkOpening
    {pair : BracketPair}
    {kind : OpeningKind}
    {kinds : List OpeningKind}
    (h : kind ∈ linkOpening pair kinds) :
    kind.literal = pair.opener ∨
      ∃ other ∈ kinds, kind.literal = other.literal := by
  induction kinds with
  | nil =>
      rw [linkOpening, List.mem_singleton] at h
      exact .inl (by rw [h])
  | cons first rest ih =>
      by_cases hOpener : first.literal = pair.opener
      · rw [linkOpening, if_pos hOpener, List.mem_cons] at h
        rcases h with rfl | hRest
        · exact .inl hOpener
        · exact .inr
            ⟨kind, List.mem_cons_of_mem _ hRest, rfl⟩
      · rw [linkOpening, if_neg hOpener, List.mem_cons] at h
        rcases h with rfl | hRest
        · exact .inr ⟨kind, List.mem_cons_self, rfl⟩
        · rcases ih hRest with hHere | ⟨other, hOther, hSame⟩
          · exact .inl hHere
          · exact .inr
              ⟨other, List.mem_cons_of_mem _ hOther, hSame⟩

theorem mem_linkClosing
    {pair : BracketPair}
    {colorized : Bool}
    {kind : ClosingKind}
    {kinds : List ClosingKind}
    (h : kind ∈ linkClosing pair colorized kinds) :
    kind.literal = pair.closer ∨
      ∃ other ∈ kinds, kind.literal = other.literal := by
  induction kinds with
  | nil =>
      rw [linkClosing, List.mem_singleton] at h
      exact .inl (by rw [h])
  | cons first rest ih =>
      by_cases hCloser : first.literal = pair.closer
      · rw [linkClosing, if_pos hCloser, List.mem_cons] at h
        rcases h with rfl | hRest
        · exact .inl hCloser
        · exact .inr
            ⟨kind, List.mem_cons_of_mem _ hRest, rfl⟩
      · rw [linkClosing, if_neg hCloser, List.mem_cons] at h
        rcases h with rfl | hRest
        · exact .inr ⟨kind, List.mem_cons_self, rfl⟩
        · rcases ih hRest with hHere | ⟨other, hOther, hSame⟩
          · exact .inl hHere
          · exact .inr
              ⟨other, List.mem_cons_of_mem _ hOther, hSame⟩

namespace Brackets

/- The kinds have literals of some pairs. -/
def StemsFrom
    (pairs : List BracketPair)
    (brackets : Brackets) :
    Prop :=
  (∀ kind ∈ brackets.openings,
    ∃ pair ∈ pairs, kind.literal = pair.opener) ∧
    ∀ kind ∈ brackets.closings,
      ∃ pair ∈ pairs, kind.literal = pair.closer

theorem StemsFrom.link
    {pairs : List BracketPair}
    {brackets : Brackets}
    {pair : BracketPair}
    (colorized : Bool)
    (hPair : pair ∈ pairs)
    (h : brackets.StemsFrom pairs) :
    (brackets.link colorized pair).StemsFrom pairs := by
  refine ⟨?_, ?_⟩
  · intro kind hKind
    rcases mem_linkOpening hKind with
      hHere | ⟨other, hOther, hSame⟩
    · exact ⟨pair, hPair, hHere⟩
    · rw [hSame]
      exact h.1 other hOther
  · intro kind hKind
    rcases mem_linkClosing hKind with
      hHere | ⟨other, hOther, hSame⟩
    · exact ⟨pair, hPair, hHere⟩
    · rw [hSame]
      exact h.2 other hOther

theorem StemsFrom.foldl
    {pairs : List BracketPair}
    (colorized : Bool)
    {linked : List BracketPair}
    {brackets : Brackets}
    (hLinked : ∀ pair ∈ linked, pair ∈ pairs)
    (h : brackets.StemsFrom pairs) :
    (linked.foldl (Brackets.link colorized)
      brackets).StemsFrom pairs := by
  induction linked generalizing brackets with
  | nil => exact h
  | cons pair rest ih =>
      rw [List.forall_mem_cons] at hLinked
      exact ih hLinked.2 (h.link colorized hLinked.1)

/- The kinds of a language have declared literals. -/
theorem stemsFrom_ofDeclaration
    (declaration : BracketDeclaration) :
    (ofDeclaration declaration).StemsFrom
      declaration.declared := by
  refine StemsFrom.foldl true
    (fun pair hPair => List.mem_append_right _ hPair)
    (StemsFrom.foldl false
      (fun pair hPair => List.mem_append_left _ hPair)
      ⟨?_, ?_⟩)
  · simp [empty]
  · simp [empty]

end Brackets

end Bracketry

------------------------------------------------------------
-- Tables of a Declaration
------------------------------------------------------------

namespace Bracketry

theorem byteSize_pos
    {text : List Char}
    (h : text ≠ []) :
    0 < Text.byteSize text := by
  rcases List.exists_cons_of_ne_nil h with ⟨c, rest, rfl⟩
  have hPos := Char.utf8Size_pos c
  rw [Text.byteSize]
  omega

theorem lowercase_ne_nil
    {text : List Char}
    (h : text ≠ []) :
    Text.lowercase text ≠ [] := by
  rcases List.exists_cons_of_ne_nil h with ⟨c, rest, rfl⟩
  rw [Text.lowercase, Text.lowercaseFrom]
  split_ifs <;> simp

namespace TokenTable

/- No key has a line break in it. -/
def IsFlat
    (table : TokenTable) :
    Prop :=
  ∀ entry ∈ table.entries, ∀ c ∈ entry.key, ¬IsBreak c

/- The table of the declared brackets. -/
def ofDeclaration
    (declaration : BracketDeclaration) :
    TokenTable :=
  ofBrackets (Brackets.ofDeclaration declaration)

/- An entry stems from a literal of a declared pair. -/
theorem exists_literal
    {declaration : BracketDeclaration}
    {entry : TokenEntry}
    (h : entry ∈ (ofDeclaration declaration).entries) :
    ∃ pair ∈ declaration.declared, ∃ literal,
      (literal = pair.opener ∨ literal = pair.closer) ∧
        entry.key = Text.lowercase literal ∧
        entry.bracket.length = literalLength literal ∧
        entry.bracket.kind.literal = literal := by
  rcases Brackets.stemsFrom_ofDeclaration declaration with
    ⟨hOpenings, hClosings⟩
  rcases exists_of_mem_entries h with
    ⟨kind, hKind, rfl⟩ | ⟨kind, hKind, rfl⟩
  · rcases hOpenings kind hKind with ⟨pair, hPair, hSame⟩
    exact ⟨pair, hPair, _, .inl hSame, rfl, rfl, rfl⟩
  · rcases hClosings kind hKind with ⟨pair, hPair, hSame⟩
    exact ⟨pair, hPair, _, .inr hSame, rfl, rfl, rfl⟩

/- Declared literals are not empty, on one line. -/
theorem isSolid_ofDeclaration
    (declaration : BracketDeclaration) :
    (ofDeclaration declaration).IsSolid := by
  intro entry hEntry
  rcases exists_literal hEntry with
    ⟨pair, hPair, literal, hLiteral, hKey, hLength, _⟩
  rcases BracketDeclaration.isValid_of_mem_declared hPair with
    ⟨hOpener, hCloser⟩
  have hSome : literal ≠ [] := by
    rcases hLiteral with rfl | rfl
    · exact hOpener
    · exact hCloser
  refine ⟨?_, rfl, ?_, ?_, ?_⟩
  · rw [hKey]
    exact lowercase_ne_nil hSome
  · exact isRegular_of_makes fun _ => ⟨entry, hEntry, rfl⟩
  · simp [TokenEntry.token, Token.length, hLength,
      literalLength]
  · simpa [TokenEntry.token, Token.length, hLength,
      literalLength] using byteSize_pos hSome

theorem isFlat_ofDeclaration
    {declaration : BracketDeclaration}
    (h : declaration.IsFlat) :
    (ofDeclaration declaration).IsFlat := by
  intro entry hEntry c hChar
  rcases exists_literal hEntry with
    ⟨pair, hPair, literal, hLiteral, hKey, _⟩
  rcases h pair hPair with ⟨hOpener, hCloser⟩
  rw [hKey] at hChar
  rcases hLiteral with rfl | rfl
  · exact not_isBreak_of_mem_lowercase hOpener hChar
  · exact not_isBreak_of_mem_lowercase hCloser hChar

end TokenTable

end Bracketry

------------------------------------------------------------
-- Matches
------------------------------------------------------------

namespace Bracketry

/- What folds as a text without line breaks has none. -/
theorem not_isBreak_of_fold
    {found literal : List Char}
    (hFold : found.map foldChar = literal.map foldChar)
    (hFlat : ∀ c ∈ literal, ¬IsBreak c) :
    ∀ c ∈ found, ¬IsBreak c := by
  intro c hChar hBreak
  have hMem : foldChar c ∈ literal.map foldChar := by
    rw [← hFold]
    exact List.mem_map_of_mem hChar
  rcases List.mem_map.1 hMem with ⟨d, hOther, hSame⟩
  rcases hBreak.eq_of_foldChar hSame with rfl
  exact hFlat d hOther hBreak

end Bracketry

------------------------------------------------------------
-- What a Scan Finds
------------------------------------------------------------

namespace Bracketry

open Measured

instance : Measured Char where
  size := Length.ofChar
  size_ne_zero := Length.ofChar_ne_zero

theorem extent_chars
    (text : List Char) :
    extent text = Length.ofText text := by
  induction text with
  | nil => rfl
  | cons c rest ih =>
      rw [extent_cons, ih, Length.ofText_cons]
      rfl

theorem ofText_of_flat
    {text : List Char}
    (h : ∀ c ∈ text, ¬IsBreak c) :
    Length.ofText text = ⟨0, Text.byteSize text⟩ := by
  induction text with
  | nil => rfl
  | cons c rest ih =>
      rw [List.forall_mem_cons] at h
      have hBreak : c ≠ '\n' := fun hSame => h.1 (.inl hSame)
      rw [Length.ofText_cons, ih h.2, Length.ofChar,
        if_neg hBreak, Length.add_def, if_pos rfl,
        Text.byteSize]

namespace Scan

/- The part is found between two others as a bracket. -/
def Finds
    (table : TokenTable)
    (before part behind : List Char)
    (token : Token) :
    Prop :=
  Pattern.firstAt? (searched table) before.getLast?
      (part ++ behind) = some (part, behind) ∧
    part ∉ lineBreaks ∧
    table.tokenOfMatch? part = some token

/-
  A scan passes the part without finding a bracket: over
  characters where nothing matches, line breaks, and matches
  that are no tokens.
-/
inductive Passes
    (table : TokenTable)
    (before : List Char) :
    List Char → List Char → Prop where
  | stay {behind} : Passes table before [] behind
  | step {part behind} (c : Char)
      (hPart : Passes table before part (c :: behind))
      (hNone :
        Pattern.firstAt? (searched table)
          (before ++ part).getLast? (c :: behind) = none) :
      Passes table before (part ++ [c]) behind
  | jump {part behind} (found : List Char)
      (hPart : Passes table before part (found ++ behind))
      (hFound :
        Pattern.firstAt? (searched table)
            (before ++ part).getLast? (found ++ behind) =
          some (found, behind))
      (hNone :
        found ∈ lineBreaks ∨
          table.tokenOfMatch? found = none) :
      Passes table before (part ++ found) behind

/-
  What the tokens of a scan stand for.  Text ends where a
  bracket is found or the whole text ends.
-/
def Shows
    (table : TokenTable)
    (before part behind : List Char) :
    Token → Prop
  | .text _ =>
      Passes table before part behind ∧
        (behind = [] ∨
          ∃ found rest token,
            behind = found ++ rest ∧
              Finds table (before ++ part) found rest token)
  | .bracket leaf id =>
      Finds table before part behind (.bracket leaf id)

variable {table : TokenTable}

/- Characters that belong to the last match are passed. -/
theorem tokensFrom_skip
    (before : Option Char)
    (pending : Length)
    (passed rest : List Char) :
    tokensFrom table before pending passed.length
        (passed ++ rest) =
      tokensFrom table (passed.getLast?.or before) pending 0
        rest := by
  induction passed generalizing before with
  | nil => rfl
  | cons c others ih =>
      rw [List.cons_append, tokensFrom, List.length_cons,
        if_pos (Nat.succ_ne_zero _), Nat.add_sub_cancel, ih,
        Pattern.getLast?_cons_or]

/- Only a line break folds to one. -/
theorem eq_of_fold_lineBreak
    {found literal : List Char}
    (hBreak : literal ∈ lineBreaks)
    (hFold : found.map foldChar = literal.map foldChar) :
    found = literal := by
  have hAll : ∀ c ∈ literal, IsBreak c := by
    simp only [lineBreaks, List.mem_cons,
      List.not_mem_nil, or_false] at hBreak
    rcases hBreak with rfl | rfl <;> simp [IsBreak]
  clear hBreak
  induction literal generalizing found with
  | nil => exact List.map_eq_nil_iff.1 hFold
  | cons d others ih =>
      rcases List.map_eq_cons_iff.1 hFold with
        ⟨c, more, rfl, hHead, hTail⟩
      rw [List.forall_mem_cons] at hAll
      rw [hAll.1.eq_of_foldChar hHead, ih hTail hAll.2]

/- A literal of a scan is a line break or a key. -/
theorem of_firstAt?
    {before : Option Char}
    {text found rest : List Char}
    (hSolid : table.IsSolid)
    (hFlat : table.IsFlat)
    (h :
      Pattern.firstAt? (searched table) before text =
        some (found, rest)) :
    text = found ++ rest ∧ found ≠ [] ∧
      (found ∈ lineBreaks ∨ ∀ c ∈ found, ¬IsBreak c) := by
  rcases Pattern.exists_of_firstAt? h with
    ⟨hText, literal, hLiteral, hFold⟩
  have hLength := congrArg List.length hFold
  rw [List.length_map, List.length_map] at hLength
  rw [searched, List.mem_append] at hLiteral
  rcases hLiteral with hKey | hBreak
  · rcases List.mem_map.1 hKey with ⟨entry, hEntry, rfl⟩
    refine ⟨hText, ?_,
      .inr (not_isBreak_of_fold hFold (hFlat entry hEntry))⟩
    rintro rfl
    exact (hSolid entry hEntry).1
      (List.length_eq_zero_iff.1 hLength.symm)
  · rcases eq_of_fold_lineBreak hBreak hFold with rfl
    refine ⟨hText, ?_, .inl hBreak⟩
    rintro rfl
    simp [lineBreaks] at hBreak

/- A line break is always found. -/
theorem firstAt?_break_ne
    {found : List Char}
    (hBreak : found ∈ lineBreaks)
    (before : Option Char)
    (rest : List Char) :
    Pattern.firstAt? (searched table) before
      (found ++ rest) ≠ none := by
  intro hNone
  have hHere :=
    List.findSome?_eq_none_iff.1 hNone found
      (List.mem_append_right _ hBreak)
  have hFeed : Pattern.asksBoundary '\n' = false := by
    decide +kernel
  have hReturn : Pattern.asksBoundary '\r' = false := by
    decide +kernel
  simp only [lineBreaks, List.mem_cons, List.not_mem_nil,
    or_false] at hBreak
  rcases hBreak with rfl | rfl <;>
    simp [Pattern.matchAt?, Pattern.startAllowed,
      Pattern.endAllowed, Pattern.strip?, hFeed, hReturn]
      at hHere

end Scan

end Bracketry

------------------------------------------------------------
-- The Tokens of a Scan
------------------------------------------------------------

namespace Bracketry

open Measured

namespace Scan

variable {table : TokenTable}

/- What a scan does with a match in front of it. -/
theorem tokensFrom_match
    {before : Option Char}
    {pending : Length}
    {found behind : List Char}
    (hSome : found ≠ [])
    (hFound :
      Pattern.firstAt? (searched table) before
          (found ++ behind) = some (found, behind)) :
    tokensFrom table before pending 0 (found ++ behind) =
      if found ∈ lineBreaks then
        tokensFrom table found.getLast? (pending + ⟨1, 0⟩) 0
          behind
      else
        match table.tokenOfMatch? found with
        | none =>
            tokensFrom table found.getLast?
              (pending + ⟨0, Text.byteSize found⟩) 0 behind
        | some token =>
            flushText pending ++
              token ::
                tokensFrom table found.getLast? 0 0
                  behind := by
  rcases List.exists_cons_of_ne_nil hSome with ⟨c, others, rfl⟩
  have hSkip :
      ∀ pending : Length,
        tokensFrom table (some c) pending
            ((c :: others).length - 1) (others ++ behind) =
          tokensFrom table (c :: others).getLast? pending 0
            behind := by
    intro pending
    rw [List.length_cons, Nat.add_sub_cancel,
      tokensFrom_skip, ← Pattern.getLast?_cons_or c others none,
      Option.or_none]
  rw [List.cons_append] at hFound ⊢
  rw [tokensFrom, if_neg (by simp)]
  simp only [hFound, hSkip]
  by_cases hBreak : c :: others ∈ lineBreaks
  · rw [if_pos hBreak]
    exact if_pos (List.contains_iff_mem.2 hBreak)
  · rw [if_neg hBreak]
    exact if_neg (mt List.contains_iff_mem.1 hBreak)

/- Text that was passed is spelled when it is flushed. -/
theorem spells_flushText
    {before pend behind : List Char}
    (hPasses : Passes table before pend behind)
    (hEnd :
      behind = [] ∨
        ∃ found rest token,
          behind = found ++ rest ∧
            Finds table (before ++ pend) found rest token) :
    Spells (Shows table) before
      (flushText (Length.ofText pend)) pend behind := by
  rw [← extent_chars]
  unfold flushText
  by_cases hNil : pend = []
  · subst hNil
    simp [Spells]
  · rw [if_neg (mt extent_eq_zero.1 hNil)]
    exact ⟨pend, [], by simp, hNil, rfl, ⟨hPasses, hEnd⟩, rfl⟩

/-
  A scan that passed some text spells it together with what
  is ahead.  The induction is on what is ahead; a match is
  passed in one step.
-/
theorem spells_tokensFrom
    (hSolid : table.IsSolid)
    (hFlat : table.IsFlat)
    {before pend ahead : List Char}
    (hPasses : Passes table before pend ahead) :
    Spells (Shows table) before
      (tokensFrom table (before ++ pend).getLast?
        (Length.ofText pend) 0 ahead) (pend ++ ahead) [] := by
  induction hSize : ahead.length using Nat.strongRecOn
    generalizing before pend ahead with
  | ind size ih =>
  subst hSize
  cases hFirst :
      Pattern.firstAt? (searched table)
        (before ++ pend).getLast? ahead with
  | none =>
      cases ahead with
      | nil =>
          rw [tokensFrom, List.append_nil]
          exact spells_flushText hPasses (.inl rfl)
      | cons c rest =>
          have hBreak : c ≠ '\n' := by
            rintro rfl
            have hFeed : ['\n'] ∈ lineBreaks := by decide
            exact firstAt?_break_ne hFeed _ _ hFirst
          have hStep :=
            ih rest.length (by simp) (hPasses.step c hFirst)
              rfl
          rw [tokensFrom, if_neg (by simp)]
          simp only [hFirst]
          rw [Length.ofText_append, ← List.append_assoc,
            List.getLast?_concat, List.append_assoc]
            at hStep
          rw [show Length.ofText [c] = ⟨0, c.utf8Size⟩ by
            simp [Length.ofText_cons, Length.ofChar, hBreak]]
            at hStep
          exact hStep
  | some match_ =>
      rcases match_ with ⟨found, behind⟩
      rcases of_firstAt? hSolid hFlat hFirst with
        ⟨rfl, hSome, hKind⟩
      have hLess : behind.length < (found ++ behind).length := by
        have hPos := List.length_pos_of_ne_nil hSome
        rw [List.length_append]
        omega
      have hLast :
          (before ++ (pend ++ found)).getLast? =
            found.getLast? := by
        rw [← List.append_assoc,
          List.getLast?_append_of_ne_nil _ hSome]
      have hJump :
          ∀ length : Length,
            Length.ofText found = length →
              (found ∈ lineBreaks ∨
                table.tokenOfMatch? found = none) →
              Spells (Shows table) before
                (tokensFrom table found.getLast?
                  (Length.ofText pend + length) 0 behind)
                (pend ++ (found ++ behind)) [] := by
        rintro _ rfl hNone
        have hStep :=
          ih behind.length hLess
            (hPasses.jump found hFirst hNone) rfl
        rwa [Length.ofText_append, hLast,
          List.append_assoc] at hStep
      rw [tokensFrom_match hSome hFirst]
      split_ifs with hBreak
      · refine hJump _ ?_ (.inl hBreak)
        simp only [lineBreaks, List.mem_cons,
          List.not_mem_nil, or_false] at hBreak
        rcases hBreak with rfl | rfl <;> rfl
      · have hNoBreak := hKind.resolve_left hBreak
        split
        · rename_i hToken
          exact hJump _ (ofText_of_flat hNoBreak)
            (.inr hToken)
        · rename_i token hToken
          have hFinds :
              Finds table (before ++ pend) found behind
                token :=
            ⟨hFirst, hBreak, hToken⟩
          have hSizes :=
            (TokenTable.of_tokenOfMatch? hToken).2
          have hLiteral := hSolid.isLiteral hToken
          have hStay :
              ∀ passed, Passes table passed [] behind :=
            fun _ => .stay
          have hRest :=
            ih behind.length hLess
              (hStay (before ++ pend ++ found)) rfl
          rw [List.append_nil, List.nil_append,
            List.getLast?_append_of_ne_nil _ hSome] at hRest
          refine spells_append.2
            ⟨pend, found ++ behind, rfl, ?_, found, behind,
              rfl, hSome, ?_, ?_, hRest⟩
          · rw [List.append_nil]
            exact spells_flushText hPasses
              (.inr ⟨found, behind, token, rfl, hFinds⟩)
          · rw [extent_chars, ofText_of_flat hNoBreak, ← hSizes,
              ← hLiteral.length_eq]
          · rw [List.append_nil]
            cases token with
            | text length => cases hLiteral.isBracket
            | bracket leaf id => exact hFinds

/- The tokens of a text spell the text. -/
theorem spells_tokens
    (hSolid : table.IsSolid)
    (hFlat : table.IsFlat)
    (text : List Char) :
    Spells (Shows table) [] (tokens table text) text [] :=
  spells_tokensFrom hSolid hFlat
    (.stay : Passes table [] [] text)

end Scan

end Bracketry
