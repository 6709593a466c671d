import Bracketry.Proofs.CodeRuns
import Bracketry.Proofs.Kinds

/-
  The longest literal at the first place.

  The keys of a table descend, and a literal comes behind
  those that continue it.  So where literals are tried in
  their order, what matches first is the longest match.  In
  ASCII a literal matches just where it stands: the text has
  the same letters there, and words end where the literal
  asks for it.  A search finds the first of these places.

  Key definitions include:
    * `isWord`, `IsWordEdge`
    * `StandsAt`
    * `BracketDeclaration.literals`

  Main declarations:
    * `Pattern.matchAt?_eq_some_iff`
    * `Pattern.firstAt?_none_of_find?`
    * `TokenTable.find?_longest`
-/

------------------------------------------------------------
-- Characters of ASCII
------------------------------------------------------------

namespace Bracketry

/- An ASCII letter, digit or underscore. -/
def isWord
    (c : Char) :
    Bool :=
  c.isAlphanum || c == '_'

/- What holds of the ASCII codes holds of the characters. -/
theorem ascii_induction
    (holds : Char → Prop)
    (hAll : ∀ code < 128, holds (Char.ofNat code))
    {c : Char}
    (hAscii : c.toNat < 128) :
    holds c := by
  have hCode := hAll c.toNat hAscii
  rwa [Char.ofNat_toNat] at hCode

variable {c : Char}

theorem foldChar_eq_toLower :
    c.toNat < 128 → foldChar c = c.toLower :=
  ascii_induction (fun c => foldChar c = c.toLower)
    (by decide +kernel)

theorem asksBoundary_eq_isWord :
    c.toNat < 128 → Pattern.asksBoundary c = isWord c :=
  ascii_induction (fun c => Pattern.asksBoundary c = isWord c)
    (by decide +kernel)

theorem isWordChar_eq_isWord :
    c.toNat < 128 → isWordChar c = isWord c :=
  ascii_induction (fun c => isWordChar c = isWord c)
    (by decide +kernel)

theorem isWord_toLower :
    c.toNat < 128 → isWord c.toLower = isWord c :=
  ascii_induction (fun c => isWord c.toLower = isWord c)
    (by decide +kernel)

theorem toNat_toLower_lt :
    c.toNat < 128 → c.toLower.toNat < 128 :=
  ascii_induction (fun c => c.toLower.toNat < 128)
    (by decide +kernel)

theorem toLower_toLower :
    c.toNat < 128 → c.toLower.toLower = c.toLower :=
  ascii_induction (fun c => c.toLower.toLower = c.toLower)
    (by decide +kernel)

namespace Text

variable {text : List Char}

theorem IsAscii.map_foldChar
    (h : IsAscii text) :
    text.map foldChar = text.map Char.toLower :=
  List.map_congr_left fun c hChar =>
    foldChar_eq_toLower (h c hChar)

theorem IsAscii.lowercase_eq_map_toLower
    (h : IsAscii text) :
    lowercase text = text.map Char.toLower := by
  rw [h.lowercase_eq, h.map_foldChar]

theorem IsAscii.map_toLower
    (h : IsAscii text) :
    IsAscii (text.map Char.toLower) := by
  intro c hChar
  rcases List.mem_map.1 hChar with ⟨d, hOther, rfl⟩
  exact toNat_toLower_lt (h d hOther)

theorem IsAscii.map_toLower_twice
    (h : IsAscii text) :
    (text.map Char.toLower).map Char.toLower =
      text.map Char.toLower := by
  rw [List.map_map]
  exact List.map_congr_left fun c hChar =>
    toLower_toLower (h c hChar)

theorem IsAscii.drop
    (h : IsAscii text)
    (count : Nat) :
    IsAscii (text.drop count) :=
  fun c hChar => h c (List.mem_of_mem_drop hChar)

theorem IsAscii.take
    (h : IsAscii text)
    (count : Nat) :
    IsAscii (text.take count) :=
  fun c hChar => h c (List.mem_of_mem_take hChar)

end Text

end Bracketry

------------------------------------------------------------
-- Where a Literal Stands
------------------------------------------------------------

namespace Bracketry

/- The character at a place belongs to a word. -/
def wordAt
    (text : List Char)
    (place : Nat) :
    Bool :=
  text[place]?.any isWord

/- A word starts or ends in front of a place. -/
def IsWordEdge
    (line : List Char)
    (place : Nat) :
    Prop :=
  (0 < place ∧ wordAt line (place - 1) = true) ↔
    wordAt line place = false

instance
    (line : List Char)
    (place : Nat) :
    Decidable (IsWordEdge line place) :=
  inferInstanceAs (Decidable (_ ↔ _))

/-
  A literal stands at a place of a line, in any case.  An end
  of it that belongs to a word is the end of a word.
-/
def StandsAt
    (line : List Char)
    (place : Nat)
    (literal : List Char) :
    Prop :=
  ((line.drop place).take literal.length).map
      Char.toLower = literal.map Char.toLower ∧
    (literal.head?.any isWord = true →
      IsWordEdge line place) ∧
    (literal.getLast?.any isWord = true →
      IsWordEdge line (place + literal.length))

instance
    (line : List Char)
    (place : Nat)
    (literal : List Char) :
    Decidable (StandsAt line place literal) :=
  inferInstanceAs (Decidable (_ ∧ _))

namespace Pattern

variable {line literal found rest : List Char} {place : Nat}

theorem inWord_take
    (hLine : Text.IsAscii line)
    (hPlace : place ≤ line.length) :
    inWord (line.take place).getLast? = true ↔
      0 < place ∧ wordAt line (place - 1) = true := by
  cases place with
  | zero => simp [inWord]
  | succ last =>
      have hLess : last < line.length := hPlace
      have hWord :=
        isWordChar_eq_isWord (hLine _ (List.getElem_mem hLess))
      rw [List.getLast?_take, if_neg (Nat.succ_ne_zero _),
        Nat.add_sub_cancel, wordAt,
        List.getElem?_eq_getElem hLess, Option.some_or,
        Option.any_some, inWord, hWord]
      exact (and_iff_right (Nat.succ_pos last)).symm

theorem inWord_drop
    (hLine : Text.IsAscii line) :
    inWord (line.drop place).head? = wordAt line place := by
  rw [List.head?_drop, wordAt]
  cases hChar : (line)[place]? with
  | none => rfl
  | some c =>
      exact isWordChar_eq_isWord
        (hLine c (List.mem_of_getElem? hChar))

theorem isBoundary_iff
    (hLine : Text.IsAscii line)
    (hPlace : place ≤ line.length) :
    isBoundary (line.take place).getLast?
        (line.drop place).head? = true ↔
      IsWordEdge line place := by
  rw [isBoundary, inWord_drop hLine, IsWordEdge,
    ← inWord_take hLine hPlace]
  cases inWord (line.take place).getLast? <;>
    cases wordAt line place <;> simp

theorem startAllowed_iff
    (hLine : Text.IsAscii line)
    (hLiteral : Text.IsAscii literal)
    (hPlace : place ≤ line.length) :
    startAllowed (line.take place).getLast? literal
        (line.drop place) = true ↔
      (literal.head?.any isWord = true →
        IsWordEdge line place) := by
  unfold startAllowed
  cases hHead : literal.head? with
  | none => simp
  | some c =>
      have hChar := hLiteral c (List.mem_of_head? hHead)
      simp only [Bool.or_eq_true, Bool.not_eq_true',
        isBoundary_iff hLine hPlace,
        asksBoundary_eq_isWord hChar, Option.any_some]
      cases isWord c <;> simp

theorem endAllowed_iff
    (hLine : Text.IsAscii line)
    (hLiteral : Text.IsAscii literal)
    (hPlace : place + literal.length ≤ line.length) :
    endAllowed (line.take place).getLast? literal
        ((line.drop place).take literal.length)
        (line.drop (place + literal.length)) = true ↔
      (literal.getLast?.any isWord = true →
        IsWordEdge line (place + literal.length)) := by
  have hBefore :
      ((line.drop place).take
            literal.length).getLast?.or
          (line.take place).getLast? =
        (line.take (place + literal.length)).getLast? := by
    rw [List.take_add, List.getLast?_append]
  unfold endAllowed
  cases hLast : literal.getLast? with
  | none => simp
  | some c =>
      have hChar := hLiteral c (List.mem_of_getLast? hLast)
      simp only [Bool.or_eq_true, Bool.not_eq_true', hBefore,
        isBoundary_iff hLine hPlace,
        asksBoundary_eq_isWord hChar, Option.any_some]
      cases isWord c <;> simp

/- In ASCII, a literal matches just where it stands. -/
theorem matchAt?_eq_some_iff
    (hLine : Text.IsAscii line)
    (hLiteral : Text.IsAscii literal)
    (hPlace : place ≤ line.length) :
    matchAt? (line.take place).getLast? (line.drop place)
        literal = some (found, rest) ↔
      StandsAt line place literal ∧
        found = (line.drop place).take literal.length ∧
        rest = line.drop (place + literal.length) := by
  have hStart := startAllowed_iff hLine hLiteral hPlace
  have hEnd : place + literal.length ≤ line.length → _ :=
    endAllowed_iff hLine hLiteral
  constructor
  · intro hMatch
    rcases matchAt?_eq_some.1 hMatch with
      ⟨hStarts, hStrip, hEnds⟩
    rcases strip?_eq_some_iff.1 hStrip with ⟨hText, hFold⟩
    have hLength := length_of_strip? hStrip
    have hFound :
        found = (line.drop place).take literal.length := by
      rw [hText, List.take_left' hLength]
    have hRest :
        rest = line.drop (place + literal.length) := by
      rw [← List.drop_drop, hText, List.drop_left' hLength]
    have hFits : place + literal.length ≤ line.length := by
      have hWhole := congrArg List.length hText
      rw [List.length_drop, List.length_append] at hWhole
      omega
    have hAscii : Text.IsAscii found := by
      rw [hFound]
      exact (hLine.drop place).take literal.length
    rw [hAscii.map_foldChar, hLiteral.map_foldChar] at hFold
    rw [hFound, hRest] at hEnds
    refine ⟨⟨?_, hStart.1 hStarts, (hEnd hFits).1 hEnds⟩,
      hFound, hRest⟩
    rw [← hFound]
    exact hFold
  · rintro ⟨⟨hSame, hStarts, hEnds⟩, rfl, rfl⟩
    have hAscii :
        Text.IsAscii ((line.drop place).take literal.length) :=
      (hLine.drop place).take literal.length
    have hFits : place + literal.length ≤ line.length := by
      have hLength := congrArg List.length hSame
      rw [List.length_map, List.length_map, List.length_take,
        List.length_drop] at hLength
      omega
    refine matchAt?_eq_some.2 ⟨hStart.2 hStarts,
      strip?_eq_some_iff.2 ⟨?_, ?_⟩, (hEnd hFits).2 hEnds⟩
    · rw [← List.drop_drop, List.take_append_drop]
    · rw [hAscii.map_foldChar, hLiteral.map_foldChar]
      exact hSame

end Pattern

end Bracketry

------------------------------------------------------------
-- The First Place and the Longest Literal
------------------------------------------------------------

namespace Bracketry

namespace Pattern

variable {literals : List (List Char)}
variable {line text found rest : List Char}

/- A search passes no place where some literal matches. -/
theorem firstAt?_none_of_find?
    {before : Option Char}
    {place : Nat}
    (hPlace :
      place <
        (find? literals before text).elim text.length
          (·.skipped.length)) :
    firstAt? literals ((text.take place).getLast?.or before)
      (text.drop place) = none := by
  induction text generalizing before place with
  | nil => exact absurd hPlace (Nat.not_lt_zero place)
  | cons c rest ih =>
      unfold find? at hPlace
      cases hFirst : firstAt? literals before (c :: rest) with
      | some match_ =>
          rw [hFirst] at hPlace
          exact absurd hPlace (Nat.not_lt_zero place)
      | none =>
          cases place with
          | zero =>
              rw [List.take_zero, List.drop_zero,
                List.getLast?_nil, Option.none_or]
              exact hFirst
          | succ later =>
              rw [List.take_succ_cons, getLast?_cons_or,
                List.drop_succ_cons]
              apply ih
              rw [hFirst] at hPlace
              cases hRest : find? literals (some c) rest with
              | none =>
                  simp only [hRest, Option.elim_none,
                    List.length_cons] at hPlace ⊢
                  omega
              | some match_ =>
                  simp only [hRest, Option.elim_some,
                    List.length_cons] at hPlace ⊢
                  omega

/- The first match from a place lies behind what it skips. -/
theorem find?_eq_some_cut
    {start : Nat}
    {match_ : Found}
    (hStart : start ≤ line.length)
    (hFind :
      find? literals (line.take start).getLast?
        (line.drop start) = some match_) :
    let place := start + match_.skipped.length
    place ≤ line.length ∧
      match_.skipped =
        (line.drop start).take match_.skipped.length ∧
      ∃ rest,
        firstAt? literals (line.take place).getLast?
          (line.drop place) = some (match_.found, rest) := by
  intro place
  rcases exists_of_find? hFind with ⟨rest, hText, hFirst⟩
  have hSkipped :
      match_.skipped =
        (line.drop start).take match_.skipped.length := by
    rw [hText, List.take_left' rfl]
  have hAhead : match_.found ++ rest = line.drop place := by
    rw [← List.drop_drop, hText, List.drop_left' rfl]
  have hPlace : place ≤ line.length := by
    have hLength := congrArg List.length hText
    rw [List.length_drop, List.length_append] at hLength
    omega
  rw [hAhead, hSkipped, ← List.getLast?_append,
    ← List.take_add] at hFirst
  exact ⟨hPlace, hSkipped, rest, hFirst⟩

/-
  Where literals in lower case descend, the first of them to
  match is the longest.  A longer one that stands here would
  continue it, and so would have been tried before.
-/
theorem longest_of_firstAt?
    {place : Nat}
    (hLine : Text.IsAscii line)
    (hLiterals :
      ∀ literal ∈ literals,
        Text.IsAscii literal ∧
          literal.map Char.toLower = literal)
    (hDescends : literals.Pairwise fun a b => b < a)
    (hPlace : place ≤ line.length)
    (h :
      firstAt? literals (line.take place).getLast?
          (line.drop place) = some (found, rest)) :
    ∃ literal ∈ literals,
      StandsAt line place literal ∧
        found = (line.drop place).take literal.length ∧
        ∀ other ∈ literals, StandsAt line place other →
          other.length ≤ literal.length := by
  rcases List.findSome?_eq_some_iff.1 h with
    ⟨earlier, literal, later, rfl, hMatch, hEarlier⟩
  have hMem : literal ∈ earlier ++ literal :: later := by simp
  rcases hLiterals literal hMem with ⟨hAscii, hLower⟩
  rcases (matchAt?_eq_some_iff hLine hAscii hPlace).1
      hMatch with
    ⟨hStands, hFound, _⟩
  refine ⟨literal, hMem, hStands, hFound, ?_⟩
  intro other hOther hOtherStands
  rcases hLiterals other hOther with ⟨hOtherAscii, hOtherLower⟩
  rcases List.mem_append.1 hOther with hBefore | hBehind
  · have hSome :=
      (matchAt?_eq_some_iff hLine hOtherAscii hPlace).2
        ⟨hOtherStands, rfl, rfl⟩
    rw [hEarlier other hBefore] at hSome
    cases hSome
  · rcases List.mem_cons.1 hBehind with rfl | hLater
    · exact Nat.le_refl _
    · have hLess : other < literal :=
        (List.pairwise_cons.1
          (List.pairwise_append.1 hDescends).2.1).1 other
          hLater
      by_contra hLonger
      have hStarts : literal <+: other := by
        rw [← hLower, ← hOtherLower, ← hStands.1,
          ← hOtherStands.1]
        exact (List.take_prefix_take_left (by omega)).map _
      exact List.not_lt.2 hStarts.le hLess

end Pattern

end Bracketry

------------------------------------------------------------
-- Declared Literals
------------------------------------------------------------

namespace Bracketry

namespace BracketDeclaration

/- The literals of the declared pairs. -/
def literals
    (declaration : BracketDeclaration) :
    List (List Char) :=
  declaration.declared.flatMap fun pair =>
    [pair.opener, pair.closer]

variable {declaration : BracketDeclaration}
variable {literal : List Char}

theorem mem_literals_iff :
    literal ∈ declaration.literals ↔
      ∃ pair ∈ declaration.declared,
        literal = pair.opener ∨ literal = pair.closer := by
  simp [literals]

theorem IsAscii.of_mem_literals
    (h : declaration.IsAscii)
    (hLiteral : literal ∈ declaration.literals) :
    Text.IsAscii literal := by
  rcases mem_literals_iff.1 hLiteral with ⟨pair, hPair, hSide⟩
  rcases hSide with rfl | rfl
  · exact (h pair hPair).1
  · exact (h pair hPair).2

theorem ne_nil_of_mem_literals
    (hLiteral : literal ∈ declaration.literals) :
    literal ≠ [] := by
  rcases mem_literals_iff.1 hLiteral with ⟨pair, hPair, hSide⟩
  rcases isValid_of_mem_declared hPair with ⟨hOpener, hCloser⟩
  rcases hSide with rfl | rfl
  · exact hOpener
  · exact hCloser

end BracketDeclaration

/- Whether a literal stands does not depend on its case. -/
theorem standsAt_map_toLower
    {line literal : List Char}
    {place : Nat}
    (h : Text.IsAscii literal) :
    StandsAt line place (literal.map Char.toLower) ↔
      StandsAt line place literal := by
  have hWord :
      ∀ char : Option Char, (∀ c ∈ char, c ∈ literal) →
        (char.map Char.toLower).any isWord =
          char.any isWord := by
    rintro (_ | c) hMem
    · rfl
    · exact isWord_toLower (h c (hMem c rfl))
  unfold StandsAt
  rw [List.length_map, h.map_toLower_twice, List.head?_map,
    List.getLast?_map,
    hWord _ fun _ hHead => List.mem_of_head? hHead,
    hWord _ fun _ hLast => List.mem_of_getLast? hLast]

/- Behind the end of a line no literal stands. -/
theorem not_standsAt_of_length_le
    {line literal : List Char}
    {place : Nat}
    (hSome : literal ≠ [])
    (hPlace : line.length ≤ place) :
    ¬StandsAt line place literal := by
  rintro ⟨hSame, _⟩
  rw [List.drop_eq_nil_of_le hPlace, List.take_nil,
    List.map_nil] at hSame
  exact hSome (List.map_eq_nil_iff.1 hSame.symm)

namespace TokenTable

variable {declaration : BracketDeclaration}

/- An entry is of a kind with a declared literal. -/
theorem literal_mem_literals
    {entry : TokenEntry}
    (h : entry ∈ (ofDeclaration declaration).entries) :
    entry.bracket.kind.literal ∈ declaration.literals := by
  rcases exists_literal h with
    ⟨pair, hPair, literal, hLiteral, _, _, hSame⟩
  rw [hSame]
  exact BracketDeclaration.mem_literals_iff.2
    ⟨pair, hPair, hLiteral⟩

theorem lowercase_mem_literals
    {literal : List Char}
    (h : literal ∈ declaration.literals) :
    Text.lowercase literal ∈
      (ofDeclaration declaration).literals := by
  have hEntry :
      ∃ entry,
        entry? (ofDeclaration declaration)
          (Text.lowercase literal) = some entry := by
    rcases BracketDeclaration.mem_literals_iff.1 h with
      ⟨pair, hPair, hSide⟩
    unfold ofDeclaration
    rw [entry?_eq]
    rcases hSide with rfl | rfl
    · rcases Brackets.opens_ofDeclaration.2 hPair with
        ⟨kind, hKind, hSame, _⟩
      rcases Brackets.exists_lastOpening? hKind with
        ⟨last, hLast⟩
      rw [← hSame, hLast, Option.map_some]
      cases (Brackets.ofDeclaration declaration).lastClosing?
          (Text.lowercase kind.literal) with
      | none => exact ⟨_, rfl⟩
      | some other => exact ⟨_, rfl⟩
    · rcases Brackets.closes_ofDeclaration.2 hPair with
        ⟨kind, hKind, hSame, _⟩
      rcases Brackets.exists_lastClosing? hKind with
        ⟨last, hLast⟩
      rw [← hSame, hLast]
      exact ⟨_, rfl⟩
  rcases hEntry with ⟨entry, hFound⟩
  have hKey := List.find?_some hFound
  exact List.mem_map.2
    ⟨entry, List.mem_of_find?_eq_some hFound,
      beq_iff_eq.1 hKey⟩

/- The keys are the declared literals in lower case. -/
theorem mem_literals_iff
    {key : List Char} :
    key ∈ (ofDeclaration declaration).literals ↔
      ∃ literal ∈ declaration.literals,
        Text.lowercase literal = key := by
  constructor
  · intro hKey
    rcases List.mem_map.1 hKey with ⟨entry, hEntry, rfl⟩
    exact ⟨_, literal_mem_literals hEntry,
      (key_eq_lowercase hEntry).symm⟩
  · rintro ⟨literal, hLiteral, rfl⟩
    exact lowercase_mem_literals hLiteral

theorem pairwise_literals
    (brackets : Brackets) :
    (ofBrackets brackets).literals.Pairwise
      fun a b => b < a :=
  List.pairwise_map.2 (areDescending_ofBrackets brackets)

/- The keys of ASCII literals are ASCII in lower case. -/
theorem isAscii_of_mem_literals
    {key : List Char}
    (hDeclaration : declaration.IsAscii)
    (hKey : key ∈ (ofDeclaration declaration).literals) :
    Text.IsAscii key ∧ key.map Char.toLower = key := by
  rcases mem_literals_iff.1 hKey with ⟨literal, hLiteral, rfl⟩
  have hAscii := hDeclaration.of_mem_literals hLiteral
  rw [hAscii.lowercase_eq_map_toLower]
  exact ⟨hAscii.map_toLower, hAscii.map_toLower_twice⟩

variable {line found : List Char} {place : Nat}

/- Where no key matches, no declared literal stands. -/
theorem not_standsAt_of_firstAt?
    {literal : List Char}
    (hDeclaration : declaration.IsAscii)
    (hLine : Text.IsAscii line)
    (hPlace : place ≤ line.length)
    (hLiteral : literal ∈ declaration.literals)
    (h :
      Pattern.firstAt? (ofDeclaration declaration).literals
        (line.take place).getLast? (line.drop place) =
          none) :
    ¬StandsAt line place literal := by
  intro hStands
  have hAscii := hDeclaration.of_mem_literals hLiteral
  have hNone :=
    List.findSome?_eq_none_iff.1 h _
      (lowercase_mem_literals hLiteral)
  rw [hAscii.lowercase_eq_map_toLower] at hNone
  have hSome :=
    (Pattern.matchAt?_eq_some_iff hLine hAscii.map_toLower
      hPlace).2
      ⟨(standsAt_map_toLower hAscii).2 hStands, rfl, rfl⟩
  rw [hNone] at hSome
  cases hSome

/- A search passes no place where a literal stands. -/
theorem not_standsAt_of_passed
    {start : Nat}
    {literal : List Char}
    (hDeclaration : declaration.IsAscii)
    (hLine : Text.IsAscii line)
    (hPlace : start ≤ place)
    (hPassed :
      place - start <
        (Pattern.find? (ofDeclaration declaration).literals
            (line.take start).getLast? (line.drop start)).elim
          (line.drop start).length (·.skipped.length))
    (hLiteral : literal ∈ declaration.literals) :
    ¬StandsAt line place literal := by
  by_cases hInside : place ≤ line.length
  · have hNone := Pattern.firstAt?_none_of_find? hPassed
    rw [List.drop_drop, ← List.getLast?_append,
      ← List.take_add, Nat.add_sub_cancel' hPlace] at hNone
    exact not_standsAt_of_firstAt? hDeclaration hLine hInside
      hLiteral hNone
  · exact not_standsAt_of_length_le
      (BracketDeclaration.ne_nil_of_mem_literals hLiteral)
      (by omega)

/- The first key to match is of the longest literal there. -/
theorem exists_longest_of_firstAt?
    {rest : List Char}
    (hDeclaration : declaration.IsAscii)
    (hLine : Text.IsAscii line)
    (hPlace : place ≤ line.length)
    (h :
      Pattern.firstAt? (ofDeclaration declaration).literals
        (line.take place).getLast? (line.drop place) =
          some (found, rest)) :
    ∃ literal ∈ declaration.literals,
      StandsAt line place literal ∧
        found = (line.drop place).take literal.length ∧
        ∀ other ∈ declaration.literals,
          StandsAt line place other →
            other.length ≤ literal.length := by
  rcases Pattern.longest_of_firstAt? hLine
      (fun key => isAscii_of_mem_literals hDeclaration)
      (pairwise_literals _) hPlace h with
    ⟨key, hKey, hStands, hFound, hLongest⟩
  rcases mem_literals_iff.1 hKey with ⟨literal, hLiteral, rfl⟩
  have hAscii := hDeclaration.of_mem_literals hLiteral
  have hLower := hAscii.lowercase_eq_map_toLower
  rw [hLower, standsAt_map_toLower hAscii] at hStands
  rw [hLower, List.length_map] at hFound hLongest
  refine ⟨literal, hLiteral, hStands, hFound, ?_⟩
  intro other hOther hOtherStands
  have hOtherAscii := hDeclaration.of_mem_literals hOther
  have hLonger := hLongest _ (lowercase_mem_literals hOther)
  rw [hOtherAscii.lowercase_eq_map_toLower,
    standsAt_map_toLower hOtherAscii,
    List.length_map] at hLonger
  exact hLonger hOtherStands

/- What stands for a literal has a token of the literal. -/
theorem exists_token_of_fold
    {literal : List Char}
    (hDeclaration : declaration.IsAscii)
    (hFound : Text.IsAscii found)
    (hLiteral : literal ∈ declaration.literals)
    (hSame :
      found.map Char.toLower = literal.map Char.toLower) :
    ∃ leaf id,
      (ofDeclaration declaration).token? found =
          some (.bracket leaf id) ∧
        leaf.kind.literal ∈ declaration.literals ∧
        leaf.kind.literal.map Char.toLower =
          literal.map Char.toLower := by
  have hKey : Text.lowercase found = Text.lowercase literal := by
    have hAscii := hDeclaration.of_mem_literals hLiteral
    rw [hFound.lowercase_eq_map_toLower, hSame,
      hAscii.lowercase_eq_map_toLower]
  rcases List.mem_map.1 (lowercase_mem_literals hLiteral) with
    ⟨entry, hEntry, hEntryKey⟩
  have hToken :
      ∃ other ∈ (ofDeclaration declaration).entries,
        other.key = Text.lowercase literal ∧
          (ofDeclaration declaration).token? found =
            some other.token := by
    unfold ofDeclaration at hEntry ⊢
    rw [token?_ofBrackets, hKey, entry?]
    cases hFirst :
        (ofBrackets
            (Brackets.ofDeclaration
              declaration)).entries.find? fun other =>
          other.key == Text.lowercase literal with
    | none =>
        have hNone := List.find?_eq_none.1 hFirst entry hEntry
        exact absurd (beq_iff_eq.2 hEntryKey) hNone
    | some other =>
        have hOther := List.find?_some hFirst
        exact ⟨other, List.mem_of_find?_eq_some hFirst,
          beq_iff_eq.1 hOther, rfl⟩
  rcases hToken with ⟨other, hOther, hOtherKey, hToken⟩
  have hMem := literal_mem_literals hOther
  have hAscii := hDeclaration.of_mem_literals hLiteral
  have hOtherAscii := hDeclaration.of_mem_literals hMem
  refine ⟨other.bracket, other.id, hToken, hMem, ?_⟩
  rw [← hAscii.lowercase_eq_map_toLower, ← hOtherKey,
    key_eq_lowercase hOther,
    hOtherAscii.lowercase_eq_map_toLower]

/-
  A search from a place of a line finds the first place
  where a declared literal stands, and of the literals that
  stand there the longest one.  What is found there has the
  token of this literal.  Without a match there is no such
  place.
-/
theorem find?_longest
    {start : Nat}
    (hDeclaration : declaration.IsAscii)
    (hLine : Text.IsAscii line)
    (hStart : start ≤ line.length) :
    let table := ofDeclaration declaration
    match
      Pattern.find? table.literals
        (line.take start).getLast? (line.drop start) with
    | none =>
        ∀ place ≥ start, ∀ literal ∈ declaration.literals,
          ¬StandsAt line place literal
    | some match_ =>
        let place := start + match_.skipped.length
        (match_.skipped =
            (line.drop start).take match_.skipped.length ∧
          ∀ earlier ≥ start, earlier < place →
            ∀ literal ∈ declaration.literals,
              ¬StandsAt line earlier literal) ∧
        ∃ literal ∈ declaration.literals,
          StandsAt line place literal ∧
          match_.found =
            (line.drop place).take literal.length ∧
          (∀ other ∈ declaration.literals,
            StandsAt line place other →
              other.length ≤ literal.length) ∧
          ∃ leaf id,
            table.token? match_.found =
              some (.bracket leaf id) ∧
            leaf.kind.literal ∈ declaration.literals ∧
            leaf.kind.literal.map Char.toLower =
              literal.map Char.toLower := by
  intro table
  cases hFind :
      Pattern.find? table.literals
        (line.take start).getLast? (line.drop start) with
  | none =>
      intro place hPlace literal hLiteral
      by_cases hInside : place < line.length
      · refine not_standsAt_of_passed hDeclaration hLine
          hPlace ?_ hLiteral
        rw [hFind, Option.elim_none, List.length_drop]
        omega
      · exact not_standsAt_of_length_le
          (BracketDeclaration.ne_nil_of_mem_literals hLiteral)
          (by omega)
  | some match_ =>
      rcases Pattern.find?_eq_some_cut hStart hFind with
        ⟨hPlace, hSkipped, rest, hFirst⟩
      rcases exists_longest_of_firstAt? hDeclaration hLine
          hPlace hFirst with
        ⟨literal, hLiteral, hStands, hFound, hLongest⟩
      refine ⟨⟨hSkipped, ?_⟩, literal, hLiteral, hStands,
        hFound, hLongest, ?_⟩
      · intro earlier hEarlier hLess literal hLiteral
        refine not_standsAt_of_passed hDeclaration hLine
          hEarlier ?_ hLiteral
        rw [hFind, Option.elim_some]
        omega
      · have hAscii : Text.IsAscii match_.found := by
          rw [hFound]
          exact (hLine.drop _).take _
        refine exists_token_of_fold hDeclaration hAscii
          hLiteral ?_
        rw [hFound]
        exact hStands.1

theorem find?_longest_do :
    let declaration : BracketDeclaration :=
      ⟨[⟨['d', 'o'], ['o', 'd']⟩,
        ⟨['d', 'o', '+'], ['o', 'd']⟩], none⟩
    let line : List Char := ['a', 'd', 'o', ' ', 'D', 'O', '+']
    (declaration.IsAscii ∧ Text.IsAscii line ∧
      1 ≤ line.length) ∧
      ∃ literal ∈ declaration.literals,
        StandsAt line 4 literal ∧
          ['D', 'O', '+'] =
            (line.drop 4).take literal.length ∧
          ∀ other ∈ declaration.literals,
            StandsAt line 4 other →
              other.length ≤ literal.length := by
  intro declaration line
  have hDeclaration : declaration.IsAscii := by decide
  have hLine : Text.IsAscii line := by decide
  have hStart : 1 ≤ line.length := by decide
  refine ⟨⟨hDeclaration, hLine, hStart⟩, ?_⟩
  have hFind :
      Pattern.find? (ofDeclaration declaration).literals
          (line.take 1).getLast? (line.drop 1) =
        some ⟨['d', 'o', ' '], ['D', 'O', '+']⟩ := by
    decide +kernel
  have hLongest := find?_longest hDeclaration hLine hStart
  simp only [hFind] at hLongest
  rcases hLongest with
    ⟨_, literal, hLiteral, hStands, hFound, hOthers, _⟩
  exact ⟨literal, hLiteral, hStands, hFound, hOthers⟩

end TokenTable

end Bracketry
