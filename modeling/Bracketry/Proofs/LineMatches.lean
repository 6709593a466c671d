import Bracketry.Proofs.ByteTrees
import Bracketry.Proofs.LineTrees
import Bracketry.Proofs.Symbols

/-
  The brackets of a text, scanned at once or read by lines.

  Both ways of reading find the same matches on each line.
  A match that is no token is passed by a scan; for a reader
  of the lines, nothing is found behind it.  So both have the
  same brackets where no bracket stands behind such a match
  on its line, and only there.

  Key definitions include:
    * `TokenTable.matchesFrom`
    * `TokenTable.IsUnbroken`

  Main declarations:
    * `Scan.brackets_tokens`
    * `LineSource.brackets_plain`
    * `TokenStream.brackets_eq_iff_isUnbroken`
-/

------------------------------------------------------------
-- Literals at the End of a Line
------------------------------------------------------------

namespace Bracketry

/- The text ends, or a line of it does. -/
def EndsLine
    (behind : List Char) :
    Prop :=
  ∀ c ∈ behind.head?, IsBreak c

namespace Line

/- What is behind the first line of a text ends it. -/
theorem endsLine_split
    {text : List Char}
    {first : Line}
    {rest : List Line}
    (hSplit : split text = first :: rest) :
    text = first.text ++ (first.ending ++ join rest) ∧
      EndsLine (first.ending ++ join rest) := by
  constructor
  · rw [← List.append_assoc, ← join_split text, hSplit]
    rfl
  · fun_induction split text generalizing first rest with
    | case1 =>
        rcases List.cons.inj hSplit with ⟨rfl, rfl⟩
        rintro c ⟨⟩
    | case2 others =>
        rcases List.cons.inj hSplit with ⟨rfl, rfl⟩
        rintro c ⟨⟩
        exact .inl rfl
    | case3 others =>
        rcases List.cons.inj hSplit with ⟨rfl, rfl⟩
        rintro c ⟨⟩
        exact .inr rfl
    | case4 c others _ _ hNil =>
        exact absurd hNil (split_ne_nil others)
    | case5 c others _ _ line lines hCons ih =>
        rcases List.cons.inj hSplit with ⟨rfl, rfl⟩
        have hEnds : EndsLine (line.ending ++ join lines) :=
          ih hCons
        exact hEnds

/- A text without breaks begins the first line behind it. -/
theorem split_append_flat
    {found behind : List Char}
    {first : Line}
    {rest : List Line}
    (hFlat : ∀ c ∈ found, ¬IsBreak c)
    (hSplit : split behind = first :: rest) :
    split (found ++ behind) =
      ⟨found ++ first.text, first.ending⟩ :: rest := by
  induction found with
  | nil => exact hSplit
  | cons c others ih =>
      rw [List.forall_mem_cons] at hFlat
      have hFeed : c ≠ '\n' :=
        fun hSame => hFlat.1 (.inl hSame)
      have hReturn :
          ¬(c = '\r' ∧
            (others ++ behind).head? = some '\n') :=
        fun hBoth => hFlat.1 (.inr hBoth.1)
      exact split_cons hFeed hReturn (ih hFlat.2)

end Line

namespace Pattern

variable {before other : Option Char}
variable {literal text behind : List Char}

theorem inWord_break
    {c : Char}
    (hBreak : IsBreak c) :
    inWord (some c) = inWord none := by
  rcases hBreak with rfl | rfl <;> decide +kernel

/- Behind a line, no word goes on. -/
theorem inWord_head_append
    (text : List Char)
    (hBehind : EndsLine behind) :
    inWord (text ++ behind).head? = inWord text.head? := by
  cases text with
  | cons c rest => rfl
  | nil =>
      cases behind with
      | nil => rfl
      | cons c rest => exact inWord_break (hBehind c rfl)

/- A literal without breaks is found within its line. -/
theorem strip?_append
    (hFlat : ∀ c ∈ literal, ¬IsBreak c)
    (hBehind : EndsLine behind) :
    strip? literal (text ++ behind) =
      (strip? literal text).map fun (found, rest) =>
        (found, rest ++ behind) := by
  induction literal generalizing text with
  | nil => rfl
  | cons l literal ih =>
      rw [List.forall_mem_cons] at hFlat
      cases text with
      | nil =>
          cases behind with
          | nil => rfl
          | cons c rest =>
              have hBreak := hBehind c rfl
              simp only [List.nil_append, strip?,
                Option.map_none]
              rw [if_neg]
              · intro hFold
                rw [hBreak.eq_of_foldChar hFold] at hFlat
                exact hFlat.1 hBreak
      | cons c text =>
          rw [List.cons_append, strip?, strip?, ih hFlat.2]
          split_ifs
          · cases strip? literal text <;> rfl
          · rfl

theorem matchAt?_append
    (hFlat : ∀ c ∈ literal, ¬IsBreak c)
    (hBehind : EndsLine behind) :
    matchAt? before (text ++ behind) literal =
      (matchAt? before text literal).map fun (found, rest) =>
        (found, rest ++ behind) := by
  have hStart :
      startAllowed before literal (text ++ behind) =
        startAllowed before literal text := by
    unfold startAllowed isBoundary
    rw [inWord_head_append text hBehind]
  have hEnd :
      ∀ found rest,
        endAllowed before literal found (rest ++ behind) =
          endAllowed before literal found rest := by
    intro found rest
    unfold endAllowed isBoundary
    rw [inWord_head_append rest hBehind]
  rw [matchAt?, matchAt?, hStart, strip?_append hFlat hBehind]
  split_ifs
  · cases strip? literal text with
    | none => rfl
    | some parts =>
        simp only [Option.map_some, hEnd]
        split_ifs <;> rfl
  · rfl

/- Literals without breaks are found within their line. -/
theorem firstAt?_append
    {literals : List (List Char)}
    (hFlat : ∀ literal ∈ literals, ∀ c ∈ literal, ¬IsBreak c)
    (hBehind : EndsLine behind) :
    firstAt? literals before (text ++ behind) =
      (firstAt? literals before text).map
        fun (found, rest) => (found, rest ++ behind) := by
  unfold firstAt?
  induction literals with
  | nil => rfl
  | cons literal others ih =>
      rw [List.forall_mem_cons] at hFlat
      rw [List.findSome?_cons, List.findSome?_cons,
        matchAt?_append hFlat.1 hBehind]
      cases matchAt? before text literal with
      | none => exact ih hFlat.2
      | some parts => rfl

/- Of what is in front, only the end of a word counts. -/
theorem firstAt?_congr
    (literals : List (List Char))
    (text : List Char)
    (hSame : inWord before = inWord other) :
    firstAt? literals before text =
      firstAt? literals other text := by
  have hMatch :
      matchAt? before text = matchAt? other text := by
    have hLast :
        ∀ found : List Char,
          inWord (found.getLast?.or before) =
            inWord (found.getLast?.or other) := by
      intro found
      cases found.getLast? with
      | none => exact hSame
      | some c => rfl
    funext literal
    unfold matchAt? startAllowed endAllowed isBoundary
    simp only [hSame, hLast]
  rw [firstAt?, hMatch]
  rfl

end Pattern

end Bracketry

------------------------------------------------------------
-- Matches of a Line
------------------------------------------------------------

namespace Bracketry

namespace TokenTable

/-
  The columns of the matches of a line, from a column on, and
  the tokens of those that are tokens.  Each search goes on
  behind the last match; `skip` characters still belong to
  it.
-/
def matchesFrom
    (table : TokenTable)
    (before : Option Char)
    (column skip : Nat) :
    List Char → List (Nat × Option Token)
  | [] => []
  | c :: rest =>
      let next := column + c.utf8Size
      if skip ≠ 0 then
        matchesFrom table (some c) next (skip - 1) rest
      else
        match
          Pattern.firstAt? table.literals before
            (c :: rest) with
        | none => matchesFrom table (some c) next 0 rest
        | some (found, _) =>
            (column, table.tokenOfMatch? found) ::
              matchesFrom table (some c) next
                (found.length - 1) rest

/- No token stands behind a match that is none. -/
def IsUnbroken
    (table : TokenTable)
    (line : List Char) :
    Prop :=
  (table.matchesFrom none 0 0 line).Pairwise
    fun first next => next.2.isSome → first.2.isSome

instance (table : TokenTable) (line : List Char) :
    Decidable (table.IsUnbroken line) :=
  inferInstanceAs (Decidable (List.Pairwise _ _))

/- The tokens among some matches of a line. -/
def placed
    (line : Nat)
    (found : List (Nat × Option Token)) :
    List Placed :=
  found.filterMap fun (column, token) =>
    token.map (Placed.mk ⟨line, column⟩)

/- All tokens of a line. -/
def scannedOn
    (table : TokenTable)
    (line : Nat)
    (text : List Char) :
    List Placed :=
  placed line (table.matchesFrom none 0 0 text)

/- The tokens of a line before a match that is none. -/
def readOn
    (table : TokenTable)
    (line : Nat)
    (text : List Char) :
    List Placed :=
  placed line
    ((table.matchesFrom none 0 0 text).takeWhile
      (·.2.isSome))

variable {table : TokenTable} {before other : Option Char}
variable {column : Nat}

/- Characters that belong to the last match are passed. -/
theorem matchesFrom_skip
    (before : Option Char)
    (column : Nat)
    (passed rest : List Char) :
    table.matchesFrom before column passed.length
        (passed ++ rest) =
      table.matchesFrom (passed.getLast?.or before)
        (column + Text.byteSize passed) 0 rest := by
  induction passed generalizing before column with
  | nil => rfl
  | cons c others ih =>
      rw [List.cons_append, matchesFrom, List.length_cons,
        if_pos (Nat.succ_ne_zero _), Nat.add_sub_cancel, ih,
        Pattern.getLast?_cons_or, Text.byteSize, Nat.add_assoc]

/- The search goes on behind a match. -/
theorem matchesFrom_match
    {found behind : List Char}
    (hSome : found ≠ [])
    (hFound :
      Pattern.firstAt? table.literals before
          (found ++ behind) = some (found, behind)) :
    table.matchesFrom before column 0 (found ++ behind) =
      (column, table.tokenOfMatch? found) ::
        table.matchesFrom found.getLast?
          (column + Text.byteSize found) 0 behind := by
  rcases List.exists_cons_of_ne_nil hSome with ⟨c, others, rfl⟩
  rw [List.cons_append] at hFound ⊢
  rw [matchesFrom, if_neg (by simp)]
  simp only [hFound]
  rw [List.length_cons, Nat.add_sub_cancel, matchesFrom_skip,
    ← Pattern.getLast?_cons_or c others none, Option.or_none,
    Text.byteSize, Nat.add_assoc]

/- The search goes on behind a character without a match. -/
theorem matchesFrom_none
    {c : Char}
    {rest : List Char}
    (hNone :
      Pattern.firstAt? table.literals before (c :: rest) =
        none) :
    table.matchesFrom before column 0 (c :: rest) =
      table.matchesFrom (some c) (column + c.utf8Size) 0
        rest := by
  rw [matchesFrom, if_neg (by simp)]
  simp only [hNone]

theorem matchesFrom_congr
    (text : List Char)
    (hSame : Pattern.inWord before = Pattern.inWord other) :
    table.matchesFrom before column 0 text =
      table.matchesFrom other column 0 text := by
  cases text with
  | nil => rfl
  | cons c rest =>
      rw [matchesFrom, matchesFrom,
        Pattern.firstAt?_congr _ _ hSame]

theorem IsFlat.of_mem_literals
    (hFlat : table.IsFlat) :
    ∀ literal ∈ table.literals, ∀ c ∈ literal, ¬IsBreak c :=
  List.forall_mem_map.2 hFlat

/- A match of a literal is not empty. -/
theorem IsSolid.found_ne_nil
    {text found rest : List Char}
    (hSolid : table.IsSolid)
    (h :
      Pattern.firstAt? table.literals before text =
        some (found, rest)) :
    text = found ++ rest ∧ found ≠ [] := by
  rcases Pattern.exists_of_firstAt? h with
    ⟨hText, literal, hLiteral, hFold⟩
  rcases List.mem_map.1 hLiteral with ⟨entry, hEntry, rfl⟩
  refine ⟨hText, ?_⟩
  rintro rfl
  exact (hSolid entry hEntry).1
    (List.map_eq_nil_iff.1 hFold.symm)

end TokenTable

end Bracketry

------------------------------------------------------------
-- What a Reader of Lines Finds
------------------------------------------------------------

namespace Bracketry

namespace TokenTable

variable {table : TokenTable} {before : Option Char}
variable {column : Nat} {text : List Char}

/- Where nothing is found, there are no matches. -/
theorem matchesFrom_of_find?_none
    (h : Pattern.find? table.literals before text = none) :
    table.matchesFrom before column 0 text = [] := by
  induction text generalizing before column with
  | nil => rfl
  | cons c rest ih =>
      unfold Pattern.find? at h
      split at h
      · cases h
      · rename_i hFirst
        split at h
        · cases h
        · rename_i hRest
          rw [matchesFrom_none hFirst, ih hRest]

/- What is found is the first match. -/
theorem matchesFrom_of_find?_some
    {match_ : Pattern.Found}
    (hSolid : table.IsSolid)
    (h :
      Pattern.find? table.literals before text =
        some match_) :
    ∃ behind,
      text = match_.skipped ++ match_.found ++ behind ∧
        match_.found ≠ [] ∧
        table.matchesFrom before column 0 text =
          (column + Text.byteSize match_.skipped,
              table.tokenOfMatch? match_.found) ::
            table.matchesFrom
              (match_.skipped ++ match_.found).getLast?
              (column +
                Text.byteSize
                  (match_.skipped ++ match_.found))
              0 behind := by
  induction text generalizing before column match_ with
  | nil => cases h
  | cons c rest ih =>
      unfold Pattern.find? at h
      split at h
      · rename_i found behind hFirst
        rcases Option.some.inj h with rfl
        rcases hSolid.found_ne_nil hFirst with ⟨hText, hSome⟩
        refine ⟨behind, hText, hSome, ?_⟩
        rw [hText] at hFirst ⊢
        exact matchesFrom_match hSome hFirst
      · rename_i hFirst
        split at h
        · rename_i later hRest
          rcases Option.some.inj h with rfl
          rcases ih hRest with ⟨behind, hText, hSome, hLater⟩
          refine ⟨behind, by simp [hText], hSome, ?_⟩
          have hLast :
              (c :: later.skipped ++ later.found).getLast? =
                (later.skipped ++ later.found).getLast? := by
            rw [List.cons_append,
              List.getLast?_cons_of_ne_nil (by simp [hSome])]
          rw [matchesFrom_none hFirst, hLater, hLast]
          simp only [List.cons_append, Text.byteSize,
            Nat.add_assoc]
        · cases h

end TokenTable

namespace LineReader

open TokenTable

variable {table : TokenTable}

/-
  The marks of the rest of a line are the tokens before the
  first match that is none.  The induction is on what is
  left of the line.
-/
theorem marksBetween_matches
    (hSolid : table.IsSolid)
    (line : Nat)
    (before rest : List Char) :
    (marksBetween table (before ++ rest)
        (Text.byteSize before)
        (Text.byteSize (before ++ rest))).map
          (fun mark => Placed.mk ⟨line, mark.1⟩ mark.2) =
      placed line
        ((table.matchesFrom before.getLast?
          (Text.byteSize before) 0 rest).takeWhile
            (·.2.isSome)) := by
  induction hSize : rest.length using Nat.strongRecOn
    generalizing before rest with
  | ind size ih =>
  subst hSize
  have hSearch := findBracket?_rest table before rest
  cases hFind :
      Pattern.find? table.literals before.getLast? rest with
  | none =>
      rw [hFind, Option.bind_none] at hSearch
      rw [marksBetween_of_none hSearch,
        matchesFrom_of_find?_none hFind]
      rfl
  | some match_ =>
      rcases matchesFrom_of_find?_some hSolid hFind with
        ⟨behind, hRest, hSome, hMatches⟩
      rw [hFind, Option.bind_some] at hSearch
      rw [hMatches]
      cases hToken : table.tokenOfMatch? match_.found with
      | none =>
          rw [hToken, Option.map_none] at hSearch
          rw [marksBetween_of_none hSearch]
          rfl
      | some token =>
          rw [hToken, Option.map_some] at hSearch
          have hColumns := (of_tokenOfMatch? hToken).2
          have hLess : behind.length < rest.length := by
            have hPos := List.length_pos_of_ne_nil hSome
            rw [hRest, List.length_append,
              List.length_append]
            omega
          have hNext :=
            ih behind.length hLess
              (before ++ (match_.skipped ++ match_.found))
              behind rfl
          have hAll :
              before ++ (match_.skipped ++ match_.found) ++
                  behind =
                before ++ rest := by
            rw [hRest, List.append_assoc]
          have hLast :
              (before ++
                  (match_.skipped ++ match_.found)).getLast? =
                (match_.skipped ++ match_.found).getLast? :=
            List.getLast?_append_of_ne_nil _ (by simp [hSome])
          have hPlace :
              Text.byteSize
                  (before ++
                    (match_.skipped ++ match_.found)) =
                Text.byteSize before +
                  Text.byteSize match_.skipped +
                  token.length.columns := by
            rw [hColumns, Text.byteSize_append,
              Text.byteSize_append, Nat.add_assoc]
          rw [hAll, hLast, Text.byteSize_append before,
            ← Text.byteSize_append before] at hNext
          rw [(marksBetween_of_some hSolid hSearch).1,
            List.map_cons, ← hPlace, hNext,
            List.takeWhile_cons_of_pos rfl,
            Text.byteSize_append before (_ ++ _)]
          rfl

end LineReader

end Bracketry

------------------------------------------------------------
-- What a Scan Finds on Lines
------------------------------------------------------------

namespace Bracketry

/- What each of some lines has, from a number on. -/
def Line.gather
    (has : Nat → List Char → List Placed)
    (number : Nat) :
    List Line → List Placed
  | [] => []
  | first :: rest =>
      has number first.text ++ gather has (number + 1) rest

namespace TokenTable

/- The tokens of a text from a place on, line by line. -/
def scannedFrom
    (table : TokenTable)
    (before : Option Char)
    (place : Position)
    (text : List Char) :
    List Placed :=
  match Line.split text with
  | [] => []
  | first :: rest =>
      placed place.lines
          (table.matchesFrom before place.columns 0
            first.text) ++
        Line.gather table.scannedOn (place.lines + 1) rest

variable {table : TokenTable} {before : Option Char}
variable {place : Position} {found behind : List Char}

theorem scannedFrom_eq
    {text : List Char}
    {first : Line}
    {rest : List Line}
    (hSplit : Line.split text = first :: rest) :
    table.scannedFrom before place text =
      placed place.lines
          (table.matchesFrom before place.columns 0
            first.text) ++
        Line.gather table.scannedOn (place.lines + 1) rest := by
  rw [scannedFrom, hSplit]

theorem scannedFrom_start
    (text : List Char) :
    table.scannedFrom none 0 text =
      Line.gather table.scannedOn 0 (Line.split text) := by
  rcases List.exists_cons_of_ne_nil
      (Line.split_ne_nil text) with
    ⟨first, rest, hSplit⟩
  rw [scannedFrom_eq hSplit, hSplit]
  rfl

/- A search for literals first, and for breaks behind them. -/
theorem firstAt?_searched
    (before : Option Char)
    (text : List Char) :
    Pattern.firstAt? (Scan.searched table) before text =
      (Pattern.firstAt? table.literals before text).or
        (Pattern.firstAt? Scan.lineBreaks before text) :=
  List.findSome?_append

/- A character without a match is passed. -/
theorem scannedFrom_none
    {c : Char}
    (hFlat : table.IsFlat)
    (hNone :
      Pattern.firstAt? (Scan.searched table) before
        (c :: behind) = none) :
    table.scannedFrom before place (c :: behind) =
      table.scannedFrom (some c) (place + Length.ofChar c)
        behind := by
  rcases List.exists_cons_of_ne_nil
      (Line.split_ne_nil behind) with
    ⟨first, rest, hSplit⟩
  rcases Line.endsLine_split hSplit with ⟨hText, hEnds⟩
  have hFeed : c ≠ '\n' := by
    rintro rfl
    have hBreak : ['\n'] ∈ Scan.lineBreaks := by decide
    exact Scan.firstAt?_break_ne hBreak _ _ hNone
  have hReturn : ¬(c = '\r' ∧ behind.head? = some '\n') := by
    rintro ⟨rfl, hHead⟩
    rcases List.head?_eq_some_iff.1 hHead with ⟨others, rfl⟩
    have hBreak : ['\r', '\n'] ∈ Scan.lineBreaks := by decide
    exact Scan.firstAt?_break_ne hBreak _ _ hNone
  rw [firstAt?_searched, Option.or_eq_none_iff] at hNone
  have hLiteral := hNone.1
  rw [hText, ← List.cons_append,
    Pattern.firstAt?_append hFlat.of_mem_literals hEnds,
    Option.map_eq_none_iff] at hLiteral
  rw [scannedFrom_eq (Line.split_cons hFeed hReturn hSplit),
    scannedFrom_eq hSplit, matchesFrom_none hLiteral,
    Length.ofChar, if_neg hFeed, Length.add_def]
  rfl

/- Behind a line break, the search begins anew. -/
theorem scannedFrom_break
    (hBreak : found ∈ Scan.lineBreaks) :
    table.scannedFrom before place (found ++ behind) =
      table.scannedFrom found.getLast?
        (place + Length.ofText found) behind := by
  rcases List.exists_cons_of_ne_nil
      (Line.split_ne_nil behind) with
    ⟨first, rest, hSplit⟩
  have hLine :
      found.getLast? = some '\n' ∧
        Length.ofText found = ⟨1, 0⟩ ∧
        Line.split (found ++ behind) =
          ⟨[], found⟩ :: Line.split behind := by
    simp only [Scan.lineBreaks, List.mem_cons,
      List.not_mem_nil, or_false] at hBreak
    rcases hBreak with rfl | rfl <;> exact ⟨rfl, rfl, rfl⟩
  rcases hLine with ⟨hLast, hLength, hLines⟩
  have hNext :
      table.matchesFrom (some '\n') 0 0 first.text =
        table.matchesFrom none 0 0 first.text :=
    matchesFrom_congr _ (Pattern.inWord_break (.inl rfl))
  rw [scannedFrom_eq hLines, scannedFrom_eq hSplit, hSplit,
    hLast, hLength, Length.add_def, if_neg (by simp)]
  simp only
  rw [hNext]
  rfl

/- A match is a token of the text, unless it is none. -/
theorem scannedFrom_match
    (hFlat : table.IsFlat)
    (hSome : found ≠ [])
    (hPlain : ∀ c ∈ found, ¬IsBreak c)
    (hFound :
      Pattern.firstAt? (Scan.searched table) before
          (found ++ behind) = some (found, behind)) :
    table.scannedFrom before place (found ++ behind) =
      ((table.tokenOfMatch? found).map
          (Placed.mk place)).toList ++
        table.scannedFrom found.getLast?
          (place + Length.ofText found) behind := by
  rcases List.exists_cons_of_ne_nil
      (Line.split_ne_nil behind) with
    ⟨first, rest, hSplit⟩
  rcases Line.endsLine_split hSplit with ⟨hText, hEnds⟩
  have hHere :
      Pattern.firstAt? table.literals before
        (found ++ first.text) = some (found, first.text) := by
    rw [firstAt?_searched, Option.or_eq_some_iff] at hFound
    rcases hFound with hLiteral | ⟨_, hBreak⟩
    · rw [hText, ← List.append_assoc,
        Pattern.firstAt?_append hFlat.of_mem_literals hEnds]
        at hLiteral
      rcases Option.map_eq_some_iff.1 hLiteral with
        ⟨⟨other, left⟩, hFirst, hSame⟩
      rcases Prod.mk.inj hSame with ⟨rfl, hLeft⟩
      rw [hFirst, List.append_cancel_right hLeft]
    · rcases Pattern.exists_of_firstAt? hBreak with
        ⟨_, literal, hLiteral, hFold⟩
      rcases Scan.eq_of_fold_lineBreak hLiteral hFold with rfl
      have hFeed : '\n' ∈ found := by
        simp only [Scan.lineBreaks, List.mem_cons,
          List.not_mem_nil, or_false] at hLiteral
        rcases hLiteral with rfl | rfl <;> simp
      exact absurd (.inl rfl) (hPlain '\n' hFeed)
  rw [scannedFrom_eq (Line.split_append_flat hPlain hSplit),
    scannedFrom_eq hSplit, matchesFrom_match hSome hHere,
    ofText_of_flat hPlain, Length.add_def, if_pos rfl]
  cases table.tokenOfMatch? found <;> rfl

end TokenTable

end Bracketry

namespace Bracketry

open Measured

namespace Scan

open TokenTable

variable {table : TokenTable}

/- A scan passes no bracket. -/
theorem Passes.scannedFrom_eq
    {before part behind : List Char}
    (place : Position)
    (hSolid : table.IsSolid)
    (hFlat : table.IsFlat)
    (h : Passes table before part behind) :
    table.scannedFrom before.getLast? place
        (part ++ behind) =
      table.scannedFrom (before ++ part).getLast?
        (place + Length.ofText part) behind := by
  induction h with
  | stay =>
      rw [List.append_nil, Length.ofText_nil, add_zero]
      rfl
  | step c _ hNone ih =>
      rw [List.append_assoc, List.singleton_append, ih,
        scannedFrom_none hFlat hNone, Length.ofText_append,
        ← add_assoc, ← List.append_assoc,
        List.getLast?_concat, Length.ofText_cons,
        Length.ofText_nil, add_zero]
  | jump found _ hFound hNone ih =>
      rcases of_firstAt? hSolid hFlat hFound with
        ⟨_, hSome, hKind⟩
      rw [List.append_assoc, ih, Length.ofText_append,
        ← add_assoc, ← List.append_assoc,
        List.getLast?_append_of_ne_nil _ hSome]
      by_cases hBreak : found ∈ lineBreaks
      · exact scannedFrom_break hBreak
      · have hPlain := hKind.resolve_left hBreak
        have hToken := hNone.resolve_left hBreak
        rw [scannedFrom_match hFlat hSome hPlain hFound,
          hToken]
        rfl

/- The brackets of scanned tokens, line by line. -/
theorem brackets_of_spells
    {before part : List Char}
    {tokens : List Token}
    (place : Position)
    (hSolid : table.IsSolid)
    (hFlat : table.IsFlat)
    (h : Spells (Shows table) before tokens part []) :
    Placed.brackets (Placed.row place tokens) =
      table.scannedFrom before.getLast? place part := by
  induction tokens generalizing before part place with
  | nil =>
      subst h
      rfl
  | cons token rest ih =>
      rcases h with
        ⟨first, more, rfl, hSome, hSize, hShows, hMore⟩
      rw [List.append_nil] at hShows
      rw [extent_chars] at hSize
      have hRest := ih (place + token.length) hMore
      rw [← hSize] at hRest
      have hRow :
          Placed.brackets (Placed.row place (token :: rest)) =
            Placed.brackets [⟨place, token⟩] ++
              table.scannedFrom (before ++ first).getLast?
                (place + Length.ofText first) more := by
        rw [← hRest, hSize, Placed.brackets, Placed.brackets,
          Placed.brackets, ← List.filter_append]
        rfl
      rw [hRow]
      cases token with
      | text length =>
          rw [hShows.1.scannedFrom_eq place hSolid hFlat]
          rfl
      | bracket leaf id =>
          rcases hShows with ⟨hFound, hBreak, hToken⟩
          have hPlain :=
            (of_firstAt? hSolid hFlat hFound).2.2.resolve_left
              hBreak
          rw [scannedFrom_match hFlat hSome hPlain hFound,
            hToken, List.getLast?_append_of_ne_nil _ hSome]
          rfl

/- A scan has all tokens of all lines. -/
theorem brackets_tokens
    (hSolid : table.IsSolid)
    (hFlat : table.IsFlat)
    (text : List Char) :
    Placed.brackets (Placed.row 0 (tokens table text)) =
      Line.gather table.scannedOn 0 (Line.split text) := by
  rw [brackets_of_spells 0 hSolid hFlat
    (spells_tokens hSolid hFlat text)]
  exact scannedFrom_start text

end Scan

end Bracketry

------------------------------------------------------------
-- What a Reader Finds on Lines
------------------------------------------------------------

namespace Bracketry

namespace LineSource

variable {source : LineSource} {text : List Char}

/- Where all is code, a line has what is read of it. -/
theorem marked_plain
    {line : Line}
    {number : Nat}
    (hSolid : source.table.IsSolid)
    (hPlain : source.spans = SpanTable.plain)
    (hOf : source.IsOf text)
    (hLine : source.content.lines[number]? = some line) :
    source.marked ⟨number, 0⟩ =
      source.table.readOn number line.text := by
  rw [marked, marksAt_plain hOf hPlain,
    Content.line_of_getElem? hLine]
  exact LineReader.marksBetween_matches hSolid number []
    line.text

/- Lines below a line have what each of them has. -/
theorem markedBelow_eq_gather
    {has : Nat → List Char → List Placed}
    {rest : List Line}
    (hHas :
      ∀ number line,
        source.content.lines[number]? = some line →
          source.marked ⟨number, 0⟩ = has number line.text)
    (line : Nat)
    (hLines : source.content.lines.drop (line + 1) = rest) :
    source.markedBelow line rest.length =
      Line.gather has (line + 1) rest := by
  induction rest generalizing line with
  | nil => rfl
  | cons first rest ih =>
      have hHere :
          source.content.lines[line + 1]? = some first := by
        rw [← List.head?_drop, hLines]
        rfl
      have hRest :=
        ih (line + 1) (by rw [← List.drop_drop, hLines]; rfl)
      rw [List.length_cons, markedBelow, hRest,
        hHas _ _ hHere]
      rfl

/- A source has what each of its lines has. -/
theorem brackets_eq_gather
    {has : Nat → List Char → List Placed}
    (hOf : source.IsOf text)
    (hHas :
      ∀ number line,
        source.content.lines[number]? = some line →
          source.marked ⟨number, 0⟩ = has number line.text) :
    source.brackets =
      Line.gather has 0 (Line.split text) := by
  rcases List.exists_cons_of_ne_nil
      (Line.split_ne_nil text) with
    ⟨first, rest, hSplit⟩
  have hLines : source.content.lines = first :: rest :=
    hOf.lines.trans hSplit
  have hHere : source.content.lines[0]? = some first := by
    rw [hLines]
    rfl
  have hBelow :
      source.markedBelow 0 rest.length =
        Line.gather has 1 rest :=
    markedBelow_eq_gather hHas 0 (by rw [hLines]; rfl)
  have hLast : source.lastLine - 0 = rest.length := by
    rw [hOf.lastLine_eq, hSplit, List.length_cons]
    omega
  rw [brackets, bracketsFrom, Length.zero_def, hLast, hBelow,
    hHas _ _ hHere, hSplit]
  rfl

/- Where all is code, a source has what is read of lines. -/
theorem brackets_plain
    (hSolid : source.table.IsSolid)
    (hPlain : source.spans = SpanTable.plain)
    (hOf : source.IsOf text) :
    source.brackets =
      Line.gather source.table.readOn 0 (Line.split text) :=
  brackets_eq_gather hOf fun _ _ hLine =>
    marked_plain hSolid hPlain hOf hLine

end LineSource

end Bracketry

------------------------------------------------------------
-- Where Both Agree
------------------------------------------------------------

namespace Bracketry

namespace TokenTable

/- Tokens are lost exactly behind a match that is none. -/
theorem placed_takeWhile_iff
    {line : Nat}
    {found : List (Nat × Option Token)} :
    placed line (found.takeWhile (·.2.isSome)) =
        placed line found ↔
      found.Pairwise fun first next =>
        next.2.isSome → first.2.isSome := by
  induction found with
  | nil => simp [placed]
  | cons first rest ih =>
      rcases first with ⟨column, token⟩
      rw [List.pairwise_cons]
      cases token with
      | some token =>
          rw [List.takeWhile_cons_of_pos rfl]
          simp only [placed, List.filterMap_cons,
            Option.map_some, List.cons.injEq, true_and]
          rw [← ih]
          simp [placed]
      | none =>
          rw [List.takeWhile_cons_of_neg (by simp)]
          have hNone :
              placed line ((column, none) :: rest) = [] ↔
                ∀ next ∈ rest, next.2 = none := by
            simp [placed, List.filterMap_eq_nil_iff]
          refine (eq_comm.trans hNone).trans
            ⟨fun hAll => ⟨?_, ?_⟩, ?_⟩
          · intro next hNext hSome
            rw [hAll next hNext] at hSome
            cases hSome
          · apply List.Pairwise.imp_of_mem _
              (List.pairwise_of_forall fun _ _ => trivial)
            intro _ next _ hNext _ hSome
            rw [hAll next hNext] at hSome
            cases hSome
          · rintro ⟨hBehind, _⟩ next hNext
            exact Option.not_isSome_iff_eq_none.1
              fun hSome => by simpa using hBehind next hNext hSome

end TokenTable

namespace Line

/- Lines with less have less together, if any of them has. -/
theorem gather_eq_iff
    {less more : Nat → List Char → List Placed}
    {P : List Char → Prop}
    (hLess :
      ∀ number text, (less number text).Sublist
        (more number text))
    (hSame :
      ∀ number text,
        less number text = more number text ↔ P text)
    (number : Nat)
    (lines : List Line) :
    gather less number lines = gather more number lines ↔
      ∀ line ∈ lines, P line.text := by
  have hSublist :
      ∀ number lines,
        (gather less number lines).Sublist
          (gather more number lines) := by
    intro number lines
    induction lines generalizing number with
    | nil => exact .slnil
    | cons first rest ih =>
        exact (hLess number first.text).append
          (ih (number + 1))
  induction lines generalizing number with
  | nil => simp [gather]
  | cons first rest ih =>
      have hRest := ih (number + 1)
      rw [List.forall_mem_cons, ← hSame number, gather, gather]
      constructor
      · intro hBoth
        have hHere := (hLess number first.text).length_le
        have hBelow := (hSublist (number + 1) rest).length_le
        have hLength := congrArg List.length hBoth
        rw [List.length_append, List.length_append] at hLength
        rcases List.append_inj hBoth (by omega) with
          ⟨hFirst, hOthers⟩
        exact ⟨hFirst, hRest.1 hOthers⟩
      · rintro ⟨hFirst, hOthers⟩
        rw [hFirst, hRest.2 hOthers]

end Line

end Bracketry

------------------------------------------------------------
-- All Tokens
------------------------------------------------------------

namespace Bracketry

open Measured

/- The tokens of a script are read to its end. -/
theorem Script.IsSound.exists_readUpTo
    {α : Type}
    [Measured α]
    {script : Script α}
    {reader : LineReader}
    {before ahead : List α}
    {count : Nat}
    (hSound : script.IsSound)
    (hText : script.text = before ++ ahead)
    (hStands : script.Stands reader before ahead)
    (hCount : ahead.length ≤ count) :
    ∃ tokens after,
      TokenStream.readUpTo count
            ⟨.lines script.source reader none,
              extent before⟩ =
          .ok (tokens, after) ∧
        Spells script.Shows before tokens ahead
          script.ending := by
  induction count generalizing reader before ahead with
  | zero =>
      rcases List.length_eq_zero_iff.1
          (Nat.le_zero.1 hCount) with
        rfl
      exact ⟨[], _, rfl, rfl⟩
  | succ count ih =>
      rcases hSound.read hText hStands with
        ⟨rfl, hRead⟩ |
          ⟨token, after, first, more, hRead, _, rfl, hSome,
            hSize, hShows, hNext⟩
      · refine
          ⟨[],
            ⟨.lines script.source reader none, extent before⟩,
            ?_, rfl⟩
        rw [TokenStream.readUpTo, TokenStream.read]
        simp only [hRead]
        rfl
      · have hLess : more.length ≤ count := by
          have hPos := List.length_pos_of_ne_nil hSome
          rw [List.length_append] at hCount
          omega
        have hSplit :
            script.text = before ++ first ++ more := by
          rw [hText, List.append_assoc]
        rcases ih hSplit hNext hLess with
          ⟨tokens, last, hRest, hSpells⟩
        rw [extent_append, hSize] at hRest
        have hFits :
            (extent before + token.length).Fits := by
          have hPlace :=
            hSound.small.fitsFrom (before ++ first)
              (more ++ script.ending) (by simp [hText])
          rwa [zero_add, extent_append, hSize] at hPlace
        refine ⟨token :: tokens, last, ?_, first, more, rfl,
          hSome, hSize, hShows, hSpells⟩
        rw [TokenStream.readUpTo, TokenStream.read]
        simp only [hRead, TokenStream.passed,
          Length.plus_eq_ok hFits, bind, Except.bind, pure,
          Except.pure, hRest]

/- The length of a scan is that of its tokens. -/
theorem Scan.length_eq_total
    (tokens : List Token) :
    Scan.length tokens = Token.total tokens := by
  have hFrom :
      ∀ (tokens : List Token) (start : Length),
        tokens.foldl (fun sum token => sum + token.length)
            start =
          start + Token.total tokens := by
    intro tokens
    induction tokens with
    | nil => simp
    | cons token rest ih => simp [ih, add_assoc]
  rw [Scan.length, hFrom, zero_add]

namespace TokenStream

/-
  The tokens of a scan are all read, if the stretch up to
  each of them fits.
-/
theorem readUpTo_scanned
    {passed tokens : List Token}
    {count : Nat}
    (length : Length)
    (hFits : Token.AllFit (passed ++ tokens))
    (hCount : tokens.length ≤ count) :
    ∃ after,
      readUpTo count
          ⟨.scanned tokens length, Token.total passed⟩ =
        .ok (tokens, after) := by
  induction count generalizing passed tokens with
  | zero =>
      rcases List.length_eq_zero_iff.1
          (Nat.le_zero.1 hCount) with
        rfl
      exact ⟨_, rfl⟩
  | succ count ih =>
      cases tokens with
      | nil => exact ⟨_, rfl⟩
      | cons token rest =>
          have hPlace :
              (Token.total passed + token.length).Fits := by
            have hHere :=
              hFits (passed ++ [token]) rest (by simp)
            simpa using hHere
          have hRestFits :
              Token.AllFit (passed ++ [token] ++ rest) := by
            rwa [List.append_assoc]
          rcases ih hRestFits
              (Nat.le_of_succ_le_succ hCount) with
            ⟨after, hRest⟩
          rw [Token.total_append, Token.total_cons,
            Token.total_nil, add_zero] at hRest
          refine ⟨after, ?_⟩
          rw [readUpTo, read]
          simp only [TokenStream.passed, Length.plus_eq_ok hPlace, bind,
            Except.bind, pure, Except.pure, hRest]

end TokenStream

end Bracketry

------------------------------------------------------------
-- Two Tokenizers
------------------------------------------------------------

namespace Bracketry

open Measured

/- The characters of a short text. -/
theorem isSmall_chars
    {text : List Char}
    (hShort : Text.IsShort text) :
    IsSmall text := by
  rintro before behind rfl
  have hBytes :=
    TextByte.extent_le_length (TextByte.ofText before)
  rw [TextByte.extent_ofText, TextByte.length_ofText,
    ← extent_chars] at hBytes
  rw [Text.IsShort, Text.byteSize_append] at hShort
  omega

namespace TokenTable

/- What is read of a line is scanned in it as well. -/
theorem readOn_sublist
    (table : TokenTable)
    (line : Nat)
    (text : List Char) :
    (table.readOn line text).Sublist
      (table.scannedOn line text) :=
  (List.takeWhile_sublist _).filterMap _

variable {table : TokenTable} {text : List Char}

/- A scan of a short text gives all its tokens. -/
theorem exists_readAll_text
    (hSolid : table.IsSolid)
    (hFlat : table.IsFlat)
    (hShort : Text.IsShort text) :
    ∃ tokens after,
      (TokenStream.ofText table text).readAll =
          .ok (tokens, after) ∧
        (TokenStream.ofText table text).length =
          Length.ofText text ∧
        Token.total tokens = Length.ofText text ∧
        Placed.brackets (Placed.row 0 tokens) =
          Line.gather table.scannedOn 0 (Line.split text) := by
  have hSpells := Scan.spells_tokens hSolid hFlat text
  have hSmall : IsSmall (text ++ []) := by
    rw [List.append_nil]
    exact isSmall_chars hShort
  have hTotal :
      Token.total (Scan.tokens table text) =
        Length.ofText text := by
    rw [← hSpells.extent_eq, extent_chars]
  have hFits :
      Token.AllFit ([] ++ Scan.tokens table text) :=
    hSpells.allFit hSmall
  rcases TokenStream.readUpTo_scanned
      (Scan.length (Scan.tokens table text)) hFits
      (Nat.le_succ _) with
    ⟨after, hRead⟩
  refine ⟨_, after, hRead, ?_, hTotal,
    Scan.brackets_tokens hSolid hFlat text⟩
  rw [← hTotal, ← Scan.length_eq_total]
  rfl

/- A reader of the lines of a short text gives its tokens. -/
theorem exists_readAll_lines
    (hSolid : table.IsSolid)
    (hShort : Text.IsShort text) :
    ∃ tokens after,
      (TokenStream.ofLines
          (.ofText table text .plain)).readAll =
          .ok (tokens, after) ∧
        (TokenStream.ofLines
          (.ofText table text .plain)).length =
          Length.ofText text ∧
        Token.total tokens = Length.ofText text ∧
        Placed.brackets (Placed.row 0 tokens) =
          Line.gather table.readOn 0 (Line.split text) := by
  have hOf :
      (LineSource.ofText table text .plain).IsOf text :=
    LineSource.isOf_of_isShort rfl hShort
  have hSorted : SpanTable.plain.IsSorted := by
    rintro spans ⟨⟩
  have hSound :
      (LineByte.script (.ofText table text .plain) text
        0).IsSound :=
    LineByte.isSound_script hOf hSolid hSorted hShort
  rcases hSound.exists_readUpTo rfl hSound.start hSound.few with
    ⟨tokens, after, hRead, hSpells⟩
  refine ⟨tokens, after, hRead, LineSource.length_eq hOf, ?_,
    ?_⟩
  · rw [← hSpells.extent_eq]
    exact (LineByte.extent_stamp _ _ _).trans
      (TextByte.extent_ofText text)
  · rw [LineByte.readable_of_spells hShort hSpells]
    exact LineSource.brackets_plain hSolid rfl hOf

end TokenTable

namespace TokenStream

/-
  A scan of a short text and a reader of its lines, where all
  is code, are never refused.  Both cover the whole text, and
  they have the same brackets at the same places just where
  no token of a line stands behind a match that is none.
-/
theorem brackets_eq_iff_isUnbroken
    {declaration : BracketDeclaration}
    {text : List Char}
    (hFlat : declaration.IsFlat)
    (hShort : Text.IsShort text) :
    let table := TokenTable.ofDeclaration declaration
    let whole := ofText table text
    let lines := ofLines (.ofText table text .plain)
    ∃ scanned read wholeEnd linesEnd,
      whole.readAll = .ok (scanned, wholeEnd) ∧
        lines.readAll = .ok (read, linesEnd) ∧
        whole.length = Length.ofText text ∧
        lines.length = Length.ofText text ∧
        Token.total scanned = Length.ofText text ∧
        Token.total read = Length.ofText text ∧
        (Placed.brackets (Placed.row 0 read) =
            Placed.brackets (Placed.row 0 scanned) ↔
          ∀ line ∈ Line.split text,
            table.IsUnbroken line.text) := by
  intro table whole lines
  have hSolid := TokenTable.isSolid_ofDeclaration declaration
  have hKeys := TokenTable.isFlat_ofDeclaration hFlat
  rcases TokenTable.exists_readAll_text hSolid hKeys hShort with
    ⟨scanned, wholeEnd, hScan, hWhole, hScanned, hScanBrackets⟩
  rcases TokenTable.exists_readAll_lines hSolid hShort with
    ⟨read, linesEnd, hRead, hLines, hTotal, hReadBrackets⟩
  refine ⟨scanned, read, wholeEnd, linesEnd, hScan, hRead,
    hWhole, hLines, hScanned, hTotal, ?_⟩
  rw [hScanBrackets, hReadBrackets]
  exact Line.gather_eq_iff table.readOn_sublist
    (fun _ _ => TokenTable.placed_takeWhile_iff) 0 _

/- A match of a letter is as wide as the letter. -/
theorem brackets_eq_iff_isUnbroken_letters :
    let declaration : BracketDeclaration :=
      ⟨[⟨['k'], ['x']⟩, ⟨['('], [')']⟩], none⟩
    let text := ['K', ' ', '(', '\n', 'x', ')']
    let table := TokenTable.ofDeclaration declaration
    ∃ scanned read wholeEnd linesEnd,
      (ofText table text).readAll =
          .ok (scanned, wholeEnd) ∧
        (ofLines (.ofText table text .plain)).readAll =
          .ok (read, linesEnd) ∧
        Placed.brackets (Placed.row 0 read) =
          Placed.brackets (Placed.row 0 scanned) := by
  intro declaration text table
  have hFlat : declaration.IsFlat := by decide
  have hShort : Text.IsShort text := by decide
  have hUnbroken :
      ∀ line ∈ Line.split text,
        table.IsUnbroken line.text := by
    decide +kernel
  rcases brackets_eq_iff_isUnbroken hFlat hShort with
    ⟨scanned, read, wholeEnd, linesEnd, hScan, hRead, _, _, _,
      _, hSame⟩
  exact ⟨scanned, read, wholeEnd, linesEnd, hScan, hRead,
    hSame.2 hUnbroken⟩

end TokenStream

end Bracketry
