import Bracketry.Proofs.Matching
import Bracketry.Proofs.Tables

/-
  Parsing from scratch is matching with a stack.

  Without an old tree, a parse reads every token of a scan.
  The tree that it makes shows the forest that a matcher
  makes of the tokens, and its leaves are as long as the
  tokens, one by one.

  Key definitions include:
    * `Feed.IsScanning`, `Feed.scanned`

  Main declarations:
    * `parseDocument_scanned`
-/

------------------------------------------------------------
-- Scanned Tokens
------------------------------------------------------------

namespace Bracketry

namespace Feed

/- A parser without an old tree in front of some tokens. -/
def IsScanning
    (tokens : List Token)
    (parser : Parser)
    (ahead : List Token) :
    Prop :=
  parser.old = none ∧
    ∃ before length,
      tokens = before ++ ahead ∧
        parser.stream =
          ⟨.scanned ahead length, Token.total before⟩

/- It looks at the next of the tokens ahead. -/
theorem IsScanning.ahead_iff
    {tokens ahead : List Token}
    {parser : Parser}
    {next : Option Token}
    (h : IsScanning tokens parser ahead) :
    parser.Ahead next ↔ ahead.head? = next := by
  rcases h with ⟨_, before, length, _, hStream⟩
  rw [Parser.Ahead, hStream]
  simp [TokenStream.peek]

/- The feed of tokens that were scanned. -/
def scanned
    (tokens : List Token) :
    Feed (List Token) where
  Reads a part b :=
    a = part ++ b ∧ ∃ before, tokens = before ++ a
  room := List.length
  hides level := Parser.maxNestingLevel < level
  opens level := level ≤ Parser.maxNestingLevel
  reuses := false
  Ready := IsScanning tokens
  Stuck := IsScanning tokens

variable {tokens : List Token}

theorem isSound_scanned
    (hRegular : ∀ token ∈ tokens, token.IsRegular)
    (hFits : Token.AllFit tokens)
    (hFew : tokens.length < 2 ^ 64) :
    (scanned tokens).IsSound where
  hides_of_lt h := h
  opens_of_le h := h
  reads_nil := by
    rintro parser place ⟨_, before, _, hTokens, _⟩
    exact ⟨rfl, before, hTokens⟩
  reads_append := by
    rintro a b c part others ⟨rfl, hFirst⟩ ⟨rfl, _⟩
    exact ⟨(List.append_assoc _ _ _).symm, hFirst⟩
  fits_of_reads := by
    rintro a b part others ⟨rfl, before, hTokens⟩
    have hFit := hFits (before ++ part) (others ++ b)
      (by simp [hTokens])
    rw [Token.total_append] at hFit
    exact Length.fits_of_add hFit
  room_of_reads := by
    rintro a b part ⟨rfl, _⟩
    simp only [scanned, List.length_append]
    omega
  room_lt := by
    rintro parser place ⟨_, before, _, hTokens, _⟩
    rw [hTokens, List.length_append] at hFew
    simp only [scanned]
    omega
  isSome_old := by
    rintro parser place ⟨hOld, _⟩
    rw [hOld]
    rfl
  ready_of_stuck h := h
  ready_count h := h
  reuse := by
    rintro parser place hReady opened
    refine .inl ⟨parser, ?_, hReady⟩
    rw [Parser.reuse?, hReady.1]
  reuse_of_stuck := by
    rintro parser place hReady opened
    refine ⟨parser, ?_, hReady, rfl⟩
    rw [Parser.reuse?, hReady.1]
  peek := by
    intro parser place hReady
    have hAhead := hReady.ahead_iff.2 rfl
    exact ⟨place.head?, parser,
      Parser.peek_of_ahead hAhead, hAhead, hReady, id⟩
  regular := by
    rintro parser place token hReady hAhead
    have hHead := hReady.ahead_iff.1 hAhead
    rcases hReady with ⟨_, before, _, hTokens, _⟩
    apply hRegular
    rw [hTokens]
    exact List.mem_append_right _ (List.mem_of_head? hHead)
  read := by
    rintro parser place token hReady hAhead
    rcases List.head?_eq_some_iff.1
        (hReady.ahead_iff.1 hAhead) with
      ⟨rest, rfl⟩
    rcases hReady with ⟨hOld, before, length, hTokens, hStream⟩
    have hFit := hFits (before ++ [token]) rest
      (by simp [hTokens])
    rw [Token.total_append, Token.total_cons,
      Token.total_nil, add_zero] at hFit
    refine ⟨{ parser with stream :=
      ⟨.scanned rest length,
        Token.total before + token.length⟩ }, rest, ?_,
      ⟨rfl, before, hTokens⟩, hOld, before ++ [token],
      length, by simp [hTokens], by simp⟩
    have hRead :
        parser.stream.read =
          .ok (some token, ⟨.scanned rest length,
            Token.total before + token.length⟩) := by
      rw [hStream]
      exact TokenStream.passed_eq _ _ hFit
    rw [Parser.read, hRead]
    rfl

end Feed

end Bracketry

------------------------------------------------------------
-- Parsing a Scan
------------------------------------------------------------

namespace Bracketry

/- A parse reads all tokens of a scan. -/
theorem parseDocument_of_tokens
    {tokens : List Token}
    (hRegular : ∀ token ∈ tokens, token.IsRegular)
    (hFits : Token.AllFit tokens)
    (hFew : tokens.length < 2 ^ 64)
    (length : Length) :
    ∃ root stats, ∃ forest : Forest Token,
      parseDocument ⟨.scanned tokens length, 0⟩ [] none =
          .ok (root, stats) ∧
        root.IsRoot ∧ root.shape = forest.shape ∧
        forest.IsMatched ∧ forest.IsDeepFrom 0 ∧
        forest.leaves = tokens := by
  have hReady :
      Feed.IsScanning tokens
        (Parser.ofStream ⟨.scanned tokens length, 0⟩
          ⟨[], Shift.identity, none⟩ none) tokens :=
    ⟨rfl, [], length, rfl, rfl⟩
  have hBound :
      tokens.length <
        (Parser.ofStream ⟨.scanned tokens length, 0⟩
          ⟨[], Shift.identity, none⟩ none).itemBound := by
    simp only [Parser.itemBound, Parser.ofStream,
      TokenStream.bound, Option.map_none]
    omega
  have hMap :
      PositionMap.ofEdits [] =
        .ok ⟨[], Shift.identity, none⟩ := rfl
  rcases Feed.parsed_root
      (Feed.isSound_scanned hRegular hFits hFew) hMap hReady
      hBound with
    ⟨root, stats, forest, parser, stop, hParse, hRoot, hShape,
      hMatched, hDeep, hReads, hEnd, hAhead⟩
  refine ⟨root, stats, forest, hParse, hRoot, hShape,
    hMatched, hDeep, ?_⟩
  have hStop :=
    List.head?_eq_none_iff.1 (hEnd.ahead_iff.1 hAhead)
  rw [hReads.1, hStop, List.append_nil]

end Bracketry
