import Bracketry.Proofs.ByteReading
import Bracketry.Proofs.Marks
import Bracketry.Proofs.Scans

/-
  Brackets that are single characters.

  A symbol is an ASCII character that is no part of a word.
  No other character folds to it, and it is found wherever
  it stands.  Where all literals are symbols, the brackets of
  a text are those of its parts, one part behind the other,
  and where all is code, a source marks just these.

  Key definitions include:
    * `IsSymbol`
    * `TokenTable.IsSymbolic`, `TokenTable.sign?`
    * `TokenTable.symbols`

  Main declarations:
    * `TokenTable.IsSymbolic.firstAt?_eq`
    * `TokenTable.isSymbolic_ofDeclaration`
    * `Line.split_append`
    * `LineSource.bracketsFrom_eq`
-/

------------------------------------------------------------
-- Symbols
------------------------------------------------------------

namespace Bracketry

/- A character by which a literal asks for no boundary. -/
def IsSymbol
    (c : Char) :
    Prop :=
  0 < c.toNat ∧ c.toNat < 128 ∧
    Pattern.asksBoundary c = false ∧ ¬IsBreak c

instance (c : Char) : Decidable (IsSymbol c) :=
  inferInstanceAs (Decidable (_ ∧ _))

/- Partners are no ASCII characters, or else letters. -/
theorem CaseRun.partner_spec
    {code : Nat}
    {runs : List CaseRun}
    (hTargets :
      ∀ run ∈ runs,
        128 ≤ run.target ∨
          run.first = run.last ∧
            isAsciiAlphanumeric run.target = true)
    (hCode : 128 ≤ code) :
    128 ≤ partner code runs ∨
      isAsciiAlphanumeric (partner code runs) = true := by
  induction runs with
  | nil => exact .inl hCode
  | cons run rest ih =>
      rw [List.forall_mem_cons] at hTargets
      have hRest := ih hTargets.2
      unfold partner
      split_ifs with hFirst hLast hStep
      · exact .inl hCode
      · rcases hTargets.1 with hHigh | ⟨hOne, hLetter⟩
        · exact .inl (by omega)
        · have hHere : code - run.first = 0 := by omega
          rw [hHere]
          exact .inr hLetter
      · exact hRest
      · exact hRest

theorem Case.folding_spec :
    ∀ run ∈ Case.folding,
      128 ≤ run.target ∨
        run.first = run.last ∧
          isAsciiAlphanumeric run.target = true := by
  decide +kernel

theorem IsSymbol.not_alphanumeric
    {c : Char}
    (h : IsSymbol c) :
    isAsciiAlphanumeric c.toNat = false := by
  rcases h with ⟨_, hAscii, hWord, _⟩
  rw [Pattern.asksBoundary, Bool.or_eq_false_iff,
    isAlphanumeric, if_pos hAscii] at hWord
  exact hWord.1

/- No other character folds to a symbol. -/
theorem IsSymbol.eq_of_foldChar
    {c d : Char}
    (hSymbol : IsSymbol d)
    (h : foldChar c = d) :
    c = d := by
  have hWord := hSymbol.not_alphanumeric
  rcases hSymbol with ⟨hPos, hAscii, _⟩
  unfold foldChar at h
  split_ifs at h with hLow hUpper
  · subst h
    rw [toNat_ofNat hPos] at hWord
    simp only [isAsciiUpper, isAsciiAlphanumeric,
      Bool.and_eq_true, Bool.or_eq_false_iff,
      Bool.and_eq_false_iff, decide_eq_true_eq,
      decide_eq_false_iff_not] at hUpper hWord
    omega
  · exact h
  · subst h
    rw [toNat_ofNat hPos] at hAscii hWord
    rcases CaseRun.partner_spec Case.folding_spec
      (Nat.not_lt.1 hLow) with hHigh | hLetter
    · omega
    · rw [hWord] at hLetter
      cases hLetter

theorem IsSymbol.foldChar_eq
    {c : Char}
    (h : IsSymbol c) :
    foldChar c = c := by
  have hWord := h.not_alphanumeric
  rcases h with ⟨_, hAscii, _⟩
  rw [foldChar, if_pos hAscii, if_neg]
  intro hUpper
  simp only [isAsciiUpper, isAsciiAlphanumeric,
      Bool.and_eq_true, Bool.or_eq_false_iff,
      Bool.and_eq_false_iff, decide_eq_true_eq,
      decide_eq_false_iff_not] at hUpper hWord
  omega

theorem utf8Size_eq_one
    {c : Char} :
    c.utf8Size = 1 ↔ c.toNat < 128 := by
  rw [Char.utf8Size_eq_one_iff, UInt32.le_iff_toNat_le]
  exact Nat.lt_succ_iff.symm

/- A character of one byte has its lower case by itself. -/
theorem lowercaseFrom_of_ascii
    {c : Char}
    (passed rest : List Char)
    (h : c.toNat < 128) :
    Text.lowercaseFrom passed (c :: rest) =
      foldChar c :: Text.lowercaseFrom (c :: passed) rest := by
  have hSigma : c ≠ 'Σ' := by
    rintro rfl
    exact absurd h (by decide)
  have hDotted : c ≠ 'İ' := by
    rintro rfl
    exact absurd h (by decide)
  rw [Text.lowercaseFrom, if_neg hSigma, if_neg hDotted,
    lowerChar, foldChar, if_pos h, if_pos h]
  rfl

theorem lowercase_of_ascii
    {c : Char}
    (h : c.toNat < 128) :
    Text.lowercase [c] = [foldChar c] :=
  lowercaseFrom_of_ascii [] [] h

/- A symbol is matched wherever it stands. -/
theorem IsSymbol.matchAt?_eq
    {c d : Char}
    (hSymbol : IsSymbol d)
    (before : Option Char)
    (rest : List Char) :
    Pattern.matchAt? before (c :: rest) [d] =
      if d = c then some ([c], rest) else none := by
  have hFold : foldChar d = foldChar c ↔ d = c := by
    rw [hSymbol.foldChar_eq]
    constructor
    · intro hSame
      exact (hSymbol.eq_of_foldChar hSame.symm).symm
    · rintro rfl
      exact hSymbol.foldChar_eq.symm
  simp only [Pattern.matchAt?, Pattern.startAllowed,
    Pattern.endAllowed, List.head?_cons, hSymbol.2.2.1,
    Pattern.strip?, hFold, List.getLast?_singleton]
  split_ifs <;> simp_all

end Bracketry

------------------------------------------------------------
-- Tables of Symbols
------------------------------------------------------------

namespace Bracketry

namespace TokenTable

/- Each literal is one symbol. -/
def IsSymbolic
    (table : TokenTable) :
    Prop :=
  ∀ entry ∈ table.entries,
    ∃ c, IsSymbol c ∧ entry.key = [c] ∧
      entry.bracket.length = ⟨0, 1⟩

/- The bracket that a character is. -/
def sign?
    (table : TokenTable)
    (c : Char) :
    Option Token :=
  table.tokenOfMatch? [c]

variable {table : TokenTable}

theorem IsSymbolic.isFlat
    (h : table.IsSymbolic) :
    table.IsFlat := by
  intro entry hEntry c hChar
  rcases h entry hEntry with ⟨symbol, hSymbol, hKey, _⟩
  rw [hKey, List.mem_singleton] at hChar
  rw [hChar]
  exact hSymbol.2.2.2

/- A bracket is the symbol of an entry. -/
theorem IsSymbolic.exists_of_sign?
    {c : Char}
    {token : Token}
    (h : table.IsSymbolic)
    (hSign : table.sign? c = some token) :
    IsSymbol c ∧ token.length = ⟨0, 1⟩ ∧
      token.isBracket = true ∧ [c] ∈ table.literals := by
  rcases of_tokenOfMatch? hSign with ⟨hToken, hSize⟩
  have hEntry :
      ∃ entry ∈ table.entries,
        entry.token = token ∧
          (entry.key = [c] ∨
            entry.key = Text.lowercase [c]) := by
    unfold token? entry? at hToken
    split at hToken
    · rename_i entry hFind
      have hKey := List.find?_some hFind
      exact ⟨entry, List.mem_of_find?_eq_some hFind,
        Option.some.inj hToken, .inl (by simpa using hKey)⟩
    · rcases Option.map_eq_some_iff.1 hToken with
        ⟨entry, hFind, hSame⟩
      have hKey := List.find?_some hFind
      exact ⟨entry, List.mem_of_find?_eq_some hFind, hSame,
        .inr (by simpa using hKey)⟩
  rcases hEntry with ⟨entry, hMem, rfl, hKey⟩
  rcases h entry hMem with ⟨symbol, hSymbol, hOwn, hLength⟩
  have hOne : entry.token.length = ⟨0, 1⟩ := hLength
  rw [hOne, Text.byteSize, Text.byteSize, Nat.add_zero]
    at hSize
  have hSame : c = symbol := by
    rw [hOwn] at hKey
    rcases hKey with hKey | hKey
    · exact (List.cons.inj hKey).1.symm
    · rw [lowercase_of_ascii (utf8Size_eq_one.1 hSize.symm)]
        at hKey
      exact
        hSymbol.eq_of_foldChar (List.cons.inj hKey).1.symm
  subst hSame
  exact ⟨hSymbol, hOne, rfl,
    List.mem_map.2 ⟨entry, hMem, hOwn⟩⟩

/- The symbols of entries are brackets. -/
theorem IsSymbolic.exists_sign
    {c : Char}
    (h : table.IsSymbolic)
    (hMem : [c] ∈ table.literals) :
    ∃ token, table.sign? c = some token := by
  rcases List.mem_map.1 hMem with ⟨entry, hEntry, hKey⟩
  cases hFind : table.entry? [c] with
  | none =>
      have hNone :=
        List.find?_eq_none.1 hFind entry hEntry
      simp [hKey] at hNone
  | some found =>
      rcases h found (List.mem_of_find?_eq_some hFind) with
        ⟨symbol, hSymbol, hOwn, hLength⟩
      have hSame := List.find?_some hFind
      simp only [hOwn, beq_iff_eq, List.cons.injEq,
        and_true] at hSame
      subst hSame
      have hSize := utf8Size_eq_one.2 hSymbol.2.1
      refine ⟨found.token, ?_⟩
      simp [sign?, tokenOfMatch?, token?, hFind, hLength,
        TokenEntry.token, Token.length, Text.byteSize, hSize]
/- What is found at a place is the bracket there. -/
theorem IsSymbolic.firstAt?_eq
    (h : table.IsSymbolic)
    (before : Option Char)
    (c : Char)
    (rest : List Char) :
    Pattern.firstAt? table.literals before (c :: rest) =
      (table.sign? c).map fun _ => ([c], rest) := by
  cases hSign : table.sign? c with
  | none =>
      rw [Option.map_none, Pattern.firstAt?,
        List.findSome?_eq_none_iff]
      intro key hKey
      rcases List.mem_map.1 hKey with ⟨entry, hEntry, rfl⟩
      rcases h entry hEntry with ⟨symbol, hSymbol, hOwn, _⟩
      rw [hOwn] at hKey ⊢
      rw [hSymbol.matchAt?_eq, if_neg]
      rintro rfl
      rcases h.exists_sign hKey with ⟨token, hToken⟩
      rw [hSign] at hToken
      cases hToken
  | some token =>
      rcases h.exists_of_sign? hSign with ⟨hSymbol, _, _, hMem⟩
      rw [Option.map_some, Pattern.firstAt?]
      cases hFound :
          table.literals.findSome?
            (Pattern.matchAt? before (c :: rest)) with
      | none =>
          have hNone :=
            List.findSome?_eq_none_iff.1 hFound [c] hMem
          rw [hSymbol.matchAt?_eq, if_pos rfl] at hNone
          cases hNone
      | some found =>
          rcases List.exists_of_findSome?_eq_some hFound with
            ⟨key, hKey, hMatch⟩
          rcases List.mem_map.1 hKey with ⟨entry, hEntry, rfl⟩
          rcases h entry hEntry with ⟨symbol, hOther, hOwn, _⟩
          rw [hOwn, hOther.matchAt?_eq] at hMatch
          split_ifs at hMatch
          exact hMatch.symm

/- The search goes on behind a character that is none. -/
theorem IsSymbolic.find?_cons
    (h : table.IsSymbolic)
    (before : Option Char)
    (c : Char)
    (rest : List Char) :
    Pattern.find? table.literals before (c :: rest) =
      if (table.sign? c).isSome then some ⟨[], [c]⟩
      else
        (Pattern.find? table.literals (some c) rest).map
          fun found => ⟨c :: found.skipped, found.found⟩ := by
  rw [Pattern.find?, h.firstAt?_eq]
  cases table.sign? c with
  | none =>
      cases Pattern.find? table.literals (some c) rest <;> rfl
  | some token => rfl

end TokenTable

end Bracketry

------------------------------------------------------------
-- Declared Symbols
------------------------------------------------------------

namespace Bracketry

/- The literal is one symbol. -/
def IsSign : List Char → Prop
  | [c] => IsSymbol c
  | _ => False

instance :
    (literal : List Char) → Decidable (IsSign literal)
  | [] => .isFalse id
  | [c] => inferInstanceAs (Decidable (IsSymbol c))
  | _ :: _ :: _ => .isFalse id

theorem IsSign.exists_symbol
    {literal : List Char}
    (h : IsSign literal) :
    ∃ c, IsSymbol c ∧ literal = [c] := by
  cases literal with
  | nil => cases h
  | cons c rest =>
      cases rest with
      | nil => exact ⟨c, h, rfl⟩
      | cons d others => cases h

/- All declared literals are symbols. -/
def BracketDeclaration.IsSymbolic
    (declaration : BracketDeclaration) :
    Prop :=
  ∀ pair ∈ declaration.declared,
    IsSign pair.opener ∧ IsSign pair.closer

instance
    (declaration : BracketDeclaration) :
    Decidable declaration.IsSymbolic :=
  inferInstanceAs (Decidable (∀ _ ∈ _, _))

theorem TokenTable.isSymbolic_ofDeclaration
    {declaration : BracketDeclaration}
    (h : declaration.IsSymbolic) :
    (ofDeclaration declaration).IsSymbolic := by
  intro entry hEntry
  rcases exists_literal hEntry with
    ⟨pair, hPair, literal, hLiteral, hKey, hLength, _⟩
  rcases h pair hPair with ⟨hOpener, hCloser⟩
  have hSign : IsSign literal := by
    rcases hLiteral with rfl | rfl
    · exact hOpener
    · exact hCloser
  rcases hSign.exists_symbol with ⟨c, hSymbol, rfl⟩
  refine ⟨c, hSymbol, ?_, ?_⟩
  · rw [hKey, lowercase_of_ascii hSymbol.2.1,
      hSymbol.foldChar_eq]
  · rw [hLength, literalLength, Text.byteSize,
      utf8Size_eq_one.2 hSymbol.2.1]
    rfl

end Bracketry

------------------------------------------------------------
-- Brackets of a Text
------------------------------------------------------------

namespace Bracketry

namespace TokenTable

/- The brackets of a text that begins at a place. -/
def symbols
    (table : TokenTable)
    (place : Position) :
    List Char → List Placed
  | [] => []
  | c :: rest =>
      ((table.sign? c).map (Placed.mk place)).toList ++
        symbols table (place + Length.ofChar c) rest

variable {table : TokenTable}

theorem symbols_append
    (place : Position)
    (a b : List Char) :
    table.symbols place (a ++ b) =
      table.symbols place a ++
        table.symbols (place + Length.ofText a) b := by
  induction a generalizing place with
  | nil => rw [Length.ofText_nil, add_zero]; rfl
  | cons c rest ih =>
      rw [List.cons_append, symbols, ih, symbols,
        List.append_assoc, Length.ofText_cons, add_assoc]

end TokenTable

namespace LineReader

variable {table : TokenTable}

/- A search up to the end of a line. -/
theorem findBracket?_rest
    (table : TokenTable)
    (before rest : List Char) :
    findBracket? table (before ++ rest)
        (Text.byteSize before)
        (Text.byteSize (before ++ rest)) =
      (Pattern.find? table.literals before.getLast?
        rest).bind fun found =>
          (table.tokenOfMatch? found.found).map fun token =>
            (Text.byteSize found.skipped, token) := by
  have hAll := Text.splitAt?_append (before ++ rest) []
  rw [List.append_nil] at hAll
  simp only [findBracket?, hAll, Text.splitAt?_append,
    Option.bind_eq_bind, Option.bind_some, Option.pure_def]
  congr 1
  funext found
  cases table.tokenOfMatch? found.found <;> rfl

/- A bracket in front is found first. -/
theorem findBracket?_sign
    {c : Char}
    {token : Token}
    (before rest : List Char)
    (h : table.IsSymbolic)
    (hSign : table.sign? c = some token) :
    findBracket? table (before ++ c :: rest)
        (Text.byteSize before)
        (Text.byteSize (before ++ c :: rest)) =
      some (0, token) := by
  rw [findBracket?_rest, h.find?_cons, hSign]
  simp only [Option.isSome_some, if_true, Option.bind_some]
  rw [show table.tokenOfMatch? [c] = some token from hSign]
  rfl

/- Other characters are skipped. -/
theorem findBracket?_other
    {c : Char}
    (before rest : List Char)
    (h : table.IsSymbolic)
    (hSign : table.sign? c = none) :
    findBracket? table (before ++ c :: rest)
        (Text.byteSize before)
        (Text.byteSize (before ++ c :: rest)) =
      (findBracket? table (before ++ [c] ++ rest)
        (Text.byteSize (before ++ [c]))
        (Text.byteSize (before ++ [c] ++ rest))).map
          fun found => (c.utf8Size + found.1, found.2) := by
  rw [findBracket?_rest, findBracket?_rest, h.find?_cons,
    hSign, List.getLast?_concat]
  cases Pattern.find? table.literals (some c) rest with
  | none => rfl
  | some found =>
      cases hToken : table.tokenOfMatch? found.found <;>
        simp [hToken, Text.byteSize]

/- The marks of the rest of a line are its brackets. -/
theorem marksBetween_symbols
    {rest : List Char}
    (h : table.IsSymbolic)
    (hSolid : table.IsSolid)
    (hFlat : '\n' ∉ rest)
    (before : List Char)
    (line : Nat) :
    (marksBetween table (before ++ rest)
        (Text.byteSize before)
        (Text.byteSize (before ++ rest))).map
          (fun mark => Placed.mk ⟨line, mark.1⟩ mark.2) =
      table.symbols ⟨line, Text.byteSize before⟩ rest := by
  induction rest generalizing before with
  | nil =>
      rw [List.append_nil, marksBetween_of_le (Nat.le_refl _)]
      rfl
  | cons c rest ih =>
      rw [List.mem_cons, not_or] at hFlat
      have hRest := ih hFlat.2 (before ++ [c])
      have hNext :
          (⟨line, Text.byteSize before⟩ : Position) +
              Length.ofChar c =
            ⟨line, Text.byteSize (before ++ [c])⟩ := by
        rw [Length.ofChar, if_neg (Ne.symm hFlat.1),
          Length.add_def, if_pos rfl, Text.byteSize_append]
        rfl
      have hPos := Char.utf8Size_pos c
      have hStop :
          Text.byteSize before <
            Text.byteSize (before ++ c :: rest) := by
        rw [Text.byteSize_append, Text.byteSize]
        omega
      rw [TokenTable.symbols, hNext, ← hRest]
      have hSame :
          before ++ [c] ++ rest = before ++ c :: rest := by
        simp
      cases hSign : table.sign? c with
      | none =>
          have hFind :=
            findBracket?_other before rest h hSign
          rw [hSame] at hFind ⊢
          rw [Option.map_none, Option.toList_none,
            List.nil_append]
          congr 1
          cases hLater :
              findBracket? table (before ++ c :: rest)
                (Text.byteSize (before ++ [c]))
                (Text.byteSize (before ++ c :: rest)) with
          | none =>
              rw [hLater, Option.map_none] at hFind
              rw [marksBetween_of_none hFind,
                marksBetween_of_none hLater]
          | some found =>
              rw [hLater, Option.map_some] at hFind
              rw [(marksBetween_of_some hSolid hFind).1,
                (marksBetween_of_some hSolid hLater).1]
              simp [Text.byteSize_append, Text.byteSize,
                Nat.add_assoc]
      | some token =>
          have hFind :=
            findBracket?_sign before rest h hSign
          rcases h.exists_of_sign? hSign with
            ⟨hSymbol, hLength, _⟩
          have hOne := utf8Size_eq_one.2 hSymbol.2.1
          rw [(marksBetween_of_some hSolid hFind).1, hLength,
            hSame]
          simp [Text.byteSize_append, Text.byteSize, hOne]

end LineReader

end Bracketry

------------------------------------------------------------
-- Lines behind a Cut
------------------------------------------------------------

namespace Bracketry

namespace Line

/- No line has a line feed in its text. -/
theorem feed_not_mem
    (text : List Char) :
    ∀ line ∈ split text, '\n' ∉ line.text := by
  fun_induction split text with
  | case1 => simp
  | case2 rest ih => simpa using ih
  | case3 rest ih => simpa using ih
  | case4 c rest _ _ hNil ih =>
      exact absurd hNil (split_ne_nil rest)
  | case5 c rest hBreak _ first lines hCons ih =>
      rw [hCons, List.forall_mem_cons] at ih
      rw [List.forall_mem_cons]
      refine ⟨?_, ih.2⟩
      rw [List.mem_cons, not_or]
      exact ⟨Ne.symm hBreak, ih.1⟩

/-
  The lines of a text that is cut, but not inside a line
  break: the first line behind the cut ends one of them.
-/
theorem split_append
    {before behind : List Char}
    {first : Line}
    {rest : List Line}
    (hCut :
      ¬(before.getLast? = some '\r' ∧
        behind.head? = some '\n'))
    (hBehind : split behind = first :: rest) :
    ∃ passed left,
      split (before ++ behind) =
          passed ++ ⟨left ++ first.text, first.ending⟩ :: rest ∧
        Length.ofText before =
          ⟨passed.length, Text.byteSize left⟩ := by
  have hLast :
      ∀ (c : Char) (others : List Char),
        others.getLast? = some '\r' →
          (c :: others).getLast? = some '\r' := by
    intro c others hOthers
    rw [List.getLast?_cons, hOthers]
    rfl
  fun_induction split before with
  | case1 => exact ⟨[], [], by simp [hBehind], rfl⟩
  | case2 others ih =>
      rcases ih (mt (And.imp_left (hLast _ _)) hCut) with
        ⟨passed, left, hSplit, hLength⟩
      refine ⟨⟨[], ['\n']⟩ :: passed, left, ?_, ?_⟩
      · rw [List.cons_append, split, hSplit]
        rfl
      · rw [Length.ofText_cons, hLength]
        exact Length.break_add _
  | case3 others ih =>
      rcases ih (mt (And.imp_left
          (hLast _ _ ∘ hLast '\n' others)) hCut) with
        ⟨passed, left, hSplit, hLength⟩
      refine ⟨⟨[], ['\r', '\n']⟩ :: passed, left, ?_, ?_⟩
      · rw [List.cons_append, List.cons_append, split, hSplit]
        rfl
      · rw [Length.ofText_cons, Length.ofText_cons, hLength,
          ← add_assoc]
        exact Length.break_add _
  | case4 c others _ _ hNil ih =>
      exact absurd hNil (split_ne_nil others)
  | case5 c others hBreak hReturn line lines hCons ih =>
      rcases ih (mt (And.imp_left (hLast _ _)) hCut) with
        ⟨passed, left, hSplit, hLength⟩
      have hNext :
          ¬(c = '\r' ∧
            (others ++ behind).head? = some '\n') := by
        rintro ⟨rfl, hHead⟩
        cases others with
        | nil => exact hCut ⟨rfl, hHead⟩
        | cons d more =>
            exact hReturn more rfl
              (by rw [Option.some.inj hHead])
      rw [List.cons_append, Length.ofText_cons, hLength,
        Length.ofChar, if_neg hBreak, Length.add_def]
      cases passed with
      | nil =>
          refine ⟨[], c :: left, ?_, by simp [Text.byteSize]⟩
          rw [split_cons hBreak hNext hSplit]
          rfl
      | cons line others =>
          refine ⟨⟨c :: line.text, line.ending⟩ :: others,
            left, ?_, by simp⟩
          rw [split_cons hBreak hNext hSplit]
          rfl

end Line

end Bracketry

------------------------------------------------------------
-- Brackets of Lines
------------------------------------------------------------

namespace Bracketry

namespace TokenTable

/- The brackets of the lines below a line. -/
def symbolsBelow
    (table : TokenTable)
    (line : Nat) :
    List Line → List Placed
  | [] => []
  | first :: rest =>
      table.symbols ⟨line + 1, 0⟩ first.text ++
        symbolsBelow table (line + 1) rest

variable {table : TokenTable}

theorem IsSymbolic.sign?_break
    {c : Char}
    (h : table.IsSymbolic)
    (hBreak : IsBreak c) :
    table.sign? c = none := by
  cases hSign : table.sign? c with
  | none => rfl
  | some token =>
      exact absurd hBreak (h.exists_of_sign? hSign).1.2.2.2

theorem symbols_cons_break
    {c : Char}
    (h : table.IsSymbolic)
    (hBreak : IsBreak c)
    (place : Position)
    (rest : List Char) :
    table.symbols place (c :: rest) =
      table.symbols (place + Length.ofChar c) rest := by
  rw [symbols, h.sign?_break hBreak]
  rfl

/- Line breaks are no brackets. -/
theorem symbols_split
    {text : List Char}
    {first : Line}
    {rest : List Line}
    (h : table.IsSymbolic)
    (place : Position)
    (hSplit : Line.split text = first :: rest) :
    table.symbols place text =
      table.symbols place first.text ++
        table.symbolsBelow place.lines rest := by
  have hFeed :
      ∀ place : Position,
        place + Length.ofChar '\n' = ⟨place.lines + 1, 0⟩ :=
    fun _ => rfl
  fun_induction Line.split text
    generalizing place first rest with
  | case1 =>
      rcases List.cons.inj hSplit with ⟨rfl, rfl⟩
      rfl
  | case2 others ih =>
      rcases List.cons.inj hSplit with ⟨rfl, rfl⟩
      rcases List.exists_cons_of_ne_nil
          (Line.split_ne_nil others) with
        ⟨next, more, hNext⟩
      rw [symbols_cons_break h (.inl rfl), hFeed,
        ih _ hNext, hNext]
      rfl
  | case3 others ih =>
      rcases List.cons.inj hSplit with ⟨rfl, rfl⟩
      rcases List.exists_cons_of_ne_nil
          (Line.split_ne_nil others) with
        ⟨next, more, hNext⟩
      rw [symbols_cons_break h (.inr rfl),
        symbols_cons_break h (.inl rfl), hFeed,
        ih _ hNext, hNext]
      rfl
  | case4 c others _ _ hNil ih =>
      exact absurd hNil (Line.split_ne_nil others)
  | case5 c others hBreak hReturn line lines hCons ih =>
      rcases List.cons.inj hSplit with ⟨rfl, rfl⟩
      rw [symbols, ih _ hCons, symbols, List.append_assoc]
      congr 3
      rw [Length.add_lines, Length.ofChar, if_neg hBreak]
      rfl

end TokenTable

end Bracketry

------------------------------------------------------------
-- Sources of Code
------------------------------------------------------------

namespace Bracketry

namespace LineSource

variable {source : LineSource} {text : List Char}

/- Where all is code, one span reaches to the line end. -/
theorem marksAt_plain
    (hOf : source.IsOf text)
    (hPlain : source.spans = SpanTable.plain)
    (place : Position) :
    source.marksAt place =
      LineReader.marksBetween source.table
        (source.content.line place.lines) place.columns
        (Text.byteSize
          (source.content.line place.lines)) := by
  have hWidth := hOf.columnCount_eq place.lines
  rw [marksAt, hPlain, ← hWidth]
  exact List.append_nil _

/- Where all is code, the lines are marked with brackets. -/
theorem markedBelow_eq
    {rest : List Line}
    (h : source.table.IsSymbolic)
    (hSolid : source.table.IsSolid)
    (hPlain : source.spans = SpanTable.plain)
    (hOf : source.IsOf text)
    (line : Nat)
    (hLines : source.content.lines.drop (line + 1) = rest)
    (hFlat : ∀ line ∈ rest, '\n' ∉ line.text) :
    source.markedBelow line rest.length =
      source.table.symbolsBelow line rest := by
  induction rest generalizing line with
  | nil => rfl
  | cons first rest ih =>
      rw [List.forall_mem_cons] at hFlat
      have hHere :
          source.content.lines[line + 1]? = some first := by
        rw [← List.head?_drop, hLines]
        rfl
      have hRest := ih (line + 1)
        (by rw [← List.drop_drop, hLines]; rfl) hFlat.2
      rw [List.length_cons, markedBelow, hRest,
        TokenTable.symbolsBelow]
      congr 1
      have hMarks :=
        LineReader.marksBetween_symbols h hSolid hFlat.1 []
          (line + 1)
      rw [marked, marksAt_plain hOf hPlain,
        Content.line_of_getElem? hHere]
      exact hMarks

/- The line of a place that is not inside a break. -/
theorem exists_lines
    {before behind : List Char}
    (hOf : source.IsOf (before ++ behind))
    (hCut :
      ¬(before.getLast? = some '\r' ∧
        behind.head? = some '\n')) :
    ∃ passed left first rest,
      Line.split behind = first :: rest ∧
        source.content.lines =
          passed ++
            ⟨left ++ first.text, first.ending⟩ :: rest ∧
        Length.ofText before =
          ⟨passed.length, Text.byteSize left⟩ := by
  rcases List.exists_cons_of_ne_nil
      (Line.split_ne_nil behind) with
    ⟨first, rest, hBehind⟩
  rcases Line.split_append hCut hBehind with
    ⟨passed, left, hSplit, hLength⟩
  exact ⟨passed, left, first, rest, hBehind,
    hOf.lines.trans hSplit, hLength⟩

/-
  Where all is code, the brackets from a place on are those
  of the text behind it.  A place is not inside a break.
-/
theorem bracketsFrom_eq
    {before behind : List Char}
    (h : source.table.IsSymbolic)
    (hSolid : source.table.IsSolid)
    (hPlain : source.spans = SpanTable.plain)
    (hOf : source.IsOf (before ++ behind))
    (hCut :
      ¬(before.getLast? = some '\r' ∧
        behind.head? = some '\n')) :
    source.bracketsFrom (Length.ofText before) =
      source.table.symbols (Length.ofText before) behind := by
  rcases exists_lines hOf hCut with
    ⟨passed, left, first, rest, hBehind, hLines, hLength⟩
  have hFlat := Line.feed_not_mem behind
  rw [hBehind, List.forall_mem_cons] at hFlat
  have hHere :
      source.content.line passed.length =
        left ++ first.text :=
    Content.line_of_append hLines
  have hMore :
      source.lastLine - passed.length = rest.length := by
    rw [hOf.lastLine_eq, ← hOf.lines, hLines,
      List.length_append, List.length_cons]
    omega
  have hBelow :=
    markedBelow_eq h hSolid hPlain hOf passed.length
      (by rw [hLines, List.drop_append]; simp) hFlat.2
  rw [TokenTable.symbols_split h _ hBehind, hLength,
    bracketsFrom, hMore, hBelow, marked,
    marksAt_plain hOf hPlain, hHere]
  congr 1
  exact LineReader.marksBetween_symbols h hSolid hFlat.1 _ _

end LineSource

end Bracketry
