import Bracketry.Fault

/-
  Fields of a text.

  A field ends at the first character of a kind.  Blanks
  around it do not count.  A count is written in decimal
  digits, with or without a plus sign.

  Key definitions include:
    * `Text.splitFirst?`
    * `Text.isWhitespace`, `Text.trim`
    * `Text.count?`
-/

------------------------------------------------------------
-- Cutting
------------------------------------------------------------

namespace Bracketry

namespace Text

/- Cut at the first character of a kind and leave it out. -/
def splitFirst?
    (isMark : Char → Bool) :
    List Char → Option (List Char × List Char)
  | [] => none
  | c :: rest =>
      if isMark c then some ([], rest)
      else
        (splitFirst? isMark rest).map
          fun (before, behind) => (c :: before, behind)

/-
  A text is cut into what has no mark, a mark, and the rest.
-/
theorem splitFirst?_eq_some_iff
    {isMark : Char → Bool}
    {text before behind : List Char} :
    splitFirst? isMark text = some (before, behind) ↔
      ∃ mark, isMark mark = true ∧
        (∀ c ∈ before, isMark c = false) ∧
        text = before ++ mark :: behind := by
  induction text generalizing before with
  | nil => simp [splitFirst?]
  | cons c rest ih =>
      unfold splitFirst?
      split
      · rename_i hMark
        constructor
        · intro h
          simp only [Option.some.injEq, Prod.mk.injEq] at h
          refine ⟨c, hMark, ?_, ?_⟩ <;> simp [← h.1, ← h.2]
        · rintro ⟨mark, _, hBefore, hText⟩
          cases before with
          | nil => simp_all
          | cons d before =>
              have hHead := hBefore d (by simp)
              simp_all
      · rename_i hMark
        constructor
        · intro h
          simp only [Option.map_eq_some_iff, Prod.mk.injEq,
            Prod.exists] at h
          rcases h with ⟨first, last, hCut, hFirst, hLast⟩
          subst hFirst
          subst hLast
          rcases ih.1 hCut with ⟨mark, hIs, hFree, hRest⟩
          refine ⟨mark, hIs, ?_, by simp [hRest]⟩
          simpa [hMark] using hFree
        · rintro ⟨mark, hIs, hFree, hText⟩
          cases before with
          | nil => simp_all
          | cons d before =>
              simp only [List.cons_append,
                List.cons.injEq] at hText
              have hCut := ih.2 ⟨mark, hIs,
                fun x hx => hFree x (by simp [hx]),
                hText.2⟩
              simp [hCut, hText.1]

end Text

end Bracketry

------------------------------------------------------------
-- Blanks
------------------------------------------------------------

namespace Bracketry

namespace Text

/- A character with the property White_Space. -/
def isWhitespace
    (c : Char) :
    Bool :=
  (9 ≤ c.toNat && c.toNat ≤ 13) ||
    (8192 ≤ c.toNat && c.toNat ≤ 8202) ||
    [32, 133, 160, 5760, 8232, 8233, 8239, 8287,
      12288].contains c.toNat

/- A text without the blanks at its end. -/
def trimEnd : List Char → List Char
  | [] => []
  | c :: rest =>
      match trimEnd rest with
      | [] => if isWhitespace c then [] else [c]
      | kept => c :: kept

/- A text without the blanks around it. -/
def trim
    (text : List Char) :
    List Char :=
  trimEnd (text.dropWhile isWhitespace)

end Text

end Bracketry

------------------------------------------------------------
-- Counts
------------------------------------------------------------

namespace Bracketry

namespace Text

/- A number in decimal digits behind one that was read. -/
def decimalFrom?
    (number : Nat) :
    List Char → Option Nat
  | [] => some number
  | c :: rest =>
      if c.isDigit then
        decimalFrom? (number * 10 + (c.toNat - '0'.toNat))
          rest
      else none

/- A number in decimal digits, at least one. -/
def decimal? : List Char → Option Nat
  | [] => none
  | c :: rest => decimalFrom? 0 (c :: rest)

/- A 32-bit count, with or without a plus sign. -/
def count?
    (text : List Char) :
    Option Nat := do
  let number ←
    match text with
    | '+' :: digits => decimal? digits
    | digits => decimal? digits
  if number < countLimit then return number else none

end Text

end Bracketry
