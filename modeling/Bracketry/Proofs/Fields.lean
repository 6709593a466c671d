import Bracketry.Text.Field
import Mathlib.Data.List.TakeWhile
import Mathlib.Data.Nat.Digits.Defs
import Mathlib.Tactic.Ring

/-
  What fields of a text are read as.

  A field is cut at the first of its marks.  Trimming takes
  the blanks around a text away and no others.  A count is a
  row of decimal digits, with or without a plus sign, whose
  number fits into 32 bits.

  Key definitions include:
    * `Text.TrimsTo`
    * `Text.decimalValue`, `Text.SpellsCount`
    * `Text.WritesCount`

  Main declarations:
    * `Text.splitFirst?_mark_iff`
    * `Text.trim_eq_iff`
    * `Text.count?_eq_some_iff`
    * `Text.count?_trim_eq_some_iff`
-/

------------------------------------------------------------
-- Cuts
------------------------------------------------------------

namespace Bracketry

namespace Text

/- A text is cut at the first of its marks. -/
theorem splitFirst?_mark_iff
    {mark : Char}
    {text before behind : List Char} :
    splitFirst? (· = mark) text = some (before, behind) ↔
      mark ∉ before ∧ text = before ++ mark :: behind := by
  rw [splitFirst?_eq_some_iff]
  simp only [decide_eq_true_eq, decide_eq_false_iff_not]
  constructor
  · rintro ⟨found, rfl, hFree, hText⟩
    exact ⟨fun hMem => hFree _ hMem rfl, hText⟩
  · rintro ⟨hFree, hText⟩
    exact ⟨mark, rfl, fun c hC hSame => hFree (hSame ▸ hC),
      hText⟩

end Text

end Bracketry

------------------------------------------------------------
-- Blanks
------------------------------------------------------------

namespace Bracketry

namespace Text

variable {text kept right : List Char}

/-
  There are only blanks around what is kept, and none at its
  ends.
-/
def TrimsTo
    (text kept : List Char) :
    Prop :=
  (∃ left right,
      text = left ++ kept ++ right ∧
        (∀ c ∈ left, isWhitespace c = true) ∧
        ∀ c ∈ right, isWhitespace c = true) ∧
    (∀ c, kept.head? = some c → isWhitespace c = false) ∧
    ∀ c, kept.getLast? = some c → isWhitespace c = false

theorem trimEnd_append
    (hRight : ∀ c ∈ right, isWhitespace c = true)
    (hLast :
      ∀ c, kept.getLast? = some c → isWhitespace c = false) :
    trimEnd (kept ++ right) = kept := by
  induction kept with
  | nil =>
      induction right with
      | nil => rfl
      | cons c rest ih =>
          rw [List.forall_mem_cons] at hRight
          have hRest : trimEnd rest = [] := ih hRight.2
          simp [trimEnd, hRest, hRight.1]
  | cons c rest ih =>
      cases rest with
      | nil =>
          have hBlank : trimEnd right = [] := ih (by simp)
          simp [trimEnd, hBlank, hLast c rfl]
      | cons d others =>
          have hRest : trimEnd (d :: others ++ right) =
              d :: others := by
            apply ih
            simpa [List.getLast?_cons_cons] using hLast
          rw [List.cons_append, trimEnd, hRest]

theorem trimEnd_spec
    (text : List Char) :
    (∃ right,
        text = trimEnd text ++ right ∧
          ∀ c ∈ right, isWhitespace c = true) ∧
      ∀ c,
        (trimEnd text).getLast? = some c →
          isWhitespace c = false := by
  induction text with
  | nil => simp [trimEnd]
  | cons c rest ih =>
      rcases ih with ⟨⟨right, hText, hRight⟩, hLast⟩
      unfold trimEnd
      split
      · rename_i hNil
        rw [hNil, List.nil_append] at hText
        subst hText
        split
        · rename_i hBlank
          refine ⟨⟨c :: rest, rfl, ?_⟩, by simp⟩
          exact List.forall_mem_cons.2 ⟨hBlank, hRight⟩
        · rename_i hBlank
          refine ⟨⟨rest, rfl, hRight⟩, ?_⟩
          rintro d ⟨⟩
          simpa using hBlank
      · rename_i hCons
        refine ⟨⟨right, by rw [List.cons_append, ← hText],
          hRight⟩, ?_⟩
        rcases List.exists_cons_of_ne_nil hCons with
          ⟨d, others, hKept⟩
        rw [hKept] at hLast ⊢
        rwa [List.getLast?_cons_cons]

/- Trimming takes the blanks around a text away. -/
theorem trim_eq_iff :
    trim text = kept ↔ TrimsTo text kept := by
  constructor
  · rintro rfl
    rcases trimEnd_spec (text.dropWhile isWhitespace) with
      ⟨⟨right, hBody, hRight⟩, hLast⟩
    refine ⟨⟨text.takeWhile isWhitespace, right, ?_,
      fun c hC => List.mem_takeWhile_imp hC, hRight⟩, ?_,
      hLast⟩
    · rw [List.append_assoc, trim, ← hBody,
        List.takeWhile_append_dropWhile]
    · intro c hHead
      have hNot :=
        List.head?_dropWhile_not isWhitespace text
      rw [hBody, List.head?_append, ← trim, hHead] at hNot
      simpa using hNot
  · rintro ⟨⟨left, right, rfl, hLeft, hRight⟩, hHead, hLast⟩
    rw [trim, List.append_assoc,
      List.dropWhile_append_of_pos hLeft]
    cases kept with
    | nil =>
        have hNone : right.dropWhile isWhitespace = [] :=
          List.dropWhile_eq_nil_iff.2 hRight
        rw [List.nil_append, hNone]
        rfl
    | cons c rest =>
        have hFirst := hHead c rfl
        rw [List.cons_append,
          List.dropWhile_cons_of_neg (by simp [hFirst]),
          ← List.cons_append]
        exact trimEnd_append hRight hLast

end Text

end Bracketry

------------------------------------------------------------
-- Counts
------------------------------------------------------------

namespace Bracketry

namespace Text

variable {text digits : List Char} {number start : Nat}

/- The number that decimal digits stand for. -/
def decimalValue
    (digits : List Char) :
    Nat :=
  Nat.ofDigits 10
    (digits.reverse.map fun c => c.toNat - '0'.toNat)

/- A 32-bit count in digits, with or without a plus sign. -/
def SpellsCount
    (text : List Char)
    (number : Nat) :
    Prop :=
  ∃ digits,
    (text = digits ∨ text = '+' :: digits) ∧
      digits ≠ [] ∧
      (∀ c ∈ digits, c.isDigit = true) ∧
      decimalValue digits = number ∧
      number < countLimit

/- A count, which may have blanks around it. -/
def WritesCount
    (text : List Char)
    (number : Nat) :
    Prop :=
  ∃ kept, TrimsTo text kept ∧ SpellsCount kept number

theorem decimalValue_cons
    (c : Char)
    (rest : List Char) :
    decimalValue (c :: rest) =
      (c.toNat - '0'.toNat) * 10 ^ rest.length +
        decimalValue rest := by
  rw [decimalValue, List.reverse_cons, List.map_append,
    Nat.ofDigits_append, List.map_singleton,
    Nat.ofDigits_singleton, List.length_map,
    List.length_reverse, decimalValue]
  ring

theorem decimalFrom?_eq_some_iff :
    decimalFrom? start digits = some number ↔
      (∀ c ∈ digits, c.isDigit = true) ∧
        start * 10 ^ digits.length + decimalValue digits =
          number := by
  induction digits generalizing start with
  | nil => simp [decimalFrom?, decimalValue]
  | cons c rest ih =>
      unfold decimalFrom?
      split
      · rename_i hDigit
        have hValue :
            (start * 10 + (c.toNat - '0'.toNat)) *
                  10 ^ rest.length +
                decimalValue rest =
              start * 10 ^ (c :: rest).length +
                decimalValue (c :: rest) := by
          rw [decimalValue_cons, List.length_cons]
          ring
        rw [ih, hValue, List.forall_mem_cons]
        simp [hDigit]
      · rename_i hDigit
        simp [hDigit]

theorem decimal?_eq_some_iff :
    decimal? digits = some number ↔
      digits ≠ [] ∧ (∀ c ∈ digits, c.isDigit = true) ∧
        decimalValue digits = number := by
  cases digits with
  | nil => simp [decimal?]
  | cons c rest =>
      rw [decimal?, decimalFrom?_eq_some_iff, Nat.zero_mul,
        Nat.zero_add]
      simp

/- A count is a number in digits that fits. -/
theorem count?_eq_some_iff :
    count? text = some number ↔ SpellsCount text number := by
  have hFits (digits : List Char) :
      (do
          let found ← decimal? digits
          if found < countLimit then return found else none) =
          some number ↔
        digits ≠ [] ∧ (∀ c ∈ digits, c.isDigit = true) ∧
          decimalValue digits = number ∧
          number < countLimit := by
    simp only [bind, Option.bind_eq_some_iff,
      decimal?_eq_some_iff]
    constructor
    · rintro ⟨found, ⟨hSome, hDigits, hValue⟩, hResult⟩
      split at hResult
      · rename_i hLimit
        cases hResult
        exact ⟨hSome, hDigits, hValue, hLimit⟩
      · cases hResult
    · rintro ⟨hSome, hDigits, hValue, hLimit⟩
      exact ⟨number, ⟨hSome, hDigits, hValue⟩, if_pos hLimit⟩
  unfold count?
  split
  · rename_i digits
    rw [hFits]
    constructor
    · exact fun h => ⟨digits, .inr rfl, h⟩
    · rintro ⟨found, rfl | hSame, h⟩
      · -- a plus sign is no digit
        exact absurd (h.2.1 '+' List.mem_cons_self) (by decide)
      · rcases (List.cons.inj hSame).2 with rfl
        exact h
  · rename_i hPlus
    rw [hFits]
    constructor
    · exact fun h => ⟨text, .inl rfl, h⟩
    · rintro ⟨found, rfl | hSame, h⟩
      · exact h
      · exact (hPlus found hSame).elim

theorem count?_trim_eq_some_iff :
    count? (trim text) = some number ↔
      WritesCount text number := by
  rw [count?_eq_some_iff]
  constructor
  · exact fun h => ⟨trim text, trim_eq_iff.1 rfl, h⟩
  · rintro ⟨kept, hKept, h⟩
    rwa [trim_eq_iff.2 hKept]

end Text

end Bracketry
