/-
  Ways in which a computation of the library can be refused.

  A fault is a broken contract: a count that leaves 32 bits,
  a text cut inside a character, or a call that a component
  forbids.  Faults are causes; `Fault.message?` gives the
  wording of those that have one.

  Key definitions include:
    * `Fault`
    * `Fault.message?`
    * `Checked`
    * `checkedSum`
    * `wrapCount`
-/

------------------------------------------------------------
-- Faults
------------------------------------------------------------

namespace Bracketry

/- The causes of a refused computation. -/
inductive Fault where
  /- A 32-bit count grew too large or fell below zero. -/
  | overflow
  /- A byte offset lies inside a character. -/
  | splitCharacter
  /- Items of different heights were put into one list. -/
  | unevenHeights
  /- A node reader was asked for an earlier offset. -/
  | backwardRead
  /- A whole-text scan was asked to skip. -/
  | skipOverScan
  /- An empty list stood between other items. -/
  | nestedEmptyList
  /- The end of a list without items was asked for. -/
  | noItems
  /- A list was expected and another node was found. -/
  | notAList
  /- A pair was opened by something that is no bracket. -/
  | notABracket
  /- A text token of no length was produced. -/
  | emptyToken
deriving DecidableEq, Repr, Inhabited

/- A result, or the fault that prevented it. -/
abbrev Checked (α : Type) := Except Fault α

/- The wording of a fault that states a contract. -/
def Fault.message? : Fault → Option String
  | .overflow => none
  | .splitCharacter => none
  | .unevenHeights =>
      some "list items must have equal height"
  | .backwardRead =>
      some "node reader offsets must not decrease"
  | .skipOverScan =>
      some ("FastTokenizer cannot skip: " ++
        "it is only used without a previous tree")
  | .nestedEmptyList =>
      some "empty list nested inside a list"
  | .noItems => none
  | .notAList => some "expected a list node"
  | .notABracket =>
      some "pair opening slot holds a non-bracket node"
  | .emptyToken => some "text token must make progress"

end Bracketry

------------------------------------------------------------
-- Steps That May Be Refused
------------------------------------------------------------

namespace Bracketry

namespace Checked

variable {α β : Type}

/- What follows a step has a result if both have one. -/
theorem bind_eq_ok_iff
    {first : Checked α}
    {next : α → Checked β}
    {result : β} :
    first >>= next = .ok result ↔
      ∃ value,
        first = .ok value ∧ next value = .ok result := by
  cases first with
  | error fault => simp [bind, Except.bind]
  | ok value => simp [bind, Except.bind]

theorem pure_eq_ok_iff
    {value result : α} :
    (pure value : Checked α) = .ok result ↔
      value = result := by
  simp [pure, Except.pure]

/- What was tested has a result that passes the test. -/
theorem exists_of_any
    {result : Checked α}
    {test : α → Bool}
    (h : result.toOption.any test = true) :
    ∃ value, result = .ok value ∧ test value = true := by
  cases result with
  | error fault => cases h
  | ok value => exact ⟨value, rfl, h⟩

end Checked

end Bracketry

------------------------------------------------------------
-- Counts of 32 Bits
------------------------------------------------------------

namespace Bracketry

/- The number of values of a 32-bit count. -/
def countLimit : Nat := 4294967296

/- The largest 32-bit count. -/
def maxCount : Nat := 4294967295

/- The sum of two counts, refused beyond 32 bits. -/
def checkedSum
    (a b : Nat) :
    Checked Nat :=
  if a + b < countLimit then .ok (a + b)
  else .error .overflow

/- A number cut down to a count, without its high bits. -/
def wrapCount
    (n : Nat) :
    Nat :=
  n % countLimit

theorem checkedSum_eq_ok_iff
    {a b c : Nat} :
    checkedSum a b = .ok c ↔
      a + b < countLimit ∧ c = a + b := by
  unfold checkedSum
  split
  · rename_i h
    simp [h, eq_comm]
  · rename_i h
    simp [h]

/- A sum has a result, or it is refused as too large. -/
theorem checkedSum_cases
    (a b : Nat) :
    (a + b < countLimit ∧ checkedSum a b = .ok (a + b)) ∨
      (countLimit ≤ a + b ∧
        checkedSum a b = .error .overflow) := by
  unfold checkedSum
  split
  · rename_i h
    exact .inl ⟨h, rfl⟩
  · rename_i h
    exact .inr ⟨Nat.not_lt.1 h, rfl⟩

theorem wrapCount_of_lt
    {n : Nat}
    (h : n < countLimit) :
    wrapCount n = n :=
  Nat.mod_eq_of_lt h

theorem wrapCount_lt
    (n : Nat) :
    wrapCount n < countLimit :=
  Nat.mod_lt _ (by decide)

theorem wrapCount_le
    (n : Nat) :
    wrapCount n ≤ n :=
  Nat.mod_le _ _

end Bracketry
