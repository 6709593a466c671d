import Bracketry.Length
import Mathlib.Algebra.BigOperators.Group.List.Basic
import Mathlib.Algebra.GroupWithZero.Nat
import Mathlib.Order.Defs.LinearOrder

/-
  The algebra of lengths.

  Lengths are an additive monoid in which what is on the
  left can be cancelled.  Addition on the left keeps the
  order; a sum is refused only when it does not fit, and
  a part of a sum that fits does so too when it is the
  right one.

  Main declarations:
    * the monoid and the linear order of lengths
    * `Length.add_upTo`, `Length.upTo_add`
    * `Length.plus_eq_ok`, `Length.total_eq_ok`
    * `Length.ofText_append`
-/

------------------------------------------------------------
-- Addition
------------------------------------------------------------

namespace Bracketry

namespace Length

@[ext] theorem ext
    {a b : Length}
    (hLines : a.lines = b.lines)
    (hColumns : a.columns = b.columns) :
    a = b := by
  cases a
  cases b
  simp_all

@[simp] theorem zero_lines : (0 : Length).lines = 0 := rfl

@[simp] theorem zero_columns :
    (0 : Length).columns = 0 := rfl

theorem add_lines
    (a b : Length) :
    (a + b).lines = a.lines + b.lines := by
  rw [add_def]
  split <;> simp_all

theorem add_columns
    (a b : Length) :
    (a + b).columns =
      if b.lines = 0 then a.columns + b.columns
      else b.columns := by
  rw [add_def]
  split <;> rfl

protected theorem add_assoc
    (a b c : Length) :
    a + b + c = a + (b + c) := by
  apply ext
  · simp only [add_lines]
    omega
  · simp only [add_columns, add_lines]
    split_ifs <;> omega

instance : AddMonoid Length where
  add_assoc := Length.add_assoc
  zero_add a := by
    apply ext
    · simp [add_lines]
    · simp [add_columns]
  add_zero a := by
    apply ext
    · simp [add_lines]
    · simp [add_columns]
  nsmul := nsmulRec

/- A line break in front is one line more. -/
theorem break_add
    (a : Length) :
    ⟨1, 0⟩ + a = ⟨a.lines + 1, a.columns⟩ := by
  rw [add_def]
  split_ifs with hFlat
  · rw [hFlat, Nat.zero_add]
  · simp only [Nat.add_comm 1]

theorem add_left_cancel
    {a b c : Length}
    (h : a + b = a + c) :
    b = c := by
  have hLines := congrArg lines h
  have hColumns := congrArg columns h
  simp only [add_lines, add_columns] at hLines hColumns
  have hSame : b.lines = c.lines := by omega
  apply ext hSame
  rw [hSame] at hColumns
  split_ifs at hColumns <;> omega

theorem add_eq_left
    {a b : Length} :
    a + b = a ↔ b = 0 := by
  constructor
  · intro h
    apply add_left_cancel (a := a)
    rw [h, add_zero]
  · rintro rfl
    exact add_zero a

end Length

end Bracketry

------------------------------------------------------------
-- Order
------------------------------------------------------------

namespace Bracketry

namespace Length

instance : LinearOrder Length where
  le_refl a := by
    rw [le_def]
    omega
  le_trans a b c h h' := by
    rw [le_def] at *
    omega
  le_antisymm a b h h' := by
    rw [le_def] at *
    apply ext <;> omega
  le_total a b := by
    simp only [le_def]
    omega
  lt_iff_le_not_ge a b := by
    simp only [le_def, lt_def]
    omega
  toDecidableLE a b := inferInstance

theorem zero_le
    (a : Length) :
    0 ≤ a := by
  simp only [le_def, zero_lines, zero_columns]
  omega

theorem le_zero
    {a : Length} :
    a ≤ 0 ↔ a = 0 :=
  ⟨fun h => le_antisymm h (zero_le a), fun h => h.le⟩

theorem le_add_right
    (a b : Length) :
    a ≤ a + b := by
  rw [le_def, add_lines, add_columns]
  split_ifs <;> omega

theorem add_le_add_left_iff
    {a b c : Length} :
    a + b ≤ a + c ↔ b ≤ c := by
  simp only [le_def, add_lines, add_columns]
  split_ifs <;> omega

theorem lt_add_right
    {a b : Length}
    (h : b ≠ 0) :
    a < a + b :=
  lt_of_le_of_ne (le_add_right a b)
    fun hEq => h (add_eq_left.1 hEq.symm)

/- Every later place is reached by some length. -/
theorem add_upTo
    {a b : Length}
    (h : a ≤ b) :
    a + a.upTo b = b := by
  unfold upTo
  rw [le_def] at h
  split_ifs with hLe hLines
  · rw [le_def] at hLe
    rw [add_zero]
    apply ext <;> omega
  · apply ext
    · simp only [add_lines]
      omega
    · rw [le_def] at hLe
      simp only [add_columns, if_pos]
      omega
  · apply ext
    · simp only [add_lines]
      omega
    · simp only [add_columns]
      split_ifs <;> omega

theorem upTo_add
    (a b : Length) :
    a.upTo (a + b) = b :=
  add_left_cancel (add_upTo (le_add_right a b))

theorem upTo_eq_zero
    {a b : Length} :
    a.upTo b = 0 ↔ b ≤ a := by
  constructor
  · intro h
    by_contra hLt
    have hSum := add_upTo (not_le.1 hLt).le
    rw [h, add_zero] at hSum
    exact hLt hSum.ge
  · intro h
    simp [upTo, h]

/- From an earlier place, both measures are the same. -/
theorem between_eq_upTo
    {a b : Length}
    (h : a ≤ b) :
    between a b = a.upTo b := by
  apply add_left_cancel (a := a)
  rw [add_upTo h]
  unfold between
  rw [le_def] at h
  split_ifs with hLines
  · apply ext
    · simp only [add_lines]
      omega
    · simp only [add_columns, if_pos]
      omega
  · apply ext
    · simp only [add_lines]
      omega
    · simp only [add_columns]
      split_ifs <;> omega

end Length

end Bracketry

------------------------------------------------------------
-- Sums that Fit
------------------------------------------------------------

namespace Bracketry

namespace Length

theorem plus_eq_ok
    {a b : Length}
    (h : (a + b).Fits) :
    a.plus b = .ok (a + b) := by
  simp [plus, h]

theorem plus_eq_ok_iff
    {a b c : Length} :
    a.plus b = .ok c ↔ (a + b).Fits ∧ c = a + b := by
  unfold plus
  split_ifs with h
  · simp [h, eq_comm]
  · simp [h]

theorem fits_zero : (0 : Length).Fits := by
  decide

/- The last part of a length that fits does so too. -/
theorem fits_of_add
    {a b : Length}
    (h : (a + b).Fits) :
    b.Fits := by
  unfold Fits at *
  rw [add_lines, add_columns] at h
  split_ifs at h <;> omega

/-
  Adding from the left is not refused when the sum up to
  each item fits.
-/
theorem foldlM_plus_eq_ok
    {items : List Length}
    {start : Length}
    (h :
      ∀ before behind, items = before ++ behind →
        (start + before.sum).Fits) :
    items.foldlM plus start = .ok (start + items.sum) := by
  induction items generalizing start with
  | nil => simp [pure, Except.pure]
  | cons item rest ih =>
      have hFirst := h [item] rest rfl
      rw [List.sum_singleton] at hFirst
      rw [List.foldlM_cons, plus_eq_ok hFirst]
      have hRest : ∀ before behind,
          rest = before ++ behind →
            (start + item + before.sum).Fits := by
        intro before behind hSplit
        have hWhole := h (item :: before) behind
          (by rw [hSplit, List.cons_append])
        rwa [List.sum_cons, ← add_assoc] at hWhole
      rw [List.sum_cons, ← add_assoc]
      exact ih hRest

/- A sum from the left that is not refused is exact. -/
theorem eq_of_foldlM
    {items : List Length}
    {start sum : Length}
    (h : items.foldlM plus start = .ok sum) :
    sum = start + items.sum := by
  induction items generalizing start with
  | nil =>
      cases h
      exact (add_zero sum).symm
  | cons item rest ih =>
      rcases Checked.bind_eq_ok_iff.1 h with
        ⟨next, hNext, hRest⟩
      rcases plus_eq_ok_iff.1 hNext with ⟨_, rfl⟩
      rw [ih hRest, List.sum_cons, add_assoc]

theorem total_eq_ok
    {items : List Length}
    (h :
      ∀ before behind, items = before ++ behind →
        before.sum.Fits) :
    total items = .ok items.sum := by
  have hFold :
      items.foldlM plus 0 = .ok (0 + items.sum) :=
    foldlM_plus_eq_ok (by simpa using h)
  simpa [total] using hFold

end Length

end Bracketry

------------------------------------------------------------
-- Lengths of Text
------------------------------------------------------------

namespace Bracketry

namespace Length

@[simp] theorem ofText_nil : ofText [] = 0 := rfl

theorem ofText_cons
    (c : Char)
    (rest : List Char) :
    ofText (c :: rest) = ofChar c + ofText rest :=
  rfl

theorem ofText_append
    (a b : List Char) :
    ofText (a ++ b) = ofText a + ofText b := by
  induction a with
  | nil => simp
  | cons c rest ih =>
      rw [List.cons_append, ofText_cons, ofText_cons, ih,
        add_assoc]

theorem ofChar_ne_zero
    (c : Char) :
    ofChar c ≠ 0 := by
  unfold ofChar
  split_ifs
  · decide
  · intro h
    have hSize := congrArg columns h
    have hPos := Char.utf8Size_pos c
    simp only [zero_columns] at hSize
    omega

end Length

end Bracketry
