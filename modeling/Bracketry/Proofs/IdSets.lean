import Bracketry.IdSet

/-
  Sets of ids that meet.

  Two sets meet when they share a member.  What meets a
  union meets one of its parts.

  Main declarations:
    * `IdSet.intersects_iff`, `IdSet.intersects_eq_false_iff`
    * `IdSet.intersects_union_left`
    * `IdSet.mem_toList_ofList`
-/

------------------------------------------------------------
-- Meeting Sets
------------------------------------------------------------

namespace Bracketry

namespace IdSet

theorem intersects_iff
    {a b : IdSet} :
    a.intersects b = true ↔
      ∃ key, key ∈ a.toList ∧ key ∈ b.toList := by
  simp only [← has_iff, has_eq]
  exact Blocks.any_zip_iff (a := a.low :: a.high)
    (b := b.low :: b.high)

theorem intersects_eq_false_iff
    {a b : IdSet} :
    a.intersects b = false ↔
      ∀ key ∈ a.toList, key ∉ b.toList := by
  rw [← Bool.not_eq_true, intersects_iff]
  simp

theorem intersects_comm
    (a b : IdSet) :
    a.intersects b = b.intersects a := by
  rw [Bool.eq_iff_iff, intersects_iff, intersects_iff]
  simp [and_comm]

theorem intersects_union_left
    (a b c : IdSet) :
    (a.union b).intersects c =
      (a.intersects c || b.intersects c) := by
  rw [Bool.eq_iff_iff, Bool.or_eq_true, intersects_iff,
    intersects_iff, intersects_iff]
  simp [mem_toList_union, or_and_right, exists_or]

theorem intersects_union_right
    (a b c : IdSet) :
    a.intersects (b.union c) =
      (a.intersects b || a.intersects c) := by
  rw [intersects_comm, intersects_union_left,
    intersects_comm b, intersects_comm c]

@[simp] theorem intersects_empty_right
    (a : IdSet) :
    a.intersects empty = false := by
  simp [intersects_eq_false_iff, toList_empty]

@[simp] theorem intersects_empty_left
    (a : IdSet) :
    empty.intersects a = false := by
  simp [intersects_eq_false_iff, toList_empty]

end IdSet

end Bracketry

------------------------------------------------------------
-- Members of Listed Sets
------------------------------------------------------------

namespace Bracketry

namespace IdSet

theorem mem_toList_single
    {key x : Nat} :
    x ∈ (single key).toList ↔ x = key := by
  simp [single, mem_toList_insert, toList_empty]

theorem mem_toList_foldl_insert
    {keys : List Nat}
    {set : IdSet}
    {x : Nat} :
    x ∈ (keys.foldl insert set).toList ↔
      x ∈ set.toList ∨ x ∈ keys := by
  induction keys generalizing set with
  | nil => simp
  | cons key rest ih =>
      rw [List.foldl_cons, ih, mem_toList_insert,
        List.mem_cons, or_assoc, or_left_comm]

theorem mem_toList_ofList
    {keys : List Nat}
    {x : Nat} :
    x ∈ (ofList keys).toList ↔ x ∈ keys := by
  rw [ofList, mem_toList_foldl_insert]
  simp [toList_empty]

end IdSet

end Bracketry
