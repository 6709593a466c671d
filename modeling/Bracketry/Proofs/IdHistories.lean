import Bracketry.Proofs.IdSets
import Mathlib.Data.Finset.Basic

/-
  Sets of ids and how they are made.

  A set is made by additions and unions from sets of no and
  of one key.  However it was made, it is told from others
  by its members alone: what it answers, the order in which
  it lists them, when it is equal to another set and what a
  hash takes in of it.

  Key definitions include:
    * `IdHistory`
    * `IdHistory.set`, `IdHistory.keys`

  Main declarations:
    * `IdHistory.has_set_iff`
    * `IdHistory.set_follows_keys`
-/

------------------------------------------------------------
-- Sets Told by Their Members
------------------------------------------------------------

namespace Bracketry

/- A row that is trim has no blocks if all are empty. -/
theorem Blocks.all_eq_zero_iff
    {blocks : List Block}
    (h : IsTrim blocks) :
    blocks.all (· == 0#64) = true ↔ blocks = [] := by
  constructor
  · intro hZero
    cases hLast : blocks.getLast? with
    | none => exact List.getLast?_eq_none_iff.1 hLast
    | some last =>
        have hMem := List.mem_of_getLast? hLast
        have hLastZero := List.all_eq_true.1 hZero last hMem
        rw [beq_iff_eq.1 hLastZero] at hLast
        exact absurd hLast h
  · rintro rfl
    rfl

namespace IdSet

theorem isEmpty_iff
    {set : IdSet} :
    set.isEmpty = true ↔ set = empty := by
  constructor
  · intro hEmpty
    rw [isEmpty, Bool.and_eq_true, beq_iff_eq,
      Blocks.all_eq_zero_iff set.isTrim] at hEmpty
    rcases set with ⟨low, high, hTrim⟩
    rcases hEmpty with ⟨rfl, rfl⟩
    rfl
  · rintro rfl
    rfl

theorem eq_iff_has
    {a b : IdSet} :
    a = b ↔ ∀ key, a.has key = true ↔ b.has key = true := by
  constructor
  · rintro rfl key
    rfl
  · intro hSame
    exact eq_of_has fun key => Bool.eq_iff_iff.2 (hSame key)

/- What some hash takes in tells the blocks of a set. -/
theorem hashInto_eq_iff
    {a b : IdSet} :
    (∀ (σ : Type) (hasher : Hasher σ) (state : σ),
        a.hashInto hasher state = b.hashInto hasher state) ↔
      a = b := by
  constructor
  · intro hSame
    -- a hash that keeps all the blocks it takes in
    let keeper : Hasher (List (List Block)) :=
      ⟨fun kept block => [block] :: kept,
        fun kept _ => kept,
        fun kept blocks => blocks :: kept⟩
    have hKept :
        [a.high, [a.low]] = [b.high, [b.low]] :=
      hSame _ keeper []
    rcases a with ⟨low, high, hTrim⟩
    rcases b with ⟨otherLow, otherHigh, hOther⟩
    simp only [List.cons.injEq, and_true] at hKept
    rcases hKept with ⟨rfl, rfl⟩
    rfl
  · rintro rfl σ hasher state
    rfl

end IdSet

end Bracketry

------------------------------------------------------------
-- Histories
------------------------------------------------------------

namespace Bracketry

/- How a set of ids was made. -/
inductive IdHistory where
  | empty
  | single (key : Nat)
  | add (history : IdHistory) (key : Nat)
  | merge (left right : IdHistory)

namespace IdHistory

/- The set that was made. -/
def set : IdHistory → IdSet
  | empty => IdSet.empty
  | single key => IdSet.single key
  | add history key => history.set.insert key
  | merge left right => left.set.union right.set

/- The keys that were entered. -/
def keys : IdHistory → Finset Nat
  | empty => ∅
  | single key => {key}
  | add history key => insert key history.keys
  | merge left right => left.keys ∪ right.keys

theorem has_set_iff
    (history : IdHistory)
    (key : Nat) :
    history.set.has key = true ↔ key ∈ history.keys := by
  induction history with
  | empty => simp [set, keys]
  | single only =>
      rw [set, keys, IdSet.has_iff, IdSet.mem_toList_single,
        Finset.mem_singleton]
  | add history added ih =>
      rw [set, keys, IdSet.has_insert, Finset.mem_insert,
        Bool.or_eq_true, decide_eq_true_eq, ih]
  | merge left right ihLeft ihRight =>
      rw [set, keys, IdSet.has_union, Finset.mem_union,
        Bool.or_eq_true, ihLeft, ihRight]

theorem set_eq_iff
    {a b : IdHistory} :
    a.set = b.set ↔ a.keys = b.keys := by
  simp only [IdSet.eq_iff_has, has_set_iff, Finset.ext_iff]

/-
  A set behaves as the set of the keys that were entered,
  and nothing else of its history can be told from it.
-/
theorem set_follows_keys
    (a b : IdHistory) :
    (∀ key, a.set.has key = true ↔ key ∈ a.keys) ∧
      (a.set.isEmpty = true ↔ a.keys = ∅) ∧
      (a.set.intersects b.set = true ↔
        (a.keys ∩ b.keys).Nonempty) ∧
      (∀ key,
        (a.set.union b.set).has key = true ↔
          key ∈ a.keys ∪ b.keys) ∧
      a.set.toList.Pairwise (· < ·) ∧
      (∀ key, key ∈ a.set.toList ↔ key ∈ a.keys) ∧
      (a.set = b.set ↔ a.keys = b.keys) ∧
      ((∀ (σ : Type) (hasher : Hasher σ) (state : σ),
          a.set.hashInto hasher state =
            b.set.hashInto hasher state) ↔
        a.keys = b.keys) ∧
      (a.set.union b.set = a.set ↔ b.keys ⊆ a.keys) ∧
      (a.set.union b.set = b.set ↔ a.keys ⊆ b.keys) := by
  have hMember (history : IdHistory) (key : Nat) :
      key ∈ history.set.toList ↔ key ∈ history.keys := by
    rw [← IdSet.has_iff, has_set_iff]
  have hEmpty : a.set.isEmpty = true ↔ a.keys = ∅ := by
    rw [IdSet.isEmpty_iff]
    exact set_eq_iff (b := empty)
  have hMeet :
      a.set.intersects b.set = true ↔
        (a.keys ∩ b.keys).Nonempty := by
    simp only [IdSet.intersects_iff, hMember,
      Finset.Nonempty, Finset.mem_inter]
  have hLeft :
      a.set.union b.set = a.set ↔ b.keys ⊆ a.keys := by
    rw [← Finset.union_eq_left]
    exact set_eq_iff (a := merge a b)
  have hRight :
      a.set.union b.set = b.set ↔ a.keys ⊆ b.keys := by
    rw [← Finset.union_eq_right]
    exact set_eq_iff (a := merge a b)
  refine ⟨has_set_iff a, hEmpty, hMeet,
    has_set_iff (merge a b), a.set.pairwise_toList,
    hMember a, set_eq_iff, ?_, hLeft, hRight⟩
  rw [IdSet.hashInto_eq_iff, set_eq_iff]

/- Two ways to the set of the keys 3 and 200. -/
example :
    (merge (single 200) (single 3)).set =
      (add (add empty 3) 200).set := by
  decide

end IdHistory

end Bracketry
