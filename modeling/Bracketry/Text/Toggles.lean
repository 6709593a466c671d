/-
  Sets of code points, given by the points where membership
  changes.

  The list ascends.  A code point below the first entry is
  outside, one from the first up to the second is inside,
  and so on.

  Key definitions include:
    * `Toggles.member`
-/

------------------------------------------------------------
-- Membership
------------------------------------------------------------

namespace Bracketry

namespace Toggles

/-
  Membership behind entries that were passed, which left it
  at `inside`.
-/
def memberFrom
    (code : Nat)
    (inside : Bool) :
    List Nat → Bool
  | [] => inside
  | point :: rest =>
      if code < point then inside
      else memberFrom code (!inside) rest

/- The code point belongs to the set. -/
def member
    (points : List Nat)
    (code : Nat) :
    Bool :=
  memberFrom code false points

theorem member_nil
    (code : Nat) :
    member [] code = false :=
  rfl

/- Nothing below the first entry belongs to the set. -/
theorem member_of_lt
    {code point : Nat}
    {points : List Nat}
    (h : code < point) :
    member (point :: points) code = false := by
  simp [member, memberFrom, h]

end Toggles

end Bracketry
