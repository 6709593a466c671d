import Bracketry.Parse
import Bracketry.Proofs.IdSets
import Bracketry.Proofs.Lengths
import Mathlib.Tactic.Tauto

/-
  Forests of tokens.

  A forest is what a bracket tree says about its tokens,
  without the way its lists are cut: text, closing brackets
  that close nothing, and pairs with a forest inside.  The
  brackets of a forest match when every pair is closed by a
  bracket that can close it, when nothing inside a pair
  could have closed it earlier, and when a pair that is not
  closed is the last of its forest.

  Key definitions include:
    * `Forest`, `Forest.leaves`
    * `Forest.IsClosed`, `Forest.IsShallow`
    * `Forest.Nests`, `Forest.IsDeepFrom`
    * `Forest.Avoids`, `Forest.EndAvoids`
    * `Forest.IsMatched`
    * `Forest.place`, `Forest.dropText`
    * `Token.AllFit`, `Token.FitFrom`
-/

------------------------------------------------------------
-- Roles of Tokens
------------------------------------------------------------

namespace Bracketry

namespace Token

/- The ids of a bracket; text has none. -/
def ids : Token → IdSet
  | .text _ => IdSet.empty
  | .bracket leaf _ => leaf.ids

/- The token is an opening bracket. -/
def isOpening : Token → Bool
  | .text _ => false
  | .bracket leaf _ => leaf.kind.isOpening

/- The token is a closing bracket. -/
def isClosing : Token → Bool
  | .text _ => false
  | .bracket leaf _ => !leaf.kind.isOpening

theorem isOpening_of_isClosing
    {token : Token}
    (h : token.isClosing = true) :
    token.isOpening = false := by
  cases token with
  | text length => rfl
  | bracket leaf id => simpa [isClosing, isOpening] using h

theorem isClosing_of_isOpening
    {token : Token}
    (h : token.isOpening = true) :
    token.isClosing = false := by
  cases token with
  | text length => rfl
  | bracket leaf id => simpa [isClosing, isOpening] using h

end Token

/- A token with the place where it starts. -/
structure Placed where
  start : Position
  token : Token
deriving DecidableEq, Inhabited

/- Something that stands for a token. -/
class HasToken (τ : Type) where
  token : τ → Token

instance : HasToken Token where
  token := id

instance : HasToken Placed where
  token := Placed.token

@[simp] theorem token_self
    (token : Token) :
    HasToken.token token = token :=
  rfl

@[simp] theorem token_placed
    (start : Position)
    (token : Token) :
    HasToken.token (Placed.mk start token) = token :=
  rfl

end Bracketry

------------------------------------------------------------
-- Forests
------------------------------------------------------------

namespace Bracketry

/- Text, stray closing brackets and pairs, in order. -/
inductive Forest (τ : Type) where
  | nil
  | leaf (token : τ) (rest : Forest τ)
  | stray (token : τ) (rest : Forest τ)
  | pair
    (opening : τ)
    (inside : Forest τ)
    (closing : Option τ)
    (rest : Forest τ)
deriving DecidableEq, Inhabited

namespace Forest

variable {τ : Type}

/- One forest behind the other. -/
def append : Forest τ → Forest τ → Forest τ
  | .nil, others => others
  | .leaf token rest, others =>
      .leaf token (rest.append others)
  | .stray token rest, others =>
      .stray token (rest.append others)
  | .pair opening inside closing rest, others =>
      .pair opening inside closing (rest.append others)

instance : Append (Forest τ) where
  append := append

@[simp] theorem nil_append
    (forest : Forest τ) :
    .nil ++ forest = forest :=
  rfl

@[simp] theorem leaf_append
    (token : τ)
    (rest others : Forest τ) :
    .leaf token rest ++ others =
      .leaf token (rest ++ others) :=
  rfl

@[simp] theorem stray_append
    (token : τ)
    (rest others : Forest τ) :
    .stray token rest ++ others =
      .stray token (rest ++ others) :=
  rfl

@[simp] theorem pair_append
    (opening : τ)
    (inside : Forest τ)
    (closing : Option τ)
    (rest others : Forest τ) :
    .pair opening inside closing rest ++ others =
      .pair opening inside closing (rest ++ others) :=
  rfl

@[simp] theorem append_nil
    (forest : Forest τ) :
    forest ++ .nil = forest := by
  induction forest <;> simp_all

theorem append_assoc
    (a b c : Forest τ) :
    a ++ b ++ c = a ++ (b ++ c) := by
  induction a <;> simp_all

@[simp] theorem append_eq_nil
    {a b : Forest τ} :
    a ++ b = .nil ↔ a = .nil ∧ b = .nil := by
  cases a <;> simp

/- The tokens of a forest, from left to right. -/
def leaves : Forest τ → List τ
  | .nil => []
  | .leaf token rest => token :: rest.leaves
  | .stray token rest => token :: rest.leaves
  | .pair opening inside closing rest =>
      opening ::
        (inside.leaves ++ (closing.toList ++ rest.leaves))

@[simp] theorem leaves_append
    (a b : Forest τ) :
    (a ++ b).leaves = a.leaves ++ b.leaves := by
  induction a <;> simp_all [leaves]

theorem length_leaves_pos
    {forest : Forest τ}
    (h : forest ≠ .nil) :
    0 < forest.leaves.length := by
  cases forest <;> simp_all [leaves]

end Forest

end Bracketry

------------------------------------------------------------
-- Matching Brackets
------------------------------------------------------------

namespace Bracketry

namespace Forest

variable {τ : Type} [HasToken τ]

open HasToken (token)

/- The forest does not end in a pair that is not closed. -/
def IsClosed : Forest τ → Prop
  | .nil => True
  | .leaf _ rest => rest.IsClosed
  | .stray _ rest => rest.IsClosed
  | .pair _ _ closing rest =>
      closing.isSome = true ∧ rest.IsClosed

/- No opening bracket stands for text. -/
def IsShallow : Forest τ → Prop
  | .nil => True
  | .leaf t rest =>
      (token t).isOpening = false ∧ rest.IsShallow
  | .stray _ rest => rest.IsShallow
  | .pair _ inside _ rest =>
      inside.IsShallow ∧ rest.IsShallow

instance decidableIsShallow :
    (forest : Forest τ) → Decidable forest.IsShallow
  | .nil => .isTrue trivial
  | .leaf _ rest =>
      have := decidableIsShallow rest
      inferInstanceAs (Decidable (_ ∧ _))
  | .stray _ rest => decidableIsShallow rest
  | .pair _ inside _ rest =>
      have := decidableIsShallow inside
      have := decidableIsShallow rest
      inferInstanceAs (Decidable (_ ∧ _))

/-
  Opening brackets stand for text only at levels that hide
  them, and begin pairs only at levels that open them.
-/
def Nests
    (hides opens : Nat → Prop)
    (level : Nat) :
    Forest τ → Prop
  | .nil => True
  | .leaf t rest =>
      ((token t).isOpening = true → hides level) ∧
        rest.Nests hides opens level
  | .stray _ rest => rest.Nests hides opens level
  | .pair _ inside _ rest =>
      opens level ∧
        inside.Nests hides opens (level + 1) ∧
        rest.Nests hides opens level

/- Pairs nest up to the limit; what is deeper is text. -/
def IsDeepFrom
    (level : Nat)
    (forest : Forest τ) :
    Prop :=
  forest.Nests (Parser.maxNestingLevel < ·)
    (· ≤ Parser.maxNestingLevel) level

/- No stray closing bracket could close one of the ids. -/
def Avoids
    (ids : IdSet) :
    Forest τ → Prop
  | .nil => True
  | .leaf _ rest => rest.Avoids ids
  | .stray t rest =>
      ids.intersects (token t).ids = false ∧
        rest.Avoids ids
  | .pair _ inside _ rest =>
      inside.Avoids ids ∧ rest.Avoids ids

/- No pair that is open at the end has one of the ids. -/
def EndAvoids
    (ids : IdSet) :
    Forest τ → Prop
  | .nil => True
  | .leaf _ rest => rest.EndAvoids ids
  | .stray _ rest => rest.EndAvoids ids
  | .pair opening inside closing rest =>
      (closing = none →
        (ids.intersects (token opening).ids = false ∧
          inside.EndAvoids ids)) ∧
        rest.EndAvoids ids

/-
  A bracket behind the inside of a pair closes it, and would
  not have closed anything that is open inside.
-/
def Closes
    (opening closing : τ)
    (inside : Forest τ) :
    Prop :=
  (token closing).isClosing = true ∧
    (token closing).ids.intersects (token opening).ids =
      true ∧
    inside.EndAvoids (token closing).ids

/- Every bracket of the forest stands where it belongs. -/
def IsMatched : Forest τ → Prop
  | .nil => True
  | .leaf t rest =>
      (token t).isClosing = false ∧ rest.IsMatched
  | .stray t rest =>
      (token t).isClosing = true ∧ rest.IsMatched
  | .pair opening inside closing rest =>
      (token opening).isOpening = true ∧
        inside.IsMatched ∧
        inside.Avoids (token opening).ids ∧
        (match closing with
          | none => rest = .nil
          | some t => Closes opening t inside) ∧
        rest.IsMatched

end Forest

end Bracketry

------------------------------------------------------------
-- Parts of Forests
------------------------------------------------------------

namespace Bracketry

namespace Forest

variable {τ : Type} [HasToken τ]

open HasToken (token)

omit [HasToken τ] in
@[simp] theorem isClosed_append
    {a b : Forest τ} :
    (a ++ b).IsClosed ↔ a.IsClosed ∧ b.IsClosed := by
  induction a <;> simp_all [IsClosed, and_assoc]

@[simp] theorem isShallow_append
    {a b : Forest τ} :
    (a ++ b).IsShallow ↔ a.IsShallow ∧ b.IsShallow := by
  induction a <;> simp_all [IsShallow, and_assoc]

@[simp] theorem nests_append
    {hides opens : Nat → Prop}
    {level : Nat}
    {a b : Forest τ} :
    (a ++ b).Nests hides opens level ↔
      a.Nests hides opens level ∧
        b.Nests hides opens level := by
  induction a generalizing level <;>
    simp_all [Nests, and_assoc]

@[simp] theorem avoids_append
    {ids : IdSet}
    {a b : Forest τ} :
    (a ++ b).Avoids ids ↔ a.Avoids ids ∧ b.Avoids ids := by
  induction a <;> simp_all [Avoids, and_assoc]

@[simp] theorem endAvoids_append
    {ids : IdSet}
    {a b : Forest τ} :
    (a ++ b).EndAvoids ids ↔
      a.EndAvoids ids ∧ b.EndAvoids ids := by
  induction a <;> simp_all [EndAvoids, and_assoc]

/- The first part of a matched forest is matched. -/
theorem isMatched_of_append_left
    {a b : Forest τ}
    (h : (a ++ b).IsMatched) :
    a.IsMatched := by
  induction a with
  | nil => trivial
  | leaf t rest ih => exact ⟨h.1, ih h.2⟩
  | stray t rest ih => exact ⟨h.1, ih h.2⟩
  | pair opening inside closing rest _ ih =>
      rcases h with
        ⟨hOpening, hInside, hAvoids, hClosing, hRest⟩
      refine ⟨hOpening, hInside, hAvoids, ?_, ih hRest⟩
      cases closing with
      | none => exact (append_eq_nil.1 hClosing).1
      | some t => exact hClosing

/- The last part of a matched forest is matched. -/
theorem isMatched_of_append_right
    {a b : Forest τ}
    (h : (a ++ b).IsMatched) :
    b.IsMatched := by
  induction a with
  | nil => exact h
  | leaf t rest ih => exact ih h.2
  | stray t rest ih => exact ih h.2
  | pair opening inside closing rest _ ih =>
      exact ih h.2.2.2.2

/- Only the end of a matched forest is not closed. -/
theorem isClosed_of_append
    {a b : Forest τ}
    (h : (a ++ b).IsMatched)
    (hMore : b ≠ .nil) :
    a.IsClosed := by
  induction a with
  | nil => trivial
  | leaf t rest ih => exact ih h.2
  | stray t rest ih => exact ih h.2
  | pair opening inside closing rest _ ih =>
      refine ⟨?_, ih h.2.2.2.2⟩
      cases closing with
      | none =>
          exact absurd (append_eq_nil.1 h.2.2.2.1).2 hMore
      | some t => rfl

/- Matched forests make one if the first is closed. -/
theorem isMatched_append
    {a b : Forest τ}
    (hClosed : a.IsClosed)
    (ha : a.IsMatched)
    (hb : b.IsMatched) :
    (a ++ b).IsMatched := by
  induction a with
  | nil => exact hb
  | leaf t rest ih => exact ⟨ha.1, ih hClosed ha.2⟩
  | stray t rest ih => exact ⟨ha.1, ih hClosed ha.2⟩
  | pair opening inside closing rest _ ih =>
      rcases ha with
        ⟨hOpening, hInside, hAvoids, hCloses, hRest⟩
      rcases hClosed with ⟨hSome, hClosedRest⟩
      refine ⟨hOpening, hInside, hAvoids, ?_,
        ih hClosedRest hRest⟩
      cases closing with
      | none => cases hSome
      | some t => exact hCloses

/- What nothing is open at the end of avoids all ids. -/
theorem endAvoids_of_isClosed
    {ids : IdSet}
    {forest : Forest τ}
    (h : forest.IsClosed) :
    forest.EndAvoids ids := by
  induction forest with
  | nil => trivial
  | leaf t rest ih => exact ih h
  | stray t rest ih => exact ih h
  | pair opening inside closing rest _ ih =>
      refine ⟨?_, ih h.2⟩
      rintro rfl
      cases h.1

/- Stray brackets that avoid two sets avoid their union. -/
theorem avoids_union
    {a b : IdSet}
    {forest : Forest τ} :
    forest.Avoids (a.union b) ↔
      forest.Avoids a ∧ forest.Avoids b := by
  induction forest with
  | nil => simp [Avoids]
  | leaf t rest ih => exact ih
  | stray t rest ih =>
      simp only [Avoids, IdSet.intersects_union_left,
        Bool.or_eq_false_iff, ih]
      tauto
  | pair opening inside closing rest ihInside ih =>
      simp only [Avoids, ihInside, ih]
      tauto

/- Where all levels hide and open, any forest nests. -/
theorem nests_of_forall
    {hides opens : Nat → Prop}
    {level : Nat}
    {forest : Forest τ}
    (hHides : ∀ level, hides level)
    (hOpens : ∀ level, opens level) :
    forest.Nests hides opens level := by
  induction forest generalizing level with
  | nil => trivial
  | leaf t rest ih => exact ⟨fun _ => hHides level, ih⟩
  | stray t rest ih => exact ih
  | pair opening inside closing rest ihInside ih =>
      exact ⟨hOpens level, ihInside, ih⟩

theorem Nests.mono
    {hides opens others more : Nat → Prop}
    {level : Nat}
    {forest : Forest τ}
    (hHides : ∀ level, hides level → others level)
    (hOpens : ∀ level, opens level → more level)
    (h : forest.Nests hides opens level) :
    forest.Nests others more level := by
  induction forest generalizing level with
  | nil => trivial
  | leaf t rest ih =>
      exact ⟨fun hOpening => hHides level (h.1 hOpening),
        ih h.2⟩
  | stray t rest ih => exact ih h
  | pair opening inside closing rest ihInside ih =>
      exact ⟨hOpens level h.1, ihInside h.2.1, ih h.2.2⟩

/- Without deep brackets, all levels may hide them. -/
theorem nests_of_isShallow
    {hides opens : Nat → Prop}
    {level : Nat}
    {forest : Forest τ}
    (hOpens : ∀ level, opens level)
    (h : forest.IsShallow) :
    forest.Nests hides opens level := by
  induction forest generalizing level with
  | nil => trivial
  | leaf t rest ih =>
      refine ⟨fun hOpening => ?_, ih h.2⟩
      rw [h.1] at hOpening
      cases hOpening
  | stray t rest ih => exact ih h
  | pair opening inside closing rest ihInside ih =>
      exact ⟨hOpens level, ihInside h.1, ih h.2⟩

end Forest

end Bracketry

------------------------------------------------------------
-- Places and Text
------------------------------------------------------------

namespace Bracketry

/- The length of tokens together. -/
def Token.total
    (tokens : List Token) :
    Length :=
  (tokens.map Token.length).sum

/- Tokens with their places, the first at a given one. -/
def Placed.row
    (start : Position) :
    List Token → List Placed
  | [] => []
  | token :: rest =>
      ⟨start, token⟩ :: row (start + token.length) rest

/- The brackets of placed tokens. -/
def Placed.brackets
    (tokens : List Placed) :
    List Placed :=
  tokens.filter (·.token.isBracket)

namespace Forest

/- The length of all tokens of a forest. -/
def total
    (forest : Forest Token) :
    Length :=
  Token.total forest.leaves

/- The forest with the places of its tokens. -/
def place
    (start : Position) :
    Forest Token → Forest Placed
  | .nil => .nil
  | .leaf t rest =>
      .leaf ⟨start, t⟩ (rest.place (start + t.length))
  | .stray t rest =>
      .stray ⟨start, t⟩ (rest.place (start + t.length))
  | .pair opening inside closing rest =>
      let first := start + opening.length
      let stop := first + inside.total
      .pair ⟨start, opening⟩ (inside.place first)
        (closing.map (Placed.mk stop))
        (rest.place
          (stop + Token.total closing.toList))

/- The forest without text between its brackets. -/
def dropText
    {τ : Type}
    [HasToken τ] :
    Forest τ → Forest τ
  | .nil => .nil
  | .leaf t rest =>
      if (HasToken.token t).isBracket then
        .leaf t rest.dropText
      else rest.dropText
  | .stray t rest => .stray t rest.dropText
  | .pair opening inside closing rest =>
      .pair opening inside.dropText closing rest.dropText

end Forest

end Bracketry

------------------------------------------------------------
-- Placed Tokens
------------------------------------------------------------

namespace Bracketry

namespace Token

@[simp] theorem total_nil :
    total [] = 0 :=
  rfl

@[simp] theorem total_cons
    (token : Token)
    (rest : List Token) :
    total (token :: rest) = token.length + total rest := by
  simp [total]

@[simp] theorem total_append
    (a b : List Token) :
    total (a ++ b) = total a + total b := by
  simp [total]

/- The stretch up to each place of the tokens fits. -/
def AllFit
    (tokens : List Token) :
    Prop :=
  ∀ before behind,
    tokens = before ++ behind → (total before).Fits

theorem allFit_iff
    {tokens : List Token} :
    AllFit tokens ↔
      ∀ count < tokens.length + 1,
        (total (tokens.take count)).Fits := by
  constructor
  · intro h count _
    exact h _ (tokens.drop count)
      (List.take_append_drop count tokens).symm
  · rintro h before behind rfl
    have hFit := h before.length
      (by rw [List.length_append]; omega)
    rwa [List.take_left] at hFit

instance (tokens : List Token) :
    Decidable (AllFit tokens) :=
  decidable_of_iff _ allFit_iff.symm

/- The places between tokens from a place on fit. -/
def FitFrom
    (start : Position)
    (tokens : List Token) :
    Prop :=
  ∀ before behind,
    tokens = before ++ behind →
      (start + total before).Fits

theorem fitFrom_zero
    {tokens : List Token} :
    FitFrom 0 tokens ↔ AllFit tokens := by
  simp only [FitFrom, AllFit, zero_add]

theorem FitFrom.left
    {start : Position}
    {a b : List Token}
    (h : FitFrom start (a ++ b)) :
    FitFrom start a := by
  rintro before behind rfl
  exact h before (behind ++ b) (List.append_assoc _ _ _)

theorem FitFrom.right
    {start : Position}
    {a b : List Token}
    (h : FitFrom start (a ++ b)) :
    FitFrom (start + total a) b := by
  rintro before behind rfl
  rw [add_assoc, ← total_append]
  exact h (a ++ before) behind (List.append_assoc _ _ _).symm

theorem FitFrom.stop
    {start : Position}
    {tokens : List Token}
    (h : FitFrom start tokens) :
    (start + total tokens).Fits :=
  h tokens [] (List.append_nil tokens).symm

end Token

namespace Placed

@[simp] theorem row_append
    (start : Position)
    (a b : List Token) :
    row start (a ++ b) =
      row start a ++ row (start + Token.total a) b := by
  induction a generalizing start with
  | nil => simp [row]
  | cons token rest ih =>
      simp [row, ih, add_assoc]

end Placed

namespace Forest

open HasToken (token)

theorem leaves_place
    (start : Position)
    (forest : Forest Token) :
    (forest.place start).leaves =
      Placed.row start forest.leaves := by
  induction forest generalizing start with
  | nil => rfl
  | leaf t rest ih => simp [place, leaves, Placed.row, ih]
  | stray t rest ih => simp [place, leaves, Placed.row, ih]
  | pair opening inside closing rest ihInside ih =>
      cases closing <;>
        simp [place, leaves, Placed.row, ihInside, ih, total]

theorem endAvoids_place
    {ids : IdSet}
    {start : Position}
    {forest : Forest Token} :
    (forest.place start).EndAvoids ids ↔
      forest.EndAvoids ids := by
  induction forest generalizing start with
  | nil => rfl
  | leaf t rest ih => exact ih
  | stray t rest ih => exact ih
  | pair opening inside closing rest ihInside ih =>
      simp [place, EndAvoids, ihInside, ih]

theorem avoids_place
    {ids : IdSet}
    {start : Position}
    {forest : Forest Token} :
    (forest.place start).Avoids ids ↔
      forest.Avoids ids := by
  induction forest generalizing start with
  | nil => rfl
  | leaf t rest ih => exact ih
  | stray t rest ih => simp [place, Avoids, ih]
  | pair opening inside closing rest ihInside ih =>
      simp [place, Avoids, ihInside, ih]

theorem nests_place
    {hides opens : Nat → Prop}
    {level : Nat}
    {start : Position}
    {forest : Forest Token} :
    (forest.place start).Nests hides opens level ↔
      forest.Nests hides opens level := by
  induction forest generalizing start level with
  | nil => rfl
  | leaf t rest ih => simp [place, Nests, ih]
  | stray t rest ih => exact ih
  | pair opening inside closing rest ihInside ih =>
      simp [place, Nests, ihInside, ih]

theorem isShallow_place
    {start : Position}
    {forest : Forest Token} :
    (forest.place start).IsShallow ↔
      forest.IsShallow := by
  induction forest generalizing start with
  | nil => rfl
  | leaf t rest ih => simp [place, IsShallow, ih]
  | stray t rest ih => exact ih
  | pair opening inside closing rest ihInside ih =>
      simp [place, IsShallow, ihInside, ih]

/- Places do not change what matches. -/
theorem isMatched_place
    {start : Position}
    {forest : Forest Token}
    (h : forest.IsMatched) :
    (forest.place start).IsMatched := by
  induction forest generalizing start with
  | nil => trivial
  | leaf t rest ih => exact ⟨h.1, ih h.2⟩
  | stray t rest ih => exact ⟨h.1, ih h.2⟩
  | pair opening inside closing rest ihInside ih =>
      rcases h with ⟨hOpening, hInside, hAvoids, hCloses, hRest⟩
      refine ⟨hOpening, ihInside hInside,
        avoids_place.2 hAvoids, ?_, ih hRest⟩
      cases closing with
      | none =>
          subst hCloses
          rfl
      | some t =>
          exact ⟨hCloses.1, hCloses.2.1,
            endAvoids_place.2 hCloses.2.2⟩

end Forest

end Bracketry
