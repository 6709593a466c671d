import Bracketry.Proofs.Forest

/-
  Matching with a stack.

  A matcher reads tokens from left to right and keeps a
  stack of the brackets that are open.  A closing bracket
  closes the nearest open one that it can close; those above
  it stay open for good.  A closing bracket that can close
  none stands alone, and a bracket that would open a pair
  too deep is text.

  The matched forest is the only one with its leaves: what a
  matcher makes of the leaves of a matched forest is that
  forest again.  Text does not matter to a matcher.

  Key definitions include:
    * `Matcher`, `Matcher.step`, `Matcher.read`
    * `Forest.enter`

  Main declarations:
    * `Matcher.read_leaves`
    * `Matcher.isDeepFrom_of_isShallow_run`
    * `Matcher.dropText_read`
-/

------------------------------------------------------------
-- Matchers
------------------------------------------------------------

namespace Bracketry

/- An open bracket and what lies before it on its level. -/
structure Frame (τ : Type) where
  before : Forest τ
  opening : τ

/-
  The open brackets, innermost first, and what was read
  behind the innermost.
-/
structure Matcher (τ : Type) where
  frames : List (Frame τ)
  items : Forest τ

namespace Matcher

variable {τ : Type} [HasToken τ]

open HasToken (token)

/- Nothing is open and nothing was read. -/
def start : Matcher τ :=
  ⟨[], .nil⟩

/- Put items behind those of the innermost level. -/
def add
    (m : Matcher τ)
    (forest : Forest τ) :
    Matcher τ :=
  ⟨m.frames, m.items ++ forest⟩

/- Open a level. -/
def push
    (m : Matcher τ)
    (opening : τ) :
    Matcher τ :=
  ⟨⟨m.items, opening⟩ :: m.frames, .nil⟩

/-
  Close the nearest open bracket that a closing one can
  close.  The brackets above it are not closed.
-/
def closeWith
    (closing : τ) :
    List (Frame τ) → Forest τ → Option (Matcher τ)
  | [], _ => none
  | frame :: frames, items =>
      if (token closing).ids.intersects
          (token frame.opening).ids then
        some ⟨frames,
          frame.before ++
            .pair frame.opening items (some closing) .nil⟩
      else
        closeWith closing frames
          (frame.before ++
            .pair frame.opening items none .nil)

/- Read one token. -/
def step
    (m : Matcher τ)
    (t : τ) :
    Matcher τ :=
  if (token t).isOpening then
    if Parser.maxNestingLevel < m.frames.length then
      m.add (.leaf t .nil)
    else m.push t
  else if (token t).isClosing then
    (closeWith t m.frames m.items).getD
      (m.add (.stray t .nil))
  else m.add (.leaf t .nil)

/- Read tokens. -/
def run
    (m : Matcher τ)
    (tokens : List τ) :
    Matcher τ :=
  tokens.foldl step m

omit [HasToken τ] in
/- Leave all open brackets unclosed. -/
def finishFrom :
    List (Frame τ) → Forest τ → Forest τ
  | [], items => items
  | frame :: frames, items =>
      finishFrom frames
        (frame.before ++
          .pair frame.opening items none .nil)

omit [HasToken τ] in
/- The forest at the end of the tokens. -/
def finish
    (m : Matcher τ) :
    Forest τ :=
  finishFrom m.frames m.items

/- The forest of tokens. -/
def read
    (tokens : List τ) :
    Forest τ :=
  (start.run tokens).finish

theorem run_append
    (m : Matcher τ)
    (a b : List τ) :
    m.run (a ++ b) = (m.run a).run b :=
  List.foldl_append

@[simp] theorem run_cons
    (m : Matcher τ)
    (t : τ)
    (rest : List τ) :
    m.run (t :: rest) = (m.step t).run rest :=
  rfl

@[simp] theorem run_nil
    (m : Matcher τ) :
    m.run [] = m :=
  rfl

end Matcher

end Bracketry

------------------------------------------------------------
-- Reading a Matched Forest
------------------------------------------------------------

namespace Bracketry

namespace Forest

variable {τ : Type}

/-
  The matcher behind the leaves of a forest: a pair that is
  not closed leaves its bracket open.
-/
def enter :
    Forest τ → Matcher τ → Matcher τ
  | .nil, m => m
  | .leaf t rest, m => rest.enter (m.add (.leaf t .nil))
  | .stray t rest, m => rest.enter (m.add (.stray t .nil))
  | .pair opening inside (some t) rest, m =>
      rest.enter (m.add (.pair opening inside (some t) .nil))
  | .pair opening inside none _, m =>
      inside.enter (m.push opening)

end Forest

namespace Matcher

variable {τ : Type}

@[simp] theorem add_add
    (m : Matcher τ)
    (a b : Forest τ) :
    (m.add a).add b = m.add (a ++ b) := by
  simp [add, Forest.append_assoc]

@[simp] theorem add_frames
    (m : Matcher τ)
    (forest : Forest τ) :
    (m.add forest).frames = m.frames :=
  rfl

@[simp] theorem add_nil
    (m : Matcher τ) :
    m.add .nil = m := by
  simp [add]

@[simp] theorem push_frames
    (m : Matcher τ)
    (opening : τ) :
    (m.push opening).frames =
      ⟨m.items, opening⟩ :: m.frames :=
  rfl

variable [HasToken τ]

open HasToken (token)

/- Text, and a bracket that is too deep, is added. -/
theorem step_leaf
    {m : Matcher τ}
    {t : τ}
    (hClosing : (token t).isClosing = false)
    (hDeep :
      (token t).isOpening = true →
        Parser.maxNestingLevel < m.frames.length) :
    m.step t = m.add (.leaf t .nil) := by
  unfold step
  by_cases hOpening : (token t).isOpening = true
  · rw [if_pos hOpening, if_pos (hDeep hOpening)]
  · rw [if_neg hOpening, hClosing]
    rfl

/- An opening bracket opens a level up to the limit. -/
theorem step_opening
    {m : Matcher τ}
    {t : τ}
    (hOpening : (token t).isOpening = true)
    (hLevel : m.frames.length ≤ Parser.maxNestingLevel) :
    m.step t = m.push t := by
  unfold step
  rw [if_pos hOpening, if_neg (Nat.not_lt.2 hLevel)]

/- A closing bracket closes what it can. -/
theorem step_closing
    {m : Matcher τ}
    {t : τ}
    (hClosing : (token t).isClosing = true) :
    m.step t =
      (closeWith t m.frames m.items).getD
        (m.add (.stray t .nil)) := by
  have hOpening := Token.isOpening_of_isClosing hClosing
  unfold step
  rw [hOpening, hClosing]
  rfl

/- Nothing open is closed by ids that meet none of it. -/
theorem closeWith_eq_none
    {t : τ}
    {frames : List (Frame τ)}
    {items : Forest τ}
    (h :
      ∀ frame ∈ frames,
        (token t).ids.intersects
          (token frame.opening).ids = false) :
    closeWith t frames items = none := by
  induction frames generalizing items with
  | nil => rfl
  | cons frame frames ih =>
      rw [List.forall_mem_cons] at h
      unfold closeWith
      rw [h.1]
      exact ih h.2

/- A closing bracket passes what it avoids at the end. -/
theorem closeWith_enter
    {t : τ}
    {forest : Forest τ}
    {m : Matcher τ}
    (hMatched : forest.IsMatched)
    (hAvoids : forest.EndAvoids (token t).ids) :
    closeWith t (forest.enter m).frames
        (forest.enter m).items =
      closeWith t m.frames (m.items ++ forest) := by
  induction forest generalizing m with
  | nil => simp [Forest.enter]
  | leaf u rest ih =>
      rw [Forest.enter, ih hMatched.2 hAvoids]
      simp [add, Forest.append_assoc]
  | stray u rest ih =>
      rw [Forest.enter, ih hMatched.2 hAvoids]
      simp [add, Forest.append_assoc]
  | pair opening inside closing rest ihInside ih =>
      cases closing with
      | some u =>
          rw [Forest.enter, ih hMatched.2.2.2.2 hAvoids.2]
          simp [add, Forest.append_assoc]
      | none =>
          rcases hMatched with ⟨_, hInside, _, rfl, _⟩
          have hOpen := hAvoids.1 rfl
          rw [Forest.enter, ihInside hInside hOpen.2]
          simp [push, closeWith, hOpen.1]

/- A closing bracket that meets nothing open is stray. -/
theorem step_stray
    {m : Matcher τ}
    {t : τ}
    (hClosing : (token t).isClosing = true)
    (hAvoids :
      ∀ frame ∈ m.frames,
        (token frame.opening).ids.intersects
          (token t).ids = false) :
    m.step t = m.add (.stray t .nil) := by
  have hNone : closeWith t m.frames m.items = none := by
    apply closeWith_eq_none
    intro frame hFrame
    rw [IdSet.intersects_comm]
    exact hAvoids frame hFrame
  rw [step_closing hClosing, hNone]
  rfl

/- The bracket that closes a pair makes the pair. -/
theorem step_close
    {opening t : τ}
    {inside : Forest τ}
    {m : Matcher τ}
    (hInside : inside.IsMatched)
    (hCloses : Forest.Closes opening t inside) :
    (inside.enter (m.push opening)).step t =
      m.add (.pair opening inside (some t) .nil) := by
  rcases hCloses with ⟨hClosing, hMeets, hEnd⟩
  rw [step_closing hClosing, closeWith_enter hInside hEnd]
  simp [push, closeWith, hMeets, add]

/- At the end, what was entered is what was read. -/
theorem finish_enter
    {forest : Forest τ}
    {m : Matcher τ}
    (hMatched : forest.IsMatched) :
    (forest.enter m).finish = (m.add forest).finish := by
  induction forest generalizing m with
  | nil => simp [Forest.enter]
  | leaf u rest ih =>
      rw [Forest.enter, ih hMatched.2, add_add]
      rfl
  | stray u rest ih =>
      rw [Forest.enter, ih hMatched.2, add_add]
      rfl
  | pair opening inside closing rest ihInside ih =>
      cases closing with
      | some u =>
          rw [Forest.enter, ih hMatched.2.2.2.2, add_add]
          rfl
      | none =>
          rcases hMatched with ⟨_, hInside, _, rfl, _⟩
          rw [Forest.enter, ihInside hInside]
          simp [finish, finishFrom, push, add]

/-
  The leaves of a matched forest lead to the state that the
  forest stands for.  Its stray brackets must not close what
  is open around it.
-/
theorem run_leaves
    {forest : Forest τ}
    {m : Matcher τ}
    (hMatched : forest.IsMatched)
    (hDeep : forest.IsDeepFrom m.frames.length)
    (hAvoids :
      ∀ frame ∈ m.frames,
        forest.Avoids (token frame.opening).ids) :
    m.run forest.leaves = forest.enter m := by
  induction forest generalizing m with
  | nil => rfl
  | leaf t rest ih =>
      rw [Forest.leaves, run_cons,
        step_leaf hMatched.1 hDeep.1, Forest.enter]
      exact ih hMatched.2 hDeep.2 hAvoids
  | stray t rest ih =>
      rw [Forest.leaves, run_cons,
        step_stray hMatched.1
          fun frame hFrame => (hAvoids frame hFrame).1,
        Forest.enter]
      exact ih hMatched.2 hDeep
        fun frame hFrame => (hAvoids frame hFrame).2
  | pair opening inside closing rest ihInside ih =>
      rcases hMatched with
        ⟨hOpening, hInside, hOwn, hCloses, hRest⟩
      rcases hDeep with ⟨hLevel, hDeepInside, hDeepRest⟩
      have hRun :
          (m.push opening).run inside.leaves =
            inside.enter (m.push opening) := by
        apply ihInside (m := m.push opening) hInside
          hDeepInside
        rw [push_frames, List.forall_mem_cons]
        exact ⟨hOwn,
          fun frame hFrame => (hAvoids frame hFrame).1⟩
      rw [Forest.leaves, run_cons,
        step_opening hOpening hLevel, run_append, hRun]
      cases closing with
      | none =>
          subst hCloses
          rfl
      | some t =>
          rw [Option.toList_some, List.singleton_append,
            run_cons, step_close hInside hCloses,
            Forest.enter]
          exact ih hRest hDeepRest
            fun frame hFrame => (hAvoids frame hFrame).2

/- A matched forest is what its leaves are read as. -/
theorem read_leaves
    {forest : Forest τ}
    (hMatched : forest.IsMatched)
    (hDeep : forest.IsDeepFrom 0) :
    read forest.leaves = forest := by
  have hRun :
      (start (τ := τ)).run forest.leaves =
        forest.enter start :=
    run_leaves hMatched hDeep (by simp [start])
  rw [read, hRun, finish_enter hMatched]
  rfl

end Matcher

end Bracketry

------------------------------------------------------------
-- Brackets that Are Too Deep
------------------------------------------------------------

namespace Bracketry

namespace Matcher

variable {τ : Type} [HasToken τ]

open HasToken (token)

/- No opening bracket was read as text. -/
def IsShallow
    (m : Matcher τ) :
    Prop :=
  (∀ frame ∈ m.frames, frame.before.IsShallow) ∧
    m.items.IsShallow

theorem isShallow_of_closeWith
    {t : τ}
    {frames : List (Frame τ)}
    {items : Forest τ}
    {m : Matcher τ}
    (hClose : closeWith t frames items = some m)
    (h : m.IsShallow) :
    IsShallow ⟨frames, items⟩ := by
  induction frames generalizing items with
  | nil => cases hClose
  | cons frame frames ih =>
      unfold closeWith at hClose
      split_ifs at hClose
      · rcases Option.some.inj hClose with rfl
        have hItems := Forest.isShallow_append.1 h.2
        refine ⟨?_, hItems.2.1⟩
        rw [List.forall_mem_cons]
        exact ⟨hItems.1, h.1⟩
      · rcases ih hClose with ⟨hFrames, hItems⟩
        have hParts := Forest.isShallow_append.1 hItems
        refine ⟨?_, hParts.2.1⟩
        rw [List.forall_mem_cons]
        exact ⟨hParts.1, hFrames⟩

/- What was read as text stays text. -/
theorem isShallow_of_step
    {m : Matcher τ}
    {t : τ}
    (h : (m.step t).IsShallow) :
    m.IsShallow := by
  have hAdd :
      ∀ forest, (m.add forest).IsShallow → m.IsShallow :=
    fun forest hSum =>
      ⟨hSum.1, (Forest.isShallow_append.1 hSum.2).1⟩
  unfold step at h
  split_ifs at h
  · exact hAdd _ h
  · have hFrames := h.1
    rw [push_frames, List.forall_mem_cons] at hFrames
    exact ⟨hFrames.2, hFrames.1⟩
  · cases hClose : closeWith t m.frames m.items with
    | none =>
        rw [hClose] at h
        exact hAdd _ h
    | some after =>
        rw [hClose] at h
        exact isShallow_of_closeWith hClose h
  · exact hAdd _ h

theorem isShallow_of_run
    {m : Matcher τ}
    {tokens : List τ}
    (h : (m.run tokens).IsShallow) :
    m.IsShallow := by
  induction tokens generalizing m with
  | nil => exact h
  | cons t rest ih => exact isShallow_of_step (ih h)

theorem isShallow_of_finish
    {m : Matcher τ}
    (h : m.finish.IsShallow) :
    m.IsShallow := by
  rcases m with ⟨frames, items⟩
  induction frames generalizing items with
  | nil =>
      exact ⟨by simp, h⟩
  | cons frame frames ih =>
      rcases ih _ h with ⟨hFrames, hItems⟩
      have hParts := Forest.isShallow_append.1 hItems
      refine ⟨?_, hParts.2.1⟩
      rw [List.forall_mem_cons]
      exact ⟨hParts.1, hFrames⟩

/- A bracket that is too deep is read as text. -/
theorem not_isShallow_step
    {m : Matcher τ}
    {t : τ}
    (hOpening : (token t).isOpening = true)
    (hLevel : Parser.maxNestingLevel < m.frames.length) :
    ¬(m.step t).IsShallow := by
  intro hStep
  rw [step_leaf (Token.isClosing_of_isOpening hOpening)
    fun _ => hLevel] at hStep
  have hLeaf := (Forest.isShallow_append.1 hStep.2).2.1
  rw [hOpening] at hLeaf
  cases hLeaf

/-
  A bracket that is read too deep shows.  So if none was,
  and a matched forest hides brackets only too deep, it has
  no pair that is too deep and hides nothing.
-/
theorem isDeepFrom_of_isShallow_run
    {forest : Forest τ}
    {m : Matcher τ}
    (hMatched : forest.IsMatched)
    (hHides :
      forest.Nests (Parser.maxNestingLevel < ·)
        (fun _ => True) m.frames.length)
    (hAvoids :
      ∀ frame ∈ m.frames,
        forest.Avoids (token frame.opening).ids)
    (hRun : (m.run forest.leaves).IsShallow) :
    forest.IsDeepFrom m.frames.length ∧
      forest.IsShallow := by
  induction forest generalizing m with
  | nil => exact ⟨trivial, trivial⟩
  | leaf t rest ih =>
      rw [Forest.leaves, run_cons] at hRun
      have hOpening : (token t).isOpening = false := by
        by_contra hNot
        rw [Bool.not_eq_false] at hNot
        exact not_isShallow_step hNot (hHides.1 hNot)
          (isShallow_of_run hRun)
      rw [step_leaf hMatched.1 hHides.1] at hRun
      have hRest := ih (m := m.add (.leaf t .nil))
        hMatched.2 hHides.2 hAvoids hRun
      exact ⟨⟨hHides.1, hRest.1⟩, hOpening, hRest.2⟩
  | stray t rest ih =>
      rw [Forest.leaves, run_cons,
        step_stray hMatched.1
          fun frame hFrame => (hAvoids frame hFrame).1]
        at hRun
      exact ih (m := m.add (.stray t .nil)) hMatched.2
        hHides
        (fun frame hFrame => (hAvoids frame hFrame).2) hRun
  | pair opening inside closing rest ihInside ih =>
      rcases hMatched with
        ⟨hOpening, hInside, hOwn, hCloses, hRest⟩
      rcases hHides with ⟨_, hHidesInside, hHidesRest⟩
      rw [Forest.leaves, run_cons] at hRun
      have hLevel :
          m.frames.length ≤ Parser.maxNestingLevel := by
        by_contra hNot
        exact not_isShallow_step hOpening
          (Nat.not_le.1 hNot) (isShallow_of_run hRun)
      rw [step_opening hOpening hLevel, run_append] at hRun
      have hAvoidsInside :
          ∀ frame ∈ (m.push opening).frames,
            inside.Avoids (token frame.opening).ids := by
        rw [push_frames, List.forall_mem_cons]
        exact ⟨hOwn,
          fun frame hFrame => (hAvoids frame hFrame).1⟩
      have hDeepInside := ihInside (m := m.push opening)
        hInside hHidesInside hAvoidsInside
        (isShallow_of_run hRun)
      rw [run_leaves hInside hDeepInside.1 hAvoidsInside]
        at hRun
      cases closing with
      | none =>
          subst hCloses
          exact ⟨⟨hLevel, hDeepInside.1, trivial⟩,
            hDeepInside.2, trivial⟩
      | some t =>
          rw [Option.toList_some, List.singleton_append,
            run_cons, step_close hInside hCloses] at hRun
          have hDeepRest := ih
            (m := m.add (.pair opening inside (some t) .nil))
            hRest hHidesRest
            (fun frame hFrame => (hAvoids frame hFrame).2)
            hRun
          exact ⟨⟨hLevel, hDeepInside.1, hDeepRest.1⟩,
            hDeepInside.2, hDeepRest.2⟩

/-
  If the leaves are read without a bracket too deep, a
  matched forest that hides none but those is what is read.
-/
theorem read_leaves_of_isShallow
    {forest : Forest τ}
    (hMatched : forest.IsMatched)
    (hHides :
      forest.Nests (Parser.maxNestingLevel < ·)
        (fun _ => True) 0)
    (hRead : (read forest.leaves).IsShallow) :
    read forest.leaves = forest := by
  have hDeep :=
    isDeepFrom_of_isShallow_run (m := start) hMatched hHides
      (by simp [start]) (isShallow_of_finish hRead)
  exact read_leaves hMatched hDeep.1

end Matcher

end Bracketry

------------------------------------------------------------
-- Text Does Not Matter
------------------------------------------------------------

namespace Bracketry

namespace Forest

variable {τ : Type} [HasToken τ]

@[simp] theorem dropText_append
    (a b : Forest τ) :
    (a ++ b).dropText = a.dropText ++ b.dropText := by
  induction a with
  | nil => rfl
  | leaf t rest ih =>
      simp only [leaf_append, dropText, ih]
      split_ifs <;> rfl
  | stray t rest ih => simp [dropText, ih]
  | pair opening inside closing rest _ ih =>
      simp [dropText, ih]

/- Text is not too deep. -/
theorem isShallow_dropText
    {forest : Forest τ} :
    forest.dropText.IsShallow ↔ forest.IsShallow := by
  induction forest with
  | nil => rfl
  | leaf t rest ih =>
      cases hToken : HasToken.token t with
      | text length =>
          simp [dropText, IsShallow, hToken, ih,
            Token.isBracket, Token.isOpening]
      | bracket leaf id =>
          simp [dropText, IsShallow, hToken, ih,
            Token.isBracket]
  | stray t rest ih => exact ih
  | pair opening inside closing rest ihInside ih =>
      simp [dropText, IsShallow, ihInside, ih]

end Forest

namespace Matcher

variable {τ : Type} [HasToken τ]

open HasToken (token)

/- The matcher without text between the brackets. -/
def dropText
    (m : Matcher τ) :
    Matcher τ :=
  ⟨m.frames.map fun frame =>
      ⟨frame.before.dropText, frame.opening⟩,
    m.items.dropText⟩

theorem dropText_add
    (m : Matcher τ)
    (forest : Forest τ) :
    (m.add forest).dropText =
      m.dropText.add forest.dropText := by
  simp [dropText, add]

theorem closeWith_dropText
    (t : τ)
    (frames : List (Frame τ))
    (items : Forest τ) :
    (closeWith t frames items).map dropText =
      closeWith t (dropText ⟨frames, items⟩).frames
        items.dropText := by
  induction frames generalizing items with
  | nil => rfl
  | cons frame frames ih =>
      simp only [closeWith, dropText, List.map_cons]
      split_ifs
      · simp [dropText, Forest.dropText]
      · rw [ih]
        simp [dropText, Forest.dropText]

/- A bracket is read as if there were no text. -/
theorem dropText_step
    {m : Matcher τ}
    {t : τ}
    (hBracket : (token t).isBracket = true) :
    (m.step t).dropText = m.dropText.step t := by
  have hLength :
      m.dropText.frames.length = m.frames.length := by
    simp [dropText]
  have hClose := closeWith_dropText t m.frames m.items
  unfold step
  rw [hLength]
  split_ifs
  · simp [dropText_add, Forest.dropText, hBracket]
  · simp [dropText, push, Forest.dropText]
  · cases hFound : closeWith t m.frames m.items with
    | none =>
        rw [hFound] at hClose
        rw [show closeWith t m.dropText.frames
          m.dropText.items = none from hClose.symm]
        simp [dropText_add, Forest.dropText]
    | some after =>
        rw [hFound] at hClose
        rw [show closeWith t m.dropText.frames
          m.dropText.items = some after.dropText
          from hClose.symm]
        rfl
  · simp [dropText_add, Forest.dropText, hBracket]

theorem dropText_run
    (m : Matcher τ)
    (tokens : List τ) :
    (m.run tokens).dropText =
      m.dropText.run
        (tokens.filter fun t => (token t).isBracket) := by
  induction tokens generalizing m with
  | nil => rfl
  | cons t rest ih =>
      rw [run_cons, ih]
      cases hToken : token t with
      | text length =>
          have hStep : m.step t = m.add (.leaf t .nil) := by
            apply step_leaf <;>
              simp [hToken, Token.isClosing,
                Token.isOpening]
          rw [hStep, dropText_add]
          simp [hToken, Forest.dropText, Token.isBracket]
      | bracket leaf id =>
          have hBracket : (token t).isBracket = true := by
            rw [hToken]
            rfl
          simp [hBracket, dropText_step hBracket]

theorem dropText_finish
    (m : Matcher τ) :
    m.finish.dropText = m.dropText.finish := by
  rcases m with ⟨frames, items⟩
  induction frames generalizing items with
  | nil => rfl
  | cons frame frames ih =>
      rw [finish, finishFrom]
      refine (ih _).trans ?_
      simp [finish, dropText, finishFrom, Forest.dropText]

/- What is read without text is what brackets are read as. -/
theorem dropText_read
    (tokens : List τ) :
    (read tokens).dropText =
      read (tokens.filter fun t => (token t).isBracket) := by
  rw [read, dropText_finish, dropText_run]
  rfl

end Matcher

end Bracketry
