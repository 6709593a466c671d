import Bracketry.Fault

/-
  What a computation can end with.

  A computation that may be refused is described by two
  conditions: one on its result, and one on the fault if it
  has none.  A sequence of steps is described step by step.

  Key definitions include:
    * `Checked.Ends`

  Main declarations:
    * `Checked.Ends.bind`
    * `Checked.Ends.foldlM`, `Checked.Ends.mapM`
-/

------------------------------------------------------------
-- Ends of a Computation
------------------------------------------------------------

namespace Bracketry

namespace Checked

variable {α β : Type}

/- A result is good, and a fault is one that may be. -/
def Ends
    (MayFail : Fault → Prop)
    (Good : α → Prop) :
    Checked α → Prop
  | .ok value => Good value
  | .error fault => MayFail fault

variable {MayFail : Fault → Prop}
variable {Good Better : α → Prop} {Next : β → Prop}
variable {result : Checked α}

@[simp] theorem ends_ok_iff
    {value : α} :
    Ends MayFail Good (.ok value) ↔ Good value :=
  Iff.rfl

@[simp] theorem ends_pure_iff
    {value : α} :
    Ends MayFail Good (pure value : Checked α) ↔ Good value :=
  Iff.rfl

@[simp] theorem ends_error_iff
    {fault : Fault} :
    Ends MayFail Good (.error fault : Checked α) ↔
      MayFail fault :=
  Iff.rfl

theorem ends_iff :
    Ends MayFail Good result ↔
      (∀ value, result = .ok value → Good value) ∧
        ∀ fault, result = .error fault → MayFail fault := by
  cases result <;> simp

/- Nothing is asked of any end. -/
theorem ends_trivial
    (result : Checked α) :
    Ends (fun _ => True) (fun _ => True) result := by
  cases result <;> trivial

/- A result that there is is a good one. -/
theorem Ends.of_ok
    {value : α}
    (h : Ends MayFail Good result)
    (hResult : result = .ok value) :
    Good value := by
  rwa [hResult] at h

/- A fault that there is is one that may be. -/
theorem Ends.of_error
    {fault : Fault}
    (h : Ends MayFail Good result)
    (hResult : result = .error fault) :
    MayFail fault := by
  rwa [hResult] at h

theorem Ends.mono
    (h : Ends MayFail Good result)
    (hGood : ∀ value, Good value → Better value) :
    Ends MayFail Better result := by
  cases result with
  | ok value => exact hGood value h
  | error fault => exact h

/- Where no fault may be, there is a result. -/
theorem Ends.exists_ok
    (h : Ends (fun _ => False) Good result) :
    ∃ value, result = .ok value ∧ Good value := by
  cases result with
  | ok value => exact ⟨value, rfl, h⟩
  | error fault => exact absurd h id

/- What follows a step begins with a good result of it. -/
theorem Ends.bind
    {next : α → Checked β}
    (h : Ends MayFail Good result)
    (hNext :
      ∀ value, Good value → Ends MayFail Next (next value)) :
    Ends MayFail Next (result >>= next) := by
  cases result with
  | ok value => exact hNext value h
  | error fault => exact h

/- What each step keeps is kept by all of them. -/
theorem Ends.foldlM
    {step : α → β → Checked α}
    {start : α}
    {steps : List β}
    (hStart : Good start)
    (hStep :
      ∀ value item,
        item ∈ steps → Good value →
          Ends MayFail Good (step value item)) :
    Ends MayFail Good (steps.foldlM step start) := by
  induction steps generalizing start with
  | nil => exact hStart
  | cons item rest ih =>
      rw [List.foldlM_cons]
      refine Ends.bind (hStep start item (by simp) hStart) ?_
      intro value hValue
      exact ih hValue fun other step hMem =>
        hStep other step (List.mem_cons_of_mem _ hMem)

/- What holds of each step holds of all results. -/
theorem Ends.mapM
    {step : β → Checked α}
    {items : List β}
    (h : ∀ item ∈ items, Ends MayFail Good (step item)) :
    Ends MayFail (fun values => ∀ value ∈ values, Good value)
      (items.mapM step) := by
  induction items with
  | nil => exact nofun
  | cons item rest ih =>
      rw [List.mapM_cons]
      refine (h item (by simp)).bind fun value hValue => ?_
      refine (ih fun other hMem =>
        h other (List.mem_cons_of_mem _ hMem)).bind
          fun values hValues => ?_
      intro other hMem
      rcases List.mem_cons.1 hMem with rfl | hRest
      · exact hValue
      · exact hValues other hRest

/- A sum that is not refused is exact. -/
theorem ends_checkedSum
    (hSum : MayFail .overflow)
    (a b : Nat) :
    Ends MayFail (· = a + b) (checkedSum a b) := by
  unfold checkedSum
  split
  · rfl
  · exact hSum

end Checked

end Bracketry
