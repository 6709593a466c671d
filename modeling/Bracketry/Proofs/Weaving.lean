import Bracketry.Edit.Compose
import Bracketry.Proofs.Lengths

/-
  The runs of a composition.

  A composition is computed with sums that may be refused.
  When none of them is, its edits before joining are those
  of a list of runs: each run that the second batch copies
  is replaced by the runs of the first that make it up.

  Key definitions include:
    * `Checked.OnlyOverflows`
    * `Edit.ofRuns`, `Run.width`
    * `Run.weave`

  Main declarations:
    * `Edit.chain_eq`
    * `Edit.compose_onlyOverflows`
-/

------------------------------------------------------------
-- Checked Steps
------------------------------------------------------------

namespace Bracketry

namespace Checked

variable {α β : Type}

/- The only fault that there may be is a sum too large. -/
def OnlyOverflows
    (result : Checked α) :
    Prop :=
  ∀ fault, result = .error fault → fault = .overflow

theorem OnlyOverflows.ok
    (value : α) :
    OnlyOverflows (.ok value) := by
  rintro fault ⟨⟩

theorem OnlyOverflows.bind
    {first : Checked α}
    {next : α → Checked β}
    (hFirst : first.OnlyOverflows)
    (hNext : ∀ value, (next value).OnlyOverflows) :
    (first >>= next).OnlyOverflows := by
  cases first with
  | error fault =>
      rintro _ ⟨⟩
      exact hFirst fault rfl
  | ok value => exact hNext value

/- Without the fault there is a result. -/
theorem OnlyOverflows.exists_ok
    {result : Checked α}
    (h : result.OnlyOverflows)
    (hFits : result ≠ .error .overflow) :
    ∃ value, result = .ok value := by
  cases result with
  | error fault => exact absurd (h fault rfl ▸ rfl) hFits
  | ok value => exact ⟨value, rfl⟩

end Checked

end Bracketry

------------------------------------------------------------
-- Edits of Runs
------------------------------------------------------------

namespace Bracketry

namespace Run

/- The old text of runs. -/
def width
    (runs : List Run) :
    Length :=
  (runs.map Run.before).sum

@[simp] theorem width_nil : width [] = 0 := rfl

@[simp] theorem width_cons
    (run : Run)
    (rest : List Run) :
    width (run :: rest) = run.before + width rest := by
  simp [width]

end Run

namespace Edit

/- The changed runs behind a place, as edits. -/
def ofRuns
    (offset : Position) :
    List Run → List Edit
  | [] => []
  | run :: rest =>
      let others := ofRuns (offset + run.before) rest
      if run.changed then
        ⟨offset, offset + run.before, run.after⟩ :: others
      else others

theorem ofRuns_append
    (offset : Position)
    (first last : List Run) :
    ofRuns offset (first ++ last) =
      ofRuns offset first ++
        ofRuns (offset + Run.width first) last := by
  induction first generalizing offset with
  | nil => simp [ofRuns]
  | cons run rest ih =>
      rw [List.cons_append, ofRuns, ih, ofRuns,
        Run.width_cons, ← add_assoc]
      split_ifs <;> rfl

/- They are in order. -/
theorem isBatchFrom_ofRuns
    {low offset : Position}
    (hLow : low ≤ offset)
    (runs : List Run) :
    IsBatchFrom low (ofRuns offset runs) := by
  induction runs generalizing low offset with
  | nil => trivial
  | cons run rest ih =>
      have hStop := Length.le_add_right offset run.before
      rw [ofRuns]
      split_ifs
      · exact ⟨hLow, hStop, ih (le_refl _)⟩
      · exact ih (hLow.trans hStop)

end Edit

end Bracketry

------------------------------------------------------------
-- Woven Runs
------------------------------------------------------------

namespace Bracketry

namespace Run

/-
  The runs of two batches after one another.  A run that is
  changed last replaces all that made up its old text.
-/
def weave
    (first : List Run) :
    List Run → List Run
  | [] => first
  | run :: rest =>
      let (items, left) := take run.before first
      if run.changed then
        ⟨true, width items, run.after⟩ ::
          weave left rest
      else items ++ weave left rest

end Run

namespace Edit

theorem kept_eq
    {offset stop : Position}
    {runs : List Run}
    {edits : List Edit}
    (h : kept offset runs = .ok (edits, stop)) :
    edits = ofRuns offset runs ∧
      stop = offset + Run.width runs := by
  induction runs generalizing offset edits stop with
  | nil =>
      cases h
      simp [ofRuns]
  | cons run rest ih =>
      rcases Checked.bind_eq_ok_iff.1 h with ⟨next, hNext, h⟩
      rcases Length.plus_eq_ok_iff.1 hNext with ⟨_, rfl⟩
      rcases Checked.bind_eq_ok_iff.1 h with
        ⟨⟨others, last⟩, hRest, h⟩
      rcases ih hRest with ⟨rfl, rfl⟩
      rw [ofRuns, Run.width_cons, ← add_assoc]
      simp only at h
      split_ifs at h ⊢
      · cases h
        exact ⟨rfl, rfl⟩
      · cases h
        exact ⟨rfl, rfl⟩

/- The chain of two batches has the edits of their weave. -/
theorem chain_eq
    {first others : List Run}
    {offset : Position}
    {edits : List Edit}
    (h : chain first offset others = .ok edits) :
    edits = ofRuns offset (Run.weave first others) := by
  induction others generalizing first offset edits with
  | nil =>
      rcases Checked.bind_eq_ok_iff.1 h with
        ⟨⟨kept, last⟩, hKept, h⟩
      cases h
      exact (kept_eq hKept).1
  | cons run rest ih =>
      rw [chain] at h
      rw [Run.weave]
      simp only at h ⊢
      split_ifs at h ⊢ with hChanged
      · rcases Checked.bind_eq_ok_iff.1 h with ⟨sum, hSum, h⟩
        rcases Checked.bind_eq_ok_iff.1 h with ⟨stop, hStop, h⟩
        rcases Checked.bind_eq_ok_iff.1 h with ⟨more, hMore, h⟩
        have hWidth := Length.eq_of_foldlM hSum
        rw [zero_add] at hWidth
        rcases Length.plus_eq_ok_iff.1 hStop with ⟨_, rfl⟩
        cases h
        rw [ih hMore, hWidth]
        simp [ofRuns, Run.width]
      · rcases Checked.bind_eq_ok_iff.1 h with
          ⟨⟨kept, stop⟩, hKept, h⟩
        rcases Checked.bind_eq_ok_iff.1 h with ⟨more, hMore, h⟩
        rcases kept_eq hKept with ⟨rfl, rfl⟩
        cases h
        rw [ih hMore, ofRuns_append]

end Edit

end Bracketry

------------------------------------------------------------
-- Refused Compositions
------------------------------------------------------------

namespace Bracketry

open Checked

theorem Length.plus_onlyOverflows
    (a b : Length) :
    (a.plus b).OnlyOverflows := by
  unfold Length.plus
  split_ifs
  · exact .ok _
  · rintro fault ⟨⟩
    rfl

namespace Edit

@[simp] theorem compose_nil_left
    (edits : List Edit) :
    compose [] edits = .ok edits :=
  rfl

@[simp] theorem compose_nil_right
    (edits : List Edit) :
    compose edits [] = .ok edits := by
  cases edits <;> rfl

theorem total_onlyOverflows
    (items : List Length)
    (start : Length) :
    OnlyOverflows (items.foldlM Length.plus start) := by
  induction items generalizing start with
  | nil => exact .ok _
  | cons item rest ih =>
      rw [List.foldlM_cons]
      exact .bind (Length.plus_onlyOverflows _ _) ih

theorem kept_onlyOverflows
    (offset : Position)
    (runs : List Run) :
    OnlyOverflows (kept offset runs) := by
  induction runs generalizing offset with
  | nil => exact .ok _
  | cons run rest ih =>
      refine .bind (Length.plus_onlyOverflows _ _)
        fun stop => .bind (ih stop) fun result => ?_
      split_ifs
      · exact .ok _
      · exact .ok _

theorem chain_onlyOverflows
    (first others : List Run)
    (offset : Position) :
    OnlyOverflows (chain first offset others) := by
  induction others generalizing first offset with
  | nil =>
      exact .bind (kept_onlyOverflows _ _) fun _ => .ok _
  | cons run rest ih =>
      rw [chain]
      simp only
      split_ifs
      · exact .bind (total_onlyOverflows _ _) fun width =>
          .bind (Length.plus_onlyOverflows _ _) fun stop =>
            .bind (ih _ _) fun _ => .ok _
      · exact .bind (kept_onlyOverflows _ _) fun result =>
          .bind (ih _ _) fun _ => .ok _

theorem joinFrom_onlyOverflows
    (current : Edit)
    (edits : List Edit) :
    OnlyOverflows (joinFrom current edits) := by
  induction edits generalizing current with
  | nil => exact .ok _
  | cons edit rest ih =>
      rw [joinFrom]
      split_ifs
      · exact .bind (Length.plus_onlyOverflows _ _)
          fun inserted => ih _
      · exact .bind (ih edit) fun _ => .ok _

theorem compose_onlyOverflows
    (first second : List Edit) :
    OnlyOverflows (compose first second) := by
  unfold compose
  split_ifs
  · exact .ok _
  · exact .ok _
  · refine .bind (chain_onlyOverflows _ _ _) fun edits => ?_
    cases edits with
    | nil => exact .ok _
    | cons edit rest => exact joinFrom_onlyOverflows _ _

end Edit

end Bracketry
