import Bracketry.Proofs.Parses
import Bracketry.Proofs.Sessions

/-
  Where the trees of an index come from.

  A tree that an index holds after some step was held before
  it, or it was made by a parse that could take parts out of
  such a tree.  Only a flush makes trees.  It counts keys on
  and forgets nothing that was remembered.

  Key definitions include:
    * `Index.HasTree`, `Index.Descends`
    * `Index.ComesFrom`, `Index.HoldsNoMore`

  Main declarations:
    * `Node.le_giveKeys`
    * `Index.comesFrom_update`
    * `Session.comesFrom_step`
-/

------------------------------------------------------------
-- Counting Keys
------------------------------------------------------------

namespace Bracketry

namespace Node

/- Keys are counted on. -/
theorem le_giveKeys
    (node : Node)
    (next : Nat) :
    next ≤ (giveKeys next node).2 := by
  induction node using Node.induction
    generalizing next with
  | text key length => cases key <;> simp [giveKeys]
  | bracket leaf => exact Nat.le_refl next
  | invalid key ids length => cases key <;> simp [giveKeys]
  | pair key length missing opening child closing ih =>
      cases key with
      | some old => exact Nat.le_refl next
      | none =>
          cases child with
          | none => exact Nat.le_succ next
          | some node =>
              exact Nat.le_of_succ_le (ih node rfl (next + 1))
  | list key height length missing items ih =>
      cases key with
      | some old => exact Nat.le_refl next
      | none =>
          have hItems :
              ∀ start, start ≤ (giveAllKeys start items).2 := by
            induction items with
            | nil => exact Nat.le_refl
            | cons first rest ihRest =>
                rw [List.forall_mem_cons] at ih
                exact fun start => Nat.le_trans (ih.1 start)
                  (ihRest ih.2 _)
          exact Nat.le_of_succ_le (hItems (next + 1))

end Node

end Bracketry

------------------------------------------------------------
-- Trees of an Index
------------------------------------------------------------

namespace Bracketry

namespace Index

/- The index holds the tree. -/
def HasTree
    (index : Index)
    (root : Node) :
    Prop :=
  index.plain = some root ∨ index.classified = some root

/-
  The tree was parsed, if not from scratch then with a tree
  of the index, and its keys were counted on up to `last`.
-/
def Descends
    (index : Index)
    (last : Nat)
    (root : Node) :
    Prop :=
  ∃ content spans job made stats next,
    (∀ old, job.old = some old → index.HasTree old) ∧
      parse index.table content spans job =
        .ok (made, stats) ∧
      root = (made.giveKeys next).1 ∧ index.nextKey ≤ next ∧
      (made.giveKeys next).2 ≤ last

/-
  One index comes from another: it has the same table and
  memory, counts on, and its trees are old or descend.
-/
structure ComesFrom
    (index after : Index) :
    Prop where
  table : after.table = index.table
  cache : after.cache = index.cache
  nextKey : index.nextKey ≤ after.nextKey
  trees :
    ∀ root, after.HasTree root →
      index.HasTree root ∨
        index.Descends after.nextKey root

variable {origin index after : Index}

theorem Descends.mono
    {last more : Nat}
    {root : Node}
    (hMore : last ≤ more)
    (h : index.Descends last root) :
    index.Descends more root := by
  rcases h with
    ⟨content, spans, job, made, stats, next, hOld, hParse,
      hRoot, hNext, hLast⟩
  exact ⟨content, spans, job, made, stats, next, hOld, hParse,
    hRoot, hNext, Nat.le_trans hLast hMore⟩

/- An index with the same trees, keys and memory. -/
theorem ComesFrom.ofSame
    (hTable : after.table = index.table)
    (hCache : after.cache = index.cache)
    (hNextKey : after.nextKey = index.nextKey)
    (hTrees : ∀ root, after.HasTree root → index.HasTree root) :
    index.ComesFrom after :=
  ⟨hTable, hCache, Nat.le_of_eq hNextKey.symm,
    fun root hRoot => .inl (hTrees root hRoot)⟩

/- What is parsed with a tree of the origin descends from it. -/
theorem ComesFrom.parseWithKeys
    {content : Content}
    {spans : Option SpanTable}
    {job : ParseJob}
    {root : Node}
    {stats : ParseStats}
    (hFrom : origin.ComesFrom index)
    (hJob : ∀ old, job.old = some old → origin.HasTree old)
    (h :
      index.parseWithKeys content spans job =
        .ok (root, stats, after)) :
    origin.Descends after.nextKey root ∧
      origin.ComesFrom after := by
  rcases Checked.bind_eq_ok_iff.1 h with
    ⟨⟨made, counts⟩, hMade, h⟩
  cases h
  rw [hFrom.table] at hMade
  have hNext := made.le_giveKeys index.nextKey
  refine ⟨⟨content, spans, job, made, stats, index.nextKey,
    hJob, hMade, rfl, hFrom.nextKey, Nat.le_refl _⟩,
    hFrom.table, hFrom.cache,
    Nat.le_trans hFrom.nextKey hNext, ?_⟩
  intro tree hTree
  exact (hFrom.trees tree hTree).imp id (.mono hNext)

/- A tree that descends is put in place of others. -/
theorem ComesFrom.withTree
    {root : Node}
    (hFrom : origin.ComesFrom index)
    (hRoot : origin.Descends index.nextKey root)
    (hTable : after.table = index.table)
    (hCache : after.cache = index.cache)
    (hNextKey : after.nextKey = index.nextKey)
    (hTrees :
      ∀ tree, after.HasTree tree →
        index.HasTree tree ∨ tree = root) :
    origin.ComesFrom after := by
  refine ⟨hTable.trans hFrom.table, hCache.trans hFrom.cache,
    hNextKey ▸ hFrom.nextKey, ?_⟩
  intro tree hTree
  rw [hNextKey]
  rcases hTrees tree hTree with hOld | rfl
  · exact hFrom.trees tree hOld
  · exact .inr hRoot

end Index

end Bracketry

------------------------------------------------------------
-- Flushing
------------------------------------------------------------

namespace Bracketry

namespace Index

variable {origin index after : Index} {snapshot : Snapshot}

/- Work that is done with trees of the origin, if with any. -/
def IsWorkOn
    (origin : Index)
    (work : Option ParseJob) :
    Prop :=
  ∀ job old, work = some job → job.old = some old →
    origin.HasTree old

theorem isWorkOn_job?
    {isNeeded : Bool}
    {tree : Option Node}
    {edits : List Edit}
    (hTree : ∀ root, tree = some root → origin.HasTree root) :
    origin.IsWorkOn (job? isNeeded tree edits) := by
  intro job root hJob hOld
  rw [job?] at hJob
  split_ifs at hJob with _ hEmpty
  · cases hJob
    cases hOld
  · cases hJob
    exact hTree root hOld

theorem ComesFrom.updateClassified
    {work : Option ParseJob}
    (hFrom : origin.ComesFrom index)
    (hWork : origin.IsWorkOn work)
    (h : index.updateClassified snapshot work = .ok after) :
    origin.ComesFrom after := by
  cases work with
  | none =>
      cases h
      exact hFrom
  | some job =>
      rcases Checked.bind_eq_ok_iff.1 h with
        ⟨⟨root, stats, next⟩, hParse, h⟩
      cases h
      rcases hFrom.parseWithKeys (fun old => hWork job old rfl)
          hParse with
        ⟨hRoot, hNext⟩
      refine hNext.withTree hRoot rfl rfl rfl ?_
      rintro tree (hTree | hTree)
      · exact .inl (.inl hTree)
      · exact .inr (Option.some.inj hTree).symm

theorem ComesFrom.updatePlain
    {work : Option ParseJob}
    (hFrom : origin.ComesFrom index)
    (hWork : origin.IsWorkOn work)
    (h : index.updatePlain snapshot work = .ok after) :
    origin.ComesFrom after := by
  cases work with
  | none =>
      cases h
      exact hFrom
  | some job =>
      rcases Checked.bind_eq_ok_iff.1 h with
        ⟨⟨root, stats, next⟩, hParse, h⟩
      cases h
      rcases hFrom.parseWithKeys (fun old => hWork job old rfl)
          hParse with
        ⟨hRoot, hNext⟩
      refine hNext.withTree hRoot rfl rfl rfl ?_
      rintro tree (hTree | hTree)
      · exact .inr (Option.some.inj hTree).symm
      · exact .inl (.inr hTree)

theorem ComesFrom.updateBoth
    {job : ParseJob}
    (hFrom : origin.ComesFrom index)
    (hWork : origin.IsWorkOn (some job))
    (h : index.updateBoth snapshot job = .ok after) :
    origin.ComesFrom after := by
  rcases Checked.bind_eq_ok_iff.1 h with
    ⟨⟨root, stats, next⟩, hParse, h⟩
  cases h
  rcases hFrom.parseWithKeys (fun old => hWork job old rfl)
      hParse with
    ⟨hRoot, hNext⟩
  refine hNext.withTree hRoot rfl rfl rfl ?_
  rintro tree (hTree | hTree)
  · exact .inr (Option.some.inj hTree).symm
  · exact .inr (Option.some.inj hTree).symm

/- An update makes trees with those that were there. -/
theorem comesFrom_update
    (h : index.update snapshot = .ok after) :
    index.ComesFrom after := by
  have hClassified :
      index.IsWorkOn
        (index.classifiedJob? snapshot.content) :=
    isWorkOn_job? fun _ => .inr
  have hPlain :
      index.IsWorkOn (index.plainJob? snapshot.content) :=
    isWorkOn_job? fun _ => .inl
  unfold update at h
  generalize index.classifiedJob? snapshot.content = a
    at h hClassified
  generalize index.plainJob? snapshot.content = b
    at h hPlain
  have hStart :
      ∀ edits plainEdits,
        index.ComesFrom
          { index with
            edits := edits, plainEdits := plainEdits } :=
    fun _ _ => .ofSame rfl rfl rfl fun _ hRoot => hRoot
  have hLast :
      ∀ {last : Index},
        index.ComesFrom last →
          index.ComesFrom
            { last with
              version := some snapshot.content.version
              content := some snapshot.content } :=
    fun hLast => ⟨hLast.table, hLast.cache, hLast.nextKey,
      hLast.trees⟩
  rcases a with _ | a <;> rcases b with _ | b
  · cases h
    exact hStart _ _
  · rcases Checked.bind_eq_ok_iff.1 h with ⟨middle, hMiddle, h⟩
    rcases Checked.bind_eq_ok_iff.1 h with ⟨last, hWork, h⟩
    cases h
    exact hLast (((hStart _ _).updateClassified hClassified
      hMiddle).updatePlain hPlain hWork)
  · rcases Checked.bind_eq_ok_iff.1 h with ⟨middle, hMiddle, h⟩
    rcases Checked.bind_eq_ok_iff.1 h with ⟨last, hWork, h⟩
    cases h
    exact hLast (((hStart _ _).updateClassified hClassified
      hMiddle).updatePlain hPlain hWork)
  · simp only [Option.isNone_some, Bool.and_self] at h
    rw [if_neg (by simp)] at h
    split at h
    · rcases Checked.bind_eq_ok_iff.1 h with ⟨last, hWork, h⟩
      cases h
      exact hLast ((hStart _ _).updateBoth hClassified hWork)
    · rcases Checked.bind_eq_ok_iff.1 h with
        ⟨middle, hMiddle, h⟩
      rcases Checked.bind_eq_ok_iff.1 h with ⟨last, hWork, h⟩
      cases h
      exact hLast (((hStart _ _).updateClassified hClassified
        hMiddle).updatePlain hPlain hWork)

theorem comesFrom_flush
    {live : Option Snapshot}
    (h : index.flush live = .ok after) :
    index.ComesFrom after := by
  cases live with
  | none =>
      cases h
      exact .ofSame rfl rfl rfl fun _ hRoot => hRoot
  | some snapshot =>
      rcases Checked.bind_eq_ok_iff.1 h with ⟨last, hLast, h⟩
      cases h
      have hFrom := comesFrom_update hLast
      exact ⟨hFrom.table, hFrom.cache, hFrom.nextKey,
        hFrom.trees⟩

/- The first tree of an index is parsed from scratch. -/
theorem comesFrom_ofSnapshot
    {table : TokenTable}
    {live : Option Snapshot}
    (h : ofSnapshot table live = .ok index) :
    (empty table).ComesFrom index := by
  have hEmpty : (empty table).ComesFrom (empty table) :=
    .ofSame rfl rfl rfl fun _ hRoot => hRoot
  cases live with
  | none =>
      cases h
      exact hEmpty
  | some snapshot =>
      rcases Checked.bind_eq_ok_iff.1 h with
        ⟨⟨root, stats, next⟩, hParse, h⟩
      cases h
      rcases hEmpty.parseWithKeys (fun old hOld => by cases hOld)
          hParse with
        ⟨hRoot, hNext⟩
      refine hNext.withTree hRoot rfl rfl rfl ?_
      rintro tree (hTree | hTree)
      · simp only at hTree
        split_ifs at hTree
        exact .inr (Option.some.inj hTree).symm
      · exact .inr (Option.some.inj hTree).symm

end Index

end Bracketry

------------------------------------------------------------
-- Steps of a Session
------------------------------------------------------------

namespace Bracketry

namespace Index

/- One index has the trees, keys and memory of another. -/
structure HoldsNoMore
    (index after : Index) :
    Prop where
  table : after.table = index.table
  cache : after.cache = index.cache
  nextKey : after.nextKey = index.nextKey
  trees : ∀ root, after.HasTree root → index.HasTree root

variable {index after : Index}

theorem HoldsNoMore.comesFrom
    (h : index.HoldsNoMore after) :
    index.ComesFrom after :=
  .ofSame h.table h.cache h.nextKey h.trees

/- Queued edits leave the trees as they are. -/
theorem holdsNoMore_queueEdits
    {edits : List Edit}
    {forPlain : Bool}
    (h : index.queueEdits edits forPlain = .ok after) :
    index.HoldsNoMore after := by
  rcases Checked.bind_eq_ok_iff.1 h with ⟨queued, _, h⟩
  simp only at h
  split at h
  · rcases Checked.bind_eq_ok_iff.1 h with ⟨others, _, h⟩
    cases h
    exact ⟨rfl, rfl, rfl, fun _ hRoot => hRoot⟩
  · cases h
    exact ⟨rfl, rfl, rfl, fun _ hRoot => hRoot⟩

theorem holdsNoMore_queueEdit
    {start stop : Position}
    {text : List Char}
    (h : index.queueEdit start stop text = .ok after) :
    index.HoldsNoMore after := by
  rcases Checked.bind_eq_ok_iff.1 h with ⟨queued, hQueued, h⟩
  cases h
  have hSame := holdsNoMore_queueEdits hQueued
  exact ⟨hSame.table, hSame.cache, hSame.nextKey, hSame.trees⟩

theorem holdsNoMore_queueLines
    {spans : List LineSpan}
    (h : index.queueLines spans = .ok after) :
    index.HoldsNoMore after := by
  unfold queueLines at h
  simp only at h
  split at h
  · cases h
    exact ⟨rfl, rfl, rfl, fun _ hRoot => hRoot⟩
  · rcases Checked.bind_eq_ok_iff.1 h with ⟨queued, hQueued, h⟩
    cases h
    have hSame := holdsNoMore_queueEdits hQueued
    exact ⟨hSame.table, hSame.cache, hSame.nextKey,
      hSame.trees⟩

/- The plain tree is dropped, and no other is made. -/
theorem holdsNoMore_completeClassification
    (index : Index) :
    index.HoldsNoMore index.completeClassification := by
  refine ⟨rfl, rfl, rfl, ?_⟩
  rintro root (hRoot | hRoot)
  · cases hRoot
  · exact .inr hRoot

end Index

namespace Session

variable {session after : Session} {step : Step}

/- All steps but a flush make no trees. -/
theorem holdsNoMore_step
    (hFlush : step ≠ .flush)
    (h : session.step step = .ok after) :
    session.index.HoldsNoMore after.index := by
  cases step with
  | edit start stop text =>
      rcases Checked.bind_eq_ok_iff.1 h with
        ⟨middle, hMiddle, h⟩
      rcases Checked.bind_eq_ok_iff.1 h with ⟨index, hIndex, h⟩
      rcases Checked.bind_eq_ok_iff.1 hMiddle with
        ⟨document, _, hMiddle⟩
      cases h
      cases hMiddle
      exact Index.holdsNoMore_queueEdit hIndex
  | classify spans changed =>
      rcases Checked.bind_eq_ok_iff.1 h with ⟨index, hIndex, h⟩
      cases h
      exact Index.holdsNoMore_queueLines hIndex
  | declassify =>
      cases h
      exact ⟨rfl, rfl, rfl, fun _ hRoot => hRoot⟩
  | complete =>
      cases h
      exact session.index.holdsNoMore_completeClassification
  | flush => exact absurd rfl hFlush

/- The trees behind a step are old, or they descend. -/
theorem comesFrom_step
    (h : session.step step = .ok after) :
    session.index.ComesFrom after.index := by
  by_cases hFlush : step = .flush
  · subst hFlush
    rcases Checked.bind_eq_ok_iff.1 h with ⟨index, hIndex, h⟩
    cases h
    exact Index.comesFrom_flush hIndex
  · exact (holdsNoMore_step hFlush h).comesFrom

end Session

end Bracketry
