import Bracketry.Proofs.Sightings
import Bracketry.Proofs.Visits

/-
  The brackets in a window are brackets of the tree.

  The plain list of a tree has all its sightings, with the
  counted pairs around each, but for those that lie too deep
  and, on request, those of pairs that are not coloured.
  What a walk hands to its visitor is part of this list: all
  that overlaps the window, and nothing that does not touch
  it.

  The walk keeps the number of pairs with each literal in a
  table, which it enters and restores.  It restores nothing
  once it has reached the end of the window, but then it
  reads the table no more.

  Key definitions include:
    * `Sighting.record`, `Sighting.isListed`
    * `Node.plainBrackets`
    * `Range.Covers`, `LevelTable.Tracks`
    * `BracketQuery.Reports`

  Main declarations:
    * `BracketQuery.Reports.andThen`
    * `Node.LiesAt.isReported`
    * `Node.bracketsIn_covers`
-/

------------------------------------------------------------
-- The Plain List
------------------------------------------------------------

namespace Bracketry

namespace Enclosure

/- The pair counts, as all do unless only coloured ones. -/
def counts
    (onlyColorized : Bool)
    (pair : Enclosure) :
    Bool :=
  Node.isColored onlyColorized pair.opening pair.closing

/- The pair counts among those with a literal. -/
def countsAs
    (onlyColorized : Bool)
    (literal : List Char)
    (pair : Enclosure) :
    Bool :=
  pair.counts onlyColorized && pair.literal == literal

end Enclosure

namespace Sighting

variable (onlyColorized : Bool) (sighting : Sighting)

/-
  What is told of a sighting: the number of counted pairs
  around the pair of a bracket, and of those with the same
  literal.  For a bracket without a pair it is one less than
  the number of counted pairs around, and none.
-/
def record : BracketInfo :=
  let level :=
    sighting.around.countP (·.counts onlyColorized)
  match sighting.own with
  | some (kind, pair) =>
      { range := sighting.range
        level := level
        equalLevel :=
          sighting.around.countP
            (·.countsAs onlyColorized pair.literal)
        isInvalid := false
        kind := some kind }
  | none =>
      { range := sighting.range
        level := (level : Int) - 1
        equalLevel := 0
        isInvalid := true
        kind := none }

@[simp] theorem range_record :
    (sighting.record onlyColorized).range =
      sighting.range := by
  unfold record
  split <;> rfl

/-
  The pair of a bracket counts, and with it there are not
  too many pairs around.
-/
def isListed : Bool :=
  match sighting.own with
  | some (_, pair) =>
      pair.counts onlyColorized &&
        decide (sighting.around.length + 1 ≤ maxQueryDepth)
  | none => decide (sighting.around.length ≤ maxQueryDepth)

end Sighting

namespace Node

/- What is told of those sightings that are listed. -/
def listed
    (onlyColorized : Bool)
    (sightings : List Sighting) :
    List BracketInfo :=
  (sightings.filter (·.isListed onlyColorized)).map
    (·.record onlyColorized)

/- All brackets of a tree that a query can tell of. -/
def plainBrackets
    (onlyColorized : Bool)
    (root : Node) :
    List BracketInfo :=
  listed onlyColorized (root.sightings 0 [])

variable {onlyColorized : Bool}

@[simp] theorem listed_append
    (a b : List Sighting) :
    listed onlyColorized (a ++ b) =
      listed onlyColorized a ++ listed onlyColorized b := by
  simp [listed]

theorem listed_cons
    (sighting : Sighting)
    (rest : List Sighting) :
    listed onlyColorized (sighting :: rest) =
      listed onlyColorized [sighting] ++
        listed onlyColorized rest :=
  listed_append [sighting] rest

/- What is listed is the record of a sighting. -/
theorem exists_of_mem_listed
    {sightings : List Sighting}
    {info : BracketInfo}
    (h : info ∈ listed onlyColorized sightings) :
    ∃ sighting ∈ sightings,
      sighting.isListed onlyColorized = true ∧
        info = sighting.record onlyColorized := by
  rcases List.mem_map.1 h with ⟨sighting, hMem, rfl⟩
  rcases List.mem_filter.1 hMem with ⟨hMem, hListed⟩
  exact ⟨sighting, hMem, hListed, rfl⟩

/- Nothing is listed that lies below too many pairs. -/
theorem listed_eq_nil
    {around : List Enclosure}
    {sightings : List Sighting}
    (hDepth : maxQueryDepth < around.length)
    (h : ∀ sighting ∈ sightings, around <:+ sighting.around) :
    listed onlyColorized sightings = [] := by
  rw [List.eq_nil_iff_forall_not_mem]
  intro info hInfo
  rcases exists_of_mem_listed hInfo with
    ⟨sighting, hMem, hListed, _⟩
  have hLength := (h sighting hMem).length_le
  unfold Sighting.isListed at hListed
  split at hListed
  · simp only [Bool.and_eq_true, decide_eq_true_eq] at hListed
    omega
  · rw [decide_eq_true_eq] at hListed
    omega

/- Records are listed one behind the other. -/
theorem LiesAt.pairwise_listed
    {start : Position}
    {node : Node}
    (h : LiesAt start node)
    (around : List Enclosure) :
    (listed onlyColorized
      (node.sightings start around)).Pairwise fun a b =>
        a.range.stop ≤ b.range.start := by
  refine List.pairwise_map.2 ?_
  simp only [Sighting.range_record]
  exact (h.pairwise around).filter _

/- No record is listed twice. -/
theorem LiesAt.nodup_listed
    {start : Position}
    {node : Node}
    (h : LiesAt start node)
    (around : List Enclosure) :
    (listed onlyColorized
      (node.sightings start around)).Nodup := by
  refine (h.pairwise_listed around).imp_of_mem ?_
  rintro a _ hA _ hOrder rfl
  rcases exists_of_mem_listed hA with ⟨sighting, hMem, _, rfl⟩
  rw [Sighting.range_record] at hOrder
  exact absurd (h.isWithin around sighting hMem).lt
    (not_lt.2 hOrder)

/- The plain list of a built tree has nothing twice. -/
theorem IsBuilt.nodup_plainBrackets
    {root : Node}
    (h : root.IsBuilt) :
    (root.plainBrackets onlyColorized).Nodup := by
  rcases h.liesAt with hRoot | ⟨key, rfl⟩
  · exact hRoot.nodup_listed []
  · exact .nil

end Node

end Bracketry

------------------------------------------------------------
-- What a Window Reports of a List
------------------------------------------------------------

namespace Bracketry

namespace Range

/- The range has places in common with the window. -/
def overlaps
    (window range : Range) :
    Prop :=
  range.start < window.stop ∧ window.start < range.stop

/-
  Of all brackets, a window takes some in order: those that
  overlap it, and none that does not touch it.
-/
structure Covers
    (window : Range)
    (all seen : List BracketInfo) :
    Prop where
  sublist : seen.Sublist all
  complete :
    ∀ info ∈ all, window.overlaps info.range → info ∈ seen
  touching :
    ∀ info ∈ seen,
      window.touches info.range.start info.range.stop = true

variable {window range : Range} {a b all seen : List BracketInfo}

theorem overlaps.touches
    (h : window.overlaps range) :
    window.touches range.start range.stop = true :=
  touches_iff.2 ⟨h.1.le, h.2.le⟩

theorem Covers.none
    (h : ∀ info ∈ all, ¬ window.overlaps info.range) :
    window.Covers all [] where
  sublist := List.nil_sublist all
  complete := fun info hInfo hOverlaps =>
    absurd hOverlaps (h info hInfo)
  touching := List.forall_mem_nil _

theorem covers_nil :
    window.Covers [] [] :=
  .none (List.forall_mem_nil _)

theorem Covers.append
    {seenB : List BracketInfo}
    (hA : window.Covers a seen)
    (hB : window.Covers b seenB) :
    window.Covers (a ++ b) (seen ++ seenB) where
  sublist := hA.sublist.append hB.sublist
  complete := by
    intro info hInfo hOverlaps
    rw [List.mem_append] at hInfo ⊢
    exact hInfo.imp
      (fun hInfo => hA.complete info hInfo hOverlaps)
      (fun hInfo => hB.complete info hInfo hOverlaps)
  touching := List.forall_mem_append.2
    ⟨hA.touching, hB.touching⟩

/- Some part of a list is always what a window covers. -/
theorem exists_covers
    (window : Range)
    (all : List BracketInfo) :
    ∃ seen, window.Covers all seen := by
  induction all with
  | nil => exact ⟨[], covers_nil⟩
  | cons info rest ih =>
      rcases ih with ⟨seen, hSeen⟩
      by_cases hInfo : window.overlaps info.range
      · have hOne : window.Covers [info] [info] :=
          ⟨.refl _, fun _ h _ => h, by simpa using hInfo.touches⟩
        exact ⟨_, hOne.append hSeen⟩
      · have hOne : window.Covers [info] [] :=
          .none (by simpa using hInfo)
        exact ⟨_, hOne.append hSeen⟩

end Range

end Bracketry

------------------------------------------------------------
-- Tables of Levels
------------------------------------------------------------

namespace Bracketry

namespace LevelTable

/- One number is entered, and all others stay. -/
theorem of_set
    (table : LevelTable)
    (literal other : List Char)
    (count : Nat) :
    (table.set literal count).of other =
      if literal = other then count else table.of other := by
  unfold of set
  split_ifs with hSame
  · subst hSame
    simp
  · rw [List.lookup_cons, beq_false_of_ne (Ne.symm hSame)]
    simp only
    congr 1
    induction table.entries with
    | nil => rfl
    | cons entry rest ih =>
        rcases entry with ⟨key, value⟩
        by_cases hKey : key = literal
        · have hOther : (other == key) = false := by
            rw [hKey]
            exact beq_false_of_ne (Ne.symm hSame)
          rw [List.filter_cons_of_neg (by simp [hKey]), ih,
            List.lookup_cons, hOther]
        · rw [List.filter_cons_of_pos (by simp [hKey]),
            List.lookup_cons, List.lookup_cons, ih]

/- The table has the counted pairs by their literals. -/
def Tracks
    (onlyColorized : Bool)
    (around : List Enclosure)
    (table : LevelTable) :
    Prop :=
  ∀ literal,
    table.of literal =
      around.countP (·.countsAs onlyColorized literal)

variable {onlyColorized : Bool} {pair : Enclosure}
variable {around : List Enclosure} {table : LevelTable}

theorem tracks_empty :
    empty.Tracks onlyColorized [] :=
  fun _ => rfl

/- Inside a pair, its literal counts one more if it does. -/
theorem Tracks.enter
    {σ : Type}
    {walk : BracketWalk σ}
    (h : walk.levels.Tracks onlyColorized around) :
    (walk.enter pair.literal
      (pair.counts onlyColorized)).levels.Tracks onlyColorized
        (pair :: around) := by
  intro literal
  rw [List.countP_cons, ← h literal, Enclosure.countsAs]
  unfold BracketWalk.enter
  by_cases hCounts : pair.counts onlyColorized = true
  · rw [if_pos hCounts, BracketWalk.setLevel, of_set, hCounts,
      Bool.true_and]
    by_cases hLiteral : pair.literal = literal
    · simp [hLiteral]
    · simp [hLiteral]
  · simp [hCounts]

/- Behind the pair, it counts as often as before. -/
theorem Tracks.restore
    (h : table.Tracks onlyColorized (pair :: around)) :
    (table.set pair.literal
      (around.countP
        (·.countsAs onlyColorized pair.literal))).Tracks
          onlyColorized around := by
  intro literal
  rw [of_set]
  split_ifs with hSame
  · rw [hSame]
  · rw [h, List.countP_cons, Enclosure.countsAs]
    simp [hSame]

end LevelTable

end Bracketry

------------------------------------------------------------
-- What a Walk Reports
------------------------------------------------------------

namespace Bracketry

open Checked

@[simp] theorem BracketWalk.state_enter
    {σ : Type}
    (walk : BracketWalk σ)
    (literal : List Char)
    (counts : Bool) :
    (walk.enter literal counts).state = walk.state := by
  unfold enter
  split_ifs <;> rfl

namespace BracketQuery

variable {σ : Type} {query : BracketQuery}
variable {visit : Visitor BracketInfo σ} {state : σ}
variable {walk : BracketWalk σ}
variable {around outer : List Enclosure} {settled later : Prop}
variable {all a b : List BracketInfo}
variable {flow : Flow (BracketWalk σ)}

/-
  The visitor was handed what the window covers of a list.
  If the walk goes on and has not reached the end of the
  window, its table has the pairs around.
-/
structure Reports
    (query : BracketQuery)
    (visit : Visitor BracketInfo σ)
    (state : σ)
    (around : List Enclosure)
    (settled : Prop)
    (all : List BracketInfo)
    (flow : Flow (BracketWalk σ)) :
    Prop where
  seen :
    ∃ seen,
      query.window.Covers all seen ∧
        flow.map BracketWalk.state = visit.feed state seen
  tracks :
    flow.goesOn = true → settled →
      flow.state.levels.Tracks query.onlyColorized around

/- A walk that goes on as it was has reported nothing. -/
theorem reports_go
    (hNone :
      ∀ info ∈ all, ¬ query.window.overlaps info.range)
    (hTracks :
      settled → walk.levels.Tracks query.onlyColorized around) :
    Reports query visit walk.state around settled all
      (Flow.go walk) :=
  ⟨⟨[], .none hNone, rfl⟩, fun _ => hTracks⟩

/- Where there is nothing to report, the walk goes on. -/
theorem reports_nil
    (hTracks :
      settled → walk.levels.Tracks query.onlyColorized around) :
    Reports query visit walk.state around settled []
      (Flow.go walk) :=
  reports_go (List.forall_mem_nil _) hTracks

/-
  At the end of the window the walk may end.  What lies
  behind is not missed, and the table is not restored.
-/
theorem Reports.behind
    (h : Reports query visit state around settled a flow)
    (hNone : ∀ info ∈ b, ¬ query.window.overlaps info.range)
    (hLater : ¬ later) :
    Reports query visit state outer later (a ++ b) flow := by
  rcases h.seen with ⟨seen, hSeen, hFed⟩
  refine ⟨⟨seen ++ [], hSeen.append (.none hNone), ?_⟩,
    fun _ hSettled => absurd hSettled hLater⟩
  rw [List.append_nil, hFed]

/- What lies in front of the window is not missed. -/
theorem Reports.before
    (h : Reports query visit state around settled b flow)
    (hNone :
      ∀ info ∈ a, ¬ query.window.overlaps info.range) :
    Reports query visit state around settled (a ++ b) flow := by
  rcases h with ⟨⟨seen, hSeen, hFed⟩, hTracks⟩
  exact ⟨⟨seen, (Range.Covers.none hNone).append hSeen, hFed⟩,
    hTracks⟩

/- One walk behind another reports both lists. -/
theorem Reports.andThen
    {next : BracketWalk σ → Checked (Flow (BracketWalk σ))}
    (h : Reports query visit state around settled a flow)
    (hNext :
      ∀ moved : BracketWalk σ,
        (settled →
          moved.levels.Tracks query.onlyColorized around) →
        Ends (fun _ => False)
          (Reports query visit moved.state outer later b)
          (next moved)) :
    Ends (fun _ => False)
      (Reports query visit state outer later (a ++ b))
      (flow.andThen next) := by
  rcases h with ⟨⟨seen, hSeen, hFed⟩, hTracks⟩
  unfold Flow.andThen
  have hGoesOn :
      (visit.feed state seen).goesOn = flow.goesOn := by
    rw [← hFed, Flow.map]
  split_ifs with hGoes
  · refine (hNext flow.state (hTracks hGoes)).mono ?_
    rintro last ⟨⟨others, hOthers, hLast⟩, hAfter⟩
    refine ⟨⟨seen ++ others, hSeen.append hOthers, ?_⟩,
      hAfter⟩
    rw [Visitor.feed_append, hGoesOn, if_pos hGoes, ← hFed,
      hLast, Flow.map]
  · rcases query.window.exists_covers b with ⟨others, hOthers⟩
    refine ⟨⟨seen ++ others, hSeen.append hOthers, ?_⟩,
      fun hGoesOn => absurd hGoesOn hGoes⟩
    rw [Visitor.feed_append, hGoesOn, if_neg hGoes, hFed]

end BracketQuery

end Bracketry

------------------------------------------------------------
-- Reports of Single Brackets
------------------------------------------------------------

namespace Bracketry

open Checked BracketQuery

namespace BracketPlace

/- The place has certain pairs around it. -/
structure IsIn
    (onlyColorized : Bool)
    (around : List Enclosure)
    (place : BracketPlace) :
    Prop where
  level :
    place.level = around.countP (·.counts onlyColorized)
  depth : place.depth = around.length

variable {onlyColorized : Bool} {pair : Enclosure}
variable {around : List Enclosure} {place : BracketPlace}

theorem IsIn.inside
    (count : Nat)
    (h : place.IsIn onlyColorized around) :
    (place.inside count (pair.counts onlyColorized)).IsIn
      onlyColorized (pair :: around) := by
  unfold BracketPlace.inside
  split_ifs with hCounts
  · exact ⟨by rw [List.countP_cons, if_pos hCounts, h.level],
      by rw [List.length_cons, h.depth]⟩
  · exact ⟨by rw [List.countP_cons, if_neg hCounts, h.level,
      Nat.add_zero], by rw [List.length_cons, h.depth]⟩

end BracketPlace

namespace Node

variable {σ : Type} {query : BracketQuery}
variable {visit : Visitor BracketInfo σ} {walk : BracketWalk σ}
variable {around : List Enclosure} {place : BracketPlace}
variable {pair : Enclosure} {start stop : Position}

/- What is done with a sighting in the window. -/
def report
    (query : BracketQuery)
    (visit : Visitor BracketInfo σ)
    (walk : BracketWalk σ)
    (sighting : Sighting) :
    Checked (Flow (BracketWalk σ)) :=
  if sighting.isListed query.onlyColorized then
    .ok (visitBracket visit walk
      (sighting.record query.onlyColorized))
  else .ok (Flow.go walk)

theorem reports_report
    {sighting : Sighting}
    {settled : Prop}
    (hTracks :
      settled → walk.levels.Tracks query.onlyColorized around)
    (hTouches :
      query.window.touches sighting.range.start
        sighting.range.stop = true) :
    Ends (fun _ => False)
      (Reports query visit walk.state around settled
        (listed query.onlyColorized [sighting]))
      (report query visit walk sighting) := by
  unfold report
  by_cases hListed :
      sighting.isListed query.onlyColorized = true
  · have hAll :
        listed query.onlyColorized [sighting] =
          [sighting.record query.onlyColorized] := by
      simp [listed, hListed]
    rw [if_pos hListed, hAll]
    refine ⟨⟨[sighting.record query.onlyColorized], ?_, ?_⟩,
      fun _ => hTracks⟩
    · exact ⟨.refl _, fun _ h _ => h, by simpa using hTouches⟩
    · rw [Visitor.feed_singleton]
      rfl
  · have hAll :
        listed query.onlyColorized [sighting] = [] := by
      simp [listed, hListed]
    rw [if_neg hListed, hAll]
    exact reports_nil hTracks

/- The bracket of a pair that counts is a sighting. -/
theorem walkBrackets_bracket
    (leaf : Bracket)
    (walk : BracketWalk σ)
    (hPlace : place.IsIn query.onlyColorized around)
    (hCounts : pair.counts query.onlyColorized = true) :
    walkBrackets query visit start stop
        (place.inside
          (around.countP
            (·.countsAs query.onlyColorized pair.literal))
          true)
        walk (.bracket leaf) =
      report query visit walk
        ⟨⟨start, stop⟩, some (leaf.kind, pair), around⟩ := by
  rcases hPlace with ⟨hLevel, hDepth⟩
  have hInside :
      ∀ count,
        place.inside count true =
          ⟨place.level + 1, count + 1, place.depth + 1⟩ :=
    fun _ => rfl
  rw [hInside, walkBrackets, report, Sighting.isListed,
    Sighting.record]
  simp only [hCounts, Bool.true_and, decide_eq_true_eq,
    hDepth, hLevel]
  by_cases hDeep : around.length + 1 ≤ maxQueryDepth
  · rw [if_pos hDeep, if_neg (Nat.not_lt.2 hDeep)]
    simp
  · rw [if_neg hDeep, if_pos (Nat.lt_of_not_le hDeep)]

/- A closing bracket that closes nothing is one as well. -/
theorem walkBrackets_invalid
    (key : Option Nat)
    (ids : IdSet)
    (length : Length)
    (hPlace : place.IsIn query.onlyColorized around) :
    walkBrackets query visit start stop place walk
        (.invalid key ids length) =
      report query visit walk ⟨⟨start, stop⟩, none, around⟩ := by
  rcases hPlace with ⟨hLevel, hDepth⟩
  rw [walkBrackets, report, Sighting.isListed,
    Sighting.record]
  simp only [decide_eq_true_eq, hDepth, hLevel]
  by_cases hDeep : around.length ≤ maxQueryDepth
  · rw [if_pos hDeep, if_neg (Nat.not_lt.2 hDeep)]
  · rw [if_neg hDeep, if_pos (Nat.lt_of_not_le hDeep)]

/-
  What lies between two places is not missed where nothing
  there is in the window.
-/
theorem not_overlaps_of_mem_listed
    {sightings : List Sighting}
    (hWithin :
      ∀ sighting ∈ sightings,
        sighting.IsWithin start stop around)
    (hOutside :
      query.window.stop ≤ start ∨
        ¬ query.window.touches start stop = true) :
    ∀ info ∈ listed query.onlyColorized sightings,
      ¬ query.window.overlaps info.range := by
  rintro info hInfo ⟨hStart, hStop⟩
  rcases exists_of_mem_listed hInfo with
    ⟨sighting, hMem, _, rfl⟩
  rw [Sighting.range_record] at hStart hStop
  have hIn := hWithin sighting hMem
  have hFirst := hIn.start_le.trans_lt hStart
  have hLast := hStop.trans_le hIn.le_stop
  rcases hOutside with hBehind | hApart
  · exact absurd hFirst (not_lt.2 hBehind)
  · exact hApart (Range.touches_iff.2 ⟨hFirst.le, hLast.le⟩)

/- A bracket is reported with the pairs around its pair. -/
theorem reports_bracket
    {leaf : Bracket}
    (start : Position)
    (hLeaf : leaf.length ≠ 0)
    (hPlace : place.IsIn query.onlyColorized around)
    (hTracks :
      walk.levels.Tracks query.onlyColorized
        (pair :: around)) :
    Ends (fun _ => False)
      (Reports query visit walk.state (pair :: around) True
        (listed query.onlyColorized
          [⟨⟨start, start + leaf.length⟩,
            some (leaf.kind, pair), around⟩]))
      (query.into start (start + leaf.length)
        (pair.counts query.onlyColorized) (.bracket leaf) walk
        (walkBrackets query visit start (start + leaf.length)
          (place.inside
            (around.countP
              (·.countsAs query.onlyColorized pair.literal))
            (pair.counts query.onlyColorized))
          walk (.bracket leaf))) := by
  unfold BracketQuery.into BracketQuery.visits
  by_cases hCounts : pair.counts query.onlyColorized = true
  · rw [hCounts, Bool.true_or, Bool.and_true,
      walkBrackets_bracket leaf walk hPlace hCounts]
    split_ifs with hTouches
    · exact reports_report (fun _ => hTracks) hTouches
    · have hWithin :
          ∀ sighting ∈
              [⟨⟨start, start + leaf.length⟩,
                some (leaf.kind, pair), around⟩],
            Sighting.IsWithin start (start + leaf.length)
              around sighting := by
        intro sighting hMem
        rcases List.mem_singleton.1 hMem with rfl
        exact ⟨le_refl _, Length.lt_add_right hLeaf,
          le_refl _, List.suffix_refl around⟩
      exact reports_go (not_overlaps_of_mem_listed hWithin
        (.inr hTouches)) fun _ => hTracks
  · rw [if_neg (by simp [hCounts, bracket?])]
    refine reports_go ?_ fun _ => hTracks
    simp [listed, Sighting.isListed, hCounts]

end Node

end Bracketry

------------------------------------------------------------
-- The Parts of a Pair
------------------------------------------------------------

namespace Bracketry

open Checked BracketQuery

namespace Node

variable {σ : Type} {query : BracketQuery}
variable {visit : Visitor BracketInfo σ} {walk : BracketWalk σ}
variable {around : List Enclosure} {place : BracketPlace}
variable {pair : Enclosure} {start : Position}

theorem LiesAt.bracket?_eq_none
    {node : Node}
    (h : LiesAt start node) :
    node.bracket? = none := by
  cases h <;> rfl

/-
  A walk of a node in the window reports its brackets, from
  a table with the pairs around it.
-/
def IsReported
    (query : BracketQuery)
    (visit : Visitor BracketInfo σ)
    (start : Position)
    (node : Node) :
    Prop :=
  ∀ around place walk,
    BracketPlace.IsIn query.onlyColorized around place →
      walk.levels.Tracks query.onlyColorized around →
        query.window.touches start (start + node.length) =
            true →
          Ends (fun _ => False)
            (Reports query visit walk.state around
              (start + node.length < query.window.stop)
              (listed query.onlyColorized
                (node.sightings start around)))
            (walkBrackets query visit start
              (start + node.length) place walk node)

/-
  What is between the brackets is reported.  If the walk is
  to end there, then at the end of the window.
-/
theorem reports_inside
    {child : Option Node}
    (counts : Bool)
    (hPlace : place.IsIn query.onlyColorized around)
    (hTracks :
      walk.levels.Tracks query.onlyColorized around)
    (hChild :
      ∀ part, child = some part →
        LiesAt start part ∧ part.IsReported query visit start) :
    Ends (fun _ => False)
      (fun result =>
        result.2.1 = start + partLength child ∧
          (result.2.2 = true →
            query.window.stop ≤ start + partLength child) ∧
          Reports query visit walk.state around (result.2.2 = false)
            (listed query.onlyColorized
              (partSightings start around child))
            result.1)
      (walkPart query visit start place counts walk child) := by
  cases child with
  | none =>
      exact ⟨(add_zero start).symm, by rintro ⟨⟩,
        reports_nil fun _ => hTracks⟩
  | some part =>
      rcases hChild part rfl with ⟨hPart, hWalk⟩
      rw [walkPart]
      refine (Length.ends_plus_of_fits hPart.stop).bind ?_
      rintro _ rfl
      unfold BracketQuery.into BracketQuery.visits
        BracketQuery.endsWithin
      rw [hPart.bracket?_eq_none, Option.isNone_none,
        Bool.or_true, Bool.and_true, Bool.and_true]
      split_ifs with hTouches
      · refine (hWalk around place walk hPlace hTracks
          hTouches).bind ?_
        rintro flow ⟨hSeen, hAfter⟩
        refine ⟨rfl, by simp [partLength], hSeen, ?_⟩
        intro hGoes hLast
        refine hAfter hGoes ?_
        simpa [hTouches] using hLast
      · refine ⟨rfl, by simp [hTouches], ?_⟩
        exact reports_go (not_overlaps_of_mem_listed
          (hPart.isWithin around) (.inr hTouches))
            fun _ => hTracks

/-
  The closing bracket is reported as well, and the pair is
  left with the number that it was entered with.
-/
theorem reports_last
    {later : Prop}
    (hCloser :
      ∀ leaf, pair.closing = some leaf → leaf.length ≠ 0)
    (hStop :
      (start + partLength (pair.closing.map .bracket)).Fits)
    (hPlace : place.IsIn query.onlyColorized around)
    (hTracks :
      walk.levels.Tracks query.onlyColorized
        (pair :: around)) :
    Ends (fun _ => False)
      (Reports query visit walk.state around later
        (listed query.onlyColorized (pair.last start around)))
      (do
        let count :=
          around.countP
            (·.countsAs query.onlyColorized pair.literal)
        let counts := pair.counts query.onlyColorized
        let (flow, _) ←
          walkPart query visit start (place.inside count counts)
            counts walk (pair.closing.map .bracket)
        flow.andThen fun walk =>
          .ok (Flow.go
            (walk.setLevel pair.literal count))) := by
  have hLast :
      Ends (fun _ => False)
        (fun result =>
          Reports query visit walk.state (pair :: around) True
            (listed query.onlyColorized
              (pair.last start around))
            result.1)
        (walkPart query visit start
          (place.inside
            (around.countP
              (·.countsAs query.onlyColorized pair.literal))
            (pair.counts query.onlyColorized))
          (pair.counts query.onlyColorized) walk
          (pair.closing.map .bracket)) := by
    unfold Enclosure.last
    cases hClosing : pair.closing with
    | none =>
        refine reports_go ?_ fun _ => hTracks
        simp [listed]
    | some leaf =>
        rw [hClosing] at hStop
        rw [Option.map_some, walkPart]
        refine (Length.ends_plus_of_fits hStop).bind ?_
        rintro _ rfl
        exact (reports_bracket start (hCloser leaf hClosing)
          hPlace hTracks).bind fun flow hFlow => hFlow
  refine hLast.bind ?_
  rintro ⟨flow, _⟩ hFlow
  rw [← List.append_nil (listed _ _)]
  refine hFlow.andThen fun moved hMoved => ?_
  have hRestored := (hMoved trivial).restore
  exact ⟨⟨[], Range.covers_nil, rfl⟩, fun _ _ => hRestored⟩

end Node

end Bracketry

------------------------------------------------------------
-- Walks
------------------------------------------------------------

namespace Bracketry

open Checked BracketQuery

namespace Node

variable {σ : Type} {query : BracketQuery}
variable {visit : Visitor BracketInfo σ} {walk : BracketWalk σ}
variable {around : List Enclosure} {place : BracketPlace}
variable {start : Position}

/- Below too many pairs there is nothing to report. -/
theorem reports_deep
    {node : Node}
    {settled : Prop}
    (hNode : LiesAt start node)
    (hDeep : maxQueryDepth < around.length)
    (hTracks :
      walk.levels.Tracks query.onlyColorized around) :
    Ends (fun _ => False)
      (Reports query visit walk.state around settled
        (listed query.onlyColorized
          (node.sightings start around)))
      (.ok (Flow.go walk)) := by
  rw [listed_eq_nil hDeep fun sighting hMem =>
    (hNode.isWithin around sighting hMem).around]
  exact reports_nil fun _ => hTracks

/- The walk through a pair whose opening bracket fits. -/
theorem walkBrackets_pair
    {stop : Position}
    {key : Option Nat}
    {length : Length}
    {missing : IdSet}
    {child : Option Node}
    (pair : Enclosure)
    (hDepth : ¬ maxQueryDepth < place.depth)
    (hMiddle : (start + pair.opening.length).Fits) :
    walkBrackets query visit start stop place walk
        (.pair key length missing (.bracket pair.opening) child
          (pair.closing.map .bracket)) =
      (do
        let counts := pair.counts query.onlyColorized
        let count := walk.levels.of pair.literal
        let inner := place.inside count counts
        let middle := start + pair.opening.length
        let flow ←
          query.into start middle counts (.bracket pair.opening)
            (walk.enter pair.literal counts)
            (walkBrackets query visit start middle inner
              (walk.enter pair.literal counts)
              (.bracket pair.opening))
        flow.andThen fun walk => do
          let (flow, next, isLast) ←
            walkPart query visit middle inner counts walk child
          if isLast then return flow
          else
            flow.andThen fun walk => do
              let (flow, _) ←
                walkPart query visit next inner counts walk
                  (pair.closing.map .bracket)
              flow.andThen fun walk =>
                .ok (Flow.go
                  (walk.setLevel pair.literal count))) := by
  rw [walkBrackets, if_neg hDepth, closingOf?_map, Node.length,
    Length.plus_eq_ok hMiddle]
  rfl

/- A pair has its brackets and what is inside reported. -/
theorem isReported_pair
    {key : Option Nat}
    {length : Length}
    {missing : IdSet}
    {child : Option Node}
    (pair : Enclosure)
    (hPair :
      LiesAt start
        (.pair key length missing (.bracket pair.opening) child
          (pair.closing.map .bracket)))
    (hOpener : pair.opening.length ≠ 0)
    (hMiddle : (start + pair.opening.length).Fits)
    (hCloser :
      ∀ leaf, pair.closing = some leaf → leaf.length ≠ 0)
    (hLength :
      length =
        pair.opening.length +
          (partLength child +
            partLength (pair.closing.map .bracket)))
    (hChild :
      ∀ part, child = some part →
        LiesAt (start + pair.opening.length) part ∧
          part.IsReported query visit
            (start + pair.opening.length)) :
    IsReported query visit start
      (.pair key length missing (.bracket pair.opening) child
        (pair.closing.map .bracket)) := by
  intro around place walk hPlace hTracks hTouches
  by_cases hDeep : maxQueryDepth < place.depth
  · rw [walkBrackets, if_pos hDeep]
    rw [hPlace.depth] at hDeep
    exact reports_deep hPair hDeep hTracks
  have hEnd := stop_of_pair start hLength
  have hStop := hPair.stop
  rw [Node.length, hEnd] at hStop
  rw [walkBrackets_pair pair hDeep hMiddle, sightings_pair,
    listed_cons, listed_append, Node.length, hEnd,
    hTracks pair.literal]
  dsimp only
  refine (reports_bracket start hOpener hPlace
    hTracks.enter).bind fun flow hFlow => ?_
  rw [BracketWalk.state_enter] at hFlow
  refine hFlow.andThen fun moved hMoved => ?_
  refine (reports_inside _ (hPlace.inside _) (hMoved trivial)
    hChild).bind ?_
  rintro ⟨flow, next, isLast⟩ ⟨rfl, hNext, hInside⟩
  dsimp only
  split_ifs with hLast
  · have hNone :=
      not_overlaps_of_mem_listed
        (pair.isWithin_last _ around hCloser)
        (.inl (hNext hLast))
    have hBehind :=
      Length.le_add_right
        (start + pair.opening.length + partLength child)
        (partLength (pair.closing.map .bracket))
    exact hInside.behind hNone
      (not_lt.2 ((hNext hLast).trans hBehind))
  · refine hInside.andThen fun moved hMoved => ?_
    exact reports_last hCloser hStop hPlace
      (hMoved (by simpa using hLast))

/- Items are reported up to the end of the window. -/
theorem reports_items
    {items : List Node}
    (hItems :
      ∀ row ∈ placed start items,
        LiesAt row.1 row.2 ∧
          row.2.IsReported query visit row.1)
    (hPlace : place.IsIn query.onlyColorized around)
    (hTracks :
      walk.levels.Tracks query.onlyColorized around) :
    Ends (fun _ => False)
      (Reports query visit walk.state around
        (start + (items.map Node.length).sum <
          query.window.stop)
        (listed query.onlyColorized
          (sightingsOfAll start around items)))
      (walkItems query visit start place walk items) := by
  induction items generalizing start walk with
  | nil => exact reports_nil fun _ => hTracks
  | cons item rest ih =>
      rw [placed, List.forall_mem_cons] at hItems
      rcases hItems with ⟨⟨hItem, hWalk⟩, hRest⟩
      have hTotal :
          start + ((item :: rest).map Node.length).sum =
            start + item.length +
              (rest.map Node.length).sum := by
        rw [List.map_cons, List.sum_cons, add_assoc]
      rw [walkItems, sightingsOfAll, listed_append, hTotal]
      refine (Length.ends_plus_of_fits hItem.stop).bind ?_
      rintro _ rfl
      split_ifs with hTouches hLast
      · have hNone :=
          not_overlaps_of_mem_listed
            (isWithin_ofAll fun row hRow =>
              (hRest row hRow).1.isWithin around)
            (.inl hLast)
        have hBehind :=
          Length.le_add_right (start + item.length)
            (rest.map Node.length).sum
        exact (hWalk around place walk hPlace hTracks
          hTouches).mono fun flow hFlow =>
            hFlow.behind hNone
              (not_lt.2 (hLast.trans hBehind))
      · have hInner :
            BracketPlace.IsIn query.onlyColorized around
              { place with equal := 0 } :=
          ⟨hPlace.level, hPlace.depth⟩
        refine (hWalk around _ walk hInner hTracks
          hTouches).bind fun flow hFlow => ?_
        refine hFlow.andThen fun moved hMoved => ?_
        exact ih hRest (hMoved (lt_of_not_ge hLast))
      · have hNone :=
          not_overlaps_of_mem_listed
            (hItem.isWithin around) (.inr hTouches)
        refine (ih hRest hTracks).mono fun flow hFlow => ?_
        exact hFlow.before hNone

/- The walk of a tree reports its brackets. -/
theorem LiesAt.isReported
    {node : Node}
    (h : LiesAt start node) :
    node.IsReported query visit start := by
  induction h with
  | text key hLength hStop =>
      intro around place walk hPlace hTracks hTouches
      rw [walkBrackets]
      exact reports_nil fun _ => hTracks
  | stray key ids hLength hStop =>
      intro around place walk hPlace hTracks hTouches
      rw [walkBrackets_invalid key ids _ hPlace]
      exact reports_report (fun _ => hTracks) hTouches
  | @pair start length opener child closer key missing
      hOpener hMiddle hChild hCloser hLength hStop ih =>
      have hPair :=
        LiesAt.pair key missing hOpener hMiddle hChild hCloser
          hLength hStop
      exact isReported_pair ⟨opener, closer⟩ hPair hOpener
        hMiddle hCloser hLength fun part hPart =>
          ⟨hChild part hPart, ih part hPart⟩
  | @list start length items key height missing hSome hItems
      hLength hStop ih =>
      intro around place walk hPlace hTracks hTouches
      rw [walkBrackets]
      split_ifs with hDeep
      · rw [hPlace.depth] at hDeep
        exact reports_deep
          (.list key height missing hSome hItems hLength
            hStop)
          hDeep hTracks
      · rw [sightings, Node.length, hLength]
        exact reports_items
          (fun row hRow => ⟨hItems row hRow, ih row hRow⟩)
          hPlace hTracks

/- The walk of a built tree reports its brackets. -/
theorem IsBuilt.reports
    {root : Node}
    (query : BracketQuery)
    (visit : Visitor BracketInfo σ)
    (state : σ)
    (hBuilt : root.IsBuilt)
    (hStart : query.window.start ≤ root.length) :
    Ends (fun _ => False)
      (fun flow =>
        ∃ seen,
          query.window.Covers
              (root.plainBrackets query.onlyColorized) seen ∧
            flow = visit.feed state seen)
      (root.visitBrackets query visit state) := by
  have hOutside :
      BracketPlace.outside.IsIn query.onlyColorized [] :=
    ⟨rfl, rfl⟩
  rcases hBuilt.liesAt with hRoot | ⟨key, rfl⟩
  · have hTouches :
        query.window.touches 0 (0 + root.length) = true := by
      rw [zero_add]
      exact Range.touches_iff.2 ⟨Length.zero_le _, hStart⟩
    have hReported : root.IsReported query visit 0 :=
      hRoot.isReported
    have hWalk :=
      hReported [] _ ⟨state, LevelTable.empty⟩ hOutside
        LevelTable.tracks_empty hTouches
    rw [zero_add] at hWalk
    exact hWalk.bind fun flow hFlow => hFlow.seen
  · exact ⟨[], Range.covers_nil, rfl⟩

/- The brackets listed are those handed to the visitor. -/
theorem IsBuilt.exists_bracketsIn
    {root : Node}
    (query : BracketQuery)
    (hBuilt : root.IsBuilt)
    (hStart : query.window.start ≤ root.length) :
    ∃ found,
      root.bracketsIn query = .ok found ∧
        query.window.Covers
          (root.plainBrackets query.onlyColorized) found := by
  have hReports :=
    hBuilt.reports query Visitor.collect [] hStart
  rcases hReports.exists_ok with
    ⟨flow, hFlow, seen, hSeen, hFed⟩
  refine ⟨seen, ?_, hSeen⟩
  rw [bracketsIn, hFlow, hFed, Visitor.feed_collect,
    List.append_nil]
  change Except.ok seen.reverse.reverse = _
  rw [List.reverse_reverse]

/-
  The brackets listed for a window are some of the plain
  list, each of them once and in its order: all that overlap
  the window, and none that does not touch it.
-/
theorem bracketsIn_covers
    {root : Node}
    (query : BracketQuery)
    (hBuilt : root.IsBuilt)
    (hStart : query.window.start ≤ root.length) :
    ∃ found,
      root.bracketsIn query = .ok found ∧
        found.Sublist
          (root.plainBrackets query.onlyColorized) ∧
        found.Nodup ∧
        (∀ info ∈ root.plainBrackets query.onlyColorized,
          info.range.start < query.window.stop →
            query.window.start < info.range.stop →
              info ∈ found) ∧
        ∀ info ∈ found,
          info.range.start ≤ query.window.stop ∧
            query.window.start ≤ info.range.stop := by
  rcases hBuilt.exists_bracketsIn query hStart with
    ⟨seen, hFound, hSeen⟩
  refine ⟨seen, hFound, hSeen.sublist,
    hSeen.sublist.nodup hBuilt.nodup_plainBrackets, ?_, ?_⟩
  · intro info hInfo hBegins hEnds
    exact hSeen.complete info hInfo ⟨hBegins, hEnds⟩
  · intro info hInfo
    exact Range.touches_iff.1 (hSeen.touching info hInfo)

/- The inner of two pairs, with a stray bracket behind. -/
theorem bracketsIn_covers_parens :
    let declaration : BracketDeclaration :=
      ⟨[⟨['('], [')']⟩], none⟩
    let stream :=
      TokenStream.ofText
        (TokenTable.ofDeclaration declaration)
        ['(', ' ', '(', ')', ')', ' ', ')']
    let query : BracketQuery := ⟨⟨⟨0, 2⟩, ⟨0, 4⟩⟩, true⟩
    ∃ root stats found,
      parseDocument stream [] none = .ok (root, stats) ∧
        query.window.start ≤ root.length ∧
        (root.plainBrackets true).length = 5 ∧
        root.bracketsIn query = .ok found ∧
        found.Sublist (root.plainBrackets true) ∧
        found.Nodup ∧
        (∀ info ∈ root.plainBrackets true,
          info.range.start < query.window.stop →
            query.window.start < info.range.stop →
              info ∈ found) ∧
        ∀ info ∈ found,
          info.range.start ≤ query.window.stop ∧
            query.window.start ≤ info.range.stop := by
  intro declaration stream query
  rcases exists_isBuilt
      (fun root =>
        decide (query.window.start ≤ root.length) &&
          decide ((root.plainBrackets true).length = 5))
      (show (parseDocument stream [] none).toOption.any _ =
        true by decide +kernel) with
    ⟨root, stats, hParse, hBuilt, hTest⟩
  rw [Bool.and_eq_true, decide_eq_true_eq,
    decide_eq_true_eq] at hTest
  rcases hTest with ⟨hStart, hCount⟩
  rcases bracketsIn_covers query hBuilt hStart with
    ⟨found, hFound⟩
  exact ⟨root, stats, found, hParse, hStart, hCount, hFound⟩

end Node

end Bracketry
