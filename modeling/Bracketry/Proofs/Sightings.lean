import Bracketry.Proofs.Builds
import Bracketry.Proofs.Outermost
import Bracketry.Query.Brackets
import Bracketry.Query.Pairs

/-
  What there is to see in a tree.

  A sighting is a bracket of a pair, or a closing bracket
  that closes nothing, with its place and all pairs around
  it.  The sightings of a tree come in the order of its
  text, and each part of the tree contributes those that lie
  within it.  The pairs of a tree are listed outer ones
  first.  Nothing is said here of windows or of depths.

  Key definitions include:
    * `Flow.map`, `Visitor.feed`
    * `Enclosure`, `Sighting`
    * `Node.sightings`, `Node.pairRecords`
    * `Sighting.IsWithin`

  Main declarations:
    * `Node.LiesAt.isWithin`
    * `Node.LiesAt.pairwise`
    * `Node.LiesAt.pairRecords_isWithin`
-/

------------------------------------------------------------
-- Records Handed to a Visitor
------------------------------------------------------------

namespace Bracketry

/- What a flow carries, read from its state. -/
def Flow.map
    {σ τ : Type}
    (read : σ → τ)
    (flow : Flow σ) :
    Flow τ :=
  ⟨read flow.state, flow.goesOn⟩

namespace Visitor

variable {α σ : Type}

/- Hand records to a visitor, until it ends the walk. -/
def feed
    (visit : Visitor α σ)
    (state : σ) :
    List α → Flow σ
  | [] => Flow.go state
  | record :: rest =>
      if (visit state record).goesOn then
        feed visit (visit state record).state rest
      else visit state record

@[simp] theorem feed_singleton
    (visit : Visitor α σ)
    (state : σ)
    (record : α) :
    visit.feed state [record] = visit state record := by
  rw [feed, feed, Flow.go]
  split_ifs with hGoes
  · rw [← hGoes]
  · rfl

/- A visitor that ended the walk sees nothing more. -/
theorem feed_append
    (visit : Visitor α σ)
    (state : σ)
    (a b : List α) :
    visit.feed state (a ++ b) =
      if (visit.feed state a).goesOn then
        visit.feed (visit.feed state a).state b
      else visit.feed state a := by
  induction a generalizing state with
  | nil => rfl
  | cons record rest ih =>
      rw [List.cons_append, feed, feed]
      split_ifs with hFirst
      · rw [ih, if_pos (by assumption)]
      · rw [ih, if_neg (by assumption)]
      · rfl

/- A visitor that keeps all records ends no walk. -/
theorem feed_collect
    (seen records : List α) :
    collect.feed seen records =
      Flow.go (records.reverse ++ seen) := by
  induction records generalizing seen with
  | nil => rfl
  | cons record rest ih =>
      have hRest := ih (record :: seen)
      rwa [← List.singleton_append, ← List.append_assoc,
        ← List.reverse_cons] at hRest

end Visitor

end Bracketry

------------------------------------------------------------
-- Sightings
------------------------------------------------------------

namespace Bracketry

/- The brackets of a pair that is around something. -/
structure Enclosure where
  opening : Bracket
  closing : Option Bracket
deriving DecidableEq, Inhabited

/-
  A bracket of a pair, or a closing bracket that closes
  nothing, with its place and the pairs around it, innermost
  first.  The bracket of a pair has a kind and a pair of its
  own, which is not one of those around.
-/
structure Sighting where
  range : Range
  own : Option (BracketKind × Enclosure)
  around : List Enclosure
deriving DecidableEq, Inhabited

namespace Enclosure

/- The literal of the opening bracket. -/
def literal
    (pair : Enclosure) :
    List Char :=
  pair.opening.kind.literal

/- The sighting of the opening bracket. -/
def first
    (pair : Enclosure)
    (start : Position)
    (around : List Enclosure) :
    Sighting :=
  ⟨⟨start, start + pair.opening.length⟩,
    some (pair.opening.kind, pair), around⟩

/- The sighting of the closing bracket, if there is one. -/
def last
    (pair : Enclosure)
    (start : Position)
    (around : List Enclosure) :
    List Sighting :=
  pair.closing.toList.map fun leaf =>
    ⟨⟨start, start + leaf.length⟩, some (leaf.kind, pair),
      around⟩

/-
  The record of a pair from a place on, with the lengths of
  the whole and of what is between the brackets.
-/
def info
    (pair : Enclosure)
    (start : Position)
    (length inside : Length)
    (around : List Enclosure) :
    PairInfo :=
  let middle := start + pair.opening.length
  { range := ⟨start, start + length⟩
    openingRange := ⟨start, middle⟩
    closingRange :=
      pair.closing.map fun _ =>
        ⟨middle + inside, start + length⟩
    level := around.length
    equalLevel := around.countP (·.literal == pair.literal)
    minIndentation := none
    opening := pair.opening.kind
    closing := pair.closing.map Bracket.kind }

end Enclosure

namespace Node

mutual

/- All that there is to see in a node, in the order of text. -/
def sightings
    (start : Position)
    (around : List Enclosure) :
    Node → List Sighting
  | .invalid _ _ length =>
      [⟨⟨start, start + length⟩, none, around⟩]
  | .pair _ _ _ (.bracket opener) child closing =>
      let pair : Enclosure := ⟨opener, closingOf? closing⟩
      let middle := start + opener.length
      pair.first start around ::
        ((match child with
          | some part => part.sightings middle (pair :: around)
          | none => []) ++
        pair.last (middle + partLength child) around)
  | .list _ _ _ _ items => sightingsOfAll start around items
  | _ => []

/- All that there is to see in nodes in a row. -/
def sightingsOfAll
    (start : Position)
    (around : List Enclosure) :
    List Node → List Sighting
  | [] => []
  | item :: rest =>
      item.sightings start around ++
        sightingsOfAll (start + item.length) around rest

end

mutual

/- The pairs of a node, outer ones first. -/
def pairRecords
    (start : Position)
    (around : List Enclosure) :
    Node → List PairInfo
  | .pair _ length _ (.bracket opener) child closing =>
      let pair : Enclosure := ⟨opener, closingOf? closing⟩
      let middle := start + opener.length
      pair.info start length (partLength child) around ::
        (match child with
          | some part =>
              part.pairRecords middle (pair :: around)
          | none => [])
  | .list _ _ _ _ items =>
      pairRecordsOfAll start around items
  | _ => []

/- The pairs of nodes in a row. -/
def pairRecordsOfAll
    (start : Position)
    (around : List Enclosure) :
    List Node → List PairInfo
  | [] => []
  | item :: rest =>
      item.pairRecords start around ++
        pairRecordsOfAll (start + item.length) around rest

end

/- What there is to see in a part that may be absent. -/
def partSightings
    (start : Position)
    (around : List Enclosure) :
    Option Node → List Sighting
  | some part => part.sightings start around
  | none => []

/- The pairs of a part that may be absent. -/
def partRecords
    (start : Position)
    (around : List Enclosure) :
    Option Node → List PairInfo
  | some part => part.pairRecords start around
  | none => []

@[simp] theorem closingOf?_map
    (closer : Option Bracket) :
    closingOf? (closer.map .bracket) = closer := by
  cases closer <;> rfl

theorem sightings_pair
    (start : Position)
    (around : List Enclosure)
    (key : Option Nat)
    (length : Length)
    (missing : IdSet)
    (opener : Bracket)
    (child : Option Node)
    (closer : Option Bracket) :
    (Node.pair key length missing (.bracket opener) child
        (closer.map .bracket)).sightings start around =
      (Enclosure.mk opener closer).first start around ::
        (partSightings (start + opener.length)
            (⟨opener, closer⟩ :: around) child ++
          (Enclosure.mk opener closer).last
            (start + opener.length + partLength child)
            around) := by
  cases child <;>
    simp only [sightings, closingOf?_map, partSightings]

theorem pairRecords_pair
    (start : Position)
    (around : List Enclosure)
    (key : Option Nat)
    (length : Length)
    (missing : IdSet)
    (opener : Bracket)
    (child : Option Node)
    (closer : Option Bracket) :
    (Node.pair key length missing (.bracket opener) child
        (closer.map .bracket)).pairRecords start around =
      (Enclosure.mk opener closer).info start length
          (partLength child) around ::
        partRecords (start + opener.length)
          (⟨opener, closer⟩ :: around) child := by
  cases child <;>
    simp only [pairRecords, closingOf?_map, partRecords]

theorem sightingsOfAll_eq_flatMap
    (start : Position)
    (around : List Enclosure)
    (items : List Node) :
    sightingsOfAll start around items =
      (placed start items).flatMap fun row =>
        row.2.sightings row.1 around := by
  induction items generalizing start with
  | nil => rfl
  | cons item rest ih =>
      rw [sightingsOfAll, placed, List.flatMap_cons, ih]

theorem pairRecordsOfAll_eq_flatMap
    (start : Position)
    (around : List Enclosure)
    (items : List Node) :
    pairRecordsOfAll start around items =
      (placed start items).flatMap fun row =>
        row.2.pairRecords row.1 around := by
  induction items generalizing start with
  | nil => rfl
  | cons item rest ih =>
      rw [pairRecordsOfAll, placed, List.flatMap_cons, ih]

end Node

end Bracketry

------------------------------------------------------------
-- Where Sightings Lie
------------------------------------------------------------

namespace Bracketry

/- A sum that fits is exact. -/
theorem Length.ends_plus_of_fits
    {MayFail : Fault → Prop}
    {a b : Length}
    (h : (a + b).Fits) :
    Checked.Ends MayFail (· = a + b) (a.plus b) := by
  rw [plus_eq_ok h]
  rfl

theorem Range.touches_iff
    {window : Range}
    {start stop : Position} :
    window.touches start stop = true ↔
      start ≤ window.stop ∧ window.start ≤ stop := by
  simp [touches]

/-
  The sighting lies between two places, is not empty, and
  has at least certain pairs around it.
-/
structure Sighting.IsWithin
    (start stop : Position)
    (around : List Enclosure)
    (sighting : Sighting) :
    Prop where
  start_le : start ≤ sighting.range.start
  lt : sighting.range.start < sighting.range.stop
  le_stop : sighting.range.stop ≤ stop
  around : around <:+ sighting.around

theorem Sighting.IsWithin.mono
    {first last start stop : Position}
    {inner around : List Enclosure}
    {sighting : Sighting}
    (h : sighting.IsWithin first last inner)
    (hStart : start ≤ first)
    (hStop : last ≤ stop)
    (hAround : around <:+ inner) :
    sighting.IsWithin start stop around :=
  ⟨hStart.trans h.start_le, h.lt, h.le_stop.trans hStop,
    hAround.trans h.around⟩

namespace Enclosure

theorem isWithin_first
    {pair : Enclosure}
    (start : Position)
    (around : List Enclosure)
    (h : pair.opening.length ≠ 0) :
    (pair.first start around).IsWithin start
      (start + pair.opening.length) around :=
  ⟨le_refl _, Length.lt_add_right h, le_refl _,
    List.suffix_refl _⟩

theorem isWithin_last
    {pair : Enclosure}
    (start : Position)
    (around : List Enclosure)
    (h : ∀ leaf, pair.closing = some leaf → leaf.length ≠ 0) :
    ∀ sighting ∈ pair.last start around,
      sighting.IsWithin start
        (start +
          Node.partLength (pair.closing.map .bracket))
        around := by
  unfold last
  cases hClosing : pair.closing with
  | none => exact List.forall_mem_nil _
  | some leaf =>
      intro sighting hLast
      rcases List.mem_singleton.1 hLast with rfl
      exact ⟨le_refl _, Length.lt_add_right (h leaf hClosing),
        le_refl _, List.suffix_refl _⟩

end Enclosure

namespace Node

variable {start : Position} {node : Node}

/- Nodes in a row end where those behind them start. -/
theorem pairwise_placed
    (start : Position)
    (nodes : List Node) :
    (placed start nodes).Pairwise fun a b =>
      a.1 + a.2.length ≤ b.1 := by
  induction nodes generalizing start with
  | nil => exact .nil
  | cons node rest ih =>
      rw [placed, List.pairwise_cons]
      exact ⟨fun row hRow => (le_of_mem_placed hRow).1, ih _⟩

/- The end of a pair is that of its last part. -/
theorem stop_of_pair
    (start : Position)
    {length first inside last : Length}
    (h : length = first + (inside + last)) :
    start + length = start + first + inside + last := by
  rw [h, add_assoc, add_assoc]

theorem isWithin_part
    {around : List Enclosure}
    {child : Option Node}
    (h :
      ∀ part, child = some part →
        ∀ sighting ∈ part.sightings start around,
          sighting.IsWithin start (start + part.length)
            around) :
    ∀ sighting ∈ partSightings start around child,
      sighting.IsWithin start (start + partLength child)
        around := by
  cases child with
  | none => exact List.forall_mem_nil _
  | some part => exact h part rfl

theorem isWithin_ofAll
    {around : List Enclosure}
    {items : List Node}
    (h :
      ∀ row ∈ placed start items,
        ∀ sighting ∈ row.2.sightings row.1 around,
          sighting.IsWithin row.1 (row.1 + row.2.length)
            around) :
    ∀ sighting ∈ sightingsOfAll start around items,
      sighting.IsWithin start
        (start + (items.map Node.length).sum) around := by
  rw [sightingsOfAll_eq_flatMap]
  intro sighting hMem
  rcases List.mem_flatMap.1 hMem with ⟨row, hRow, hMem⟩
  rcases le_of_mem_placed hRow with ⟨hFirst, hLast⟩
  exact (h row hRow sighting hMem).mono hFirst hLast
    (List.suffix_refl _)

/- What is seen in a node lies within it. -/
theorem LiesAt.isWithin
    (h : LiesAt start node)
    (around : List Enclosure) :
    ∀ sighting ∈ node.sightings start around,
      sighting.IsWithin start (start + node.length)
        around := by
  induction h generalizing around with
  | text key hLength hStop => exact List.forall_mem_nil _
  | stray key ids hLength hStop =>
      rintro _ hMem
      rcases List.mem_singleton.1 hMem with rfl
      exact ⟨le_refl _, Length.lt_add_right hLength,
        le_refl _, List.suffix_refl _⟩
  | @pair start length opener child closer key missing
      hOpener hMiddle hChild hCloser hLength hStop ih =>
      have hFirst :=
        Length.le_add_right start opener.length
      have hInside :=
        Length.le_add_right (start + opener.length)
          (partLength child)
      have hLast :=
        Length.le_add_right
          (start + opener.length + partLength child)
          (partLength (closer.map .bracket))
      rw [sightings_pair, Node.length,
        stop_of_pair start hLength]
      intro sighting hMem
      rcases List.mem_cons.1 hMem with rfl | hMem
      · exact (Enclosure.isWithin_first start around
          hOpener).mono (le_refl _) (hInside.trans hLast)
            (List.suffix_refl _)
      rcases List.mem_append.1 hMem with hMem | hMem
      · exact (isWithin_part (fun part hPart =>
          ih part hPart _) sighting hMem).mono hFirst hLast
            (List.suffix_cons _ _)
      · exact (Enclosure.isWithin_last _ around hCloser
          sighting hMem).mono (hFirst.trans hInside)
            (le_refl _) (List.suffix_refl _)
  | list key height missing hSome hItems hLength hStop ih =>
      rw [sightings, Node.length, hLength]
      exact isWithin_ofAll fun row hRow => ih row hRow around

theorem pairwise_last
    (pair : Enclosure)
    (start : Position)
    (around : List Enclosure) :
    (pair.last start around).Pairwise fun a b =>
      a.range.stop ≤ b.range.start := by
  unfold Enclosure.last
  cases pair.closing with
  | none => exact .nil
  | some leaf => exact List.pairwise_singleton _ _

/- What is seen in a node is seen one behind the other. -/
theorem LiesAt.pairwise
    (h : LiesAt start node)
    (around : List Enclosure) :
    (node.sightings start around).Pairwise fun a b =>
      a.range.stop ≤ b.range.start := by
  induction h generalizing around with
  | text key hLength hStop => exact .nil
  | stray key ids hLength hStop =>
      exact List.pairwise_singleton _ _
  | @pair start length opener child closer key missing
      hOpener hMiddle hChild hCloser hLength hStop ih =>
      let pair : Enclosure := ⟨opener, closer⟩
      let middle := start + opener.length
      have hInside :
          ∀ sighting ∈
              partSightings middle (pair :: around) child,
            sighting.IsWithin middle
              (middle + partLength child)
              (pair :: around) :=
        isWithin_part fun part hPart =>
          (hChild part hPart).isWithin _
      have hLast :
          ∀ sighting ∈
              pair.last (middle + partLength child) around,
            sighting.IsWithin (middle + partLength child)
              (middle + partLength child +
                partLength (closer.map .bracket))
              around :=
        pair.isWithin_last _ around hCloser
      have hNext : middle ≤ middle + partLength child :=
        Length.le_add_right _ _
      rw [sightings_pair, List.pairwise_cons,
        List.pairwise_append]
      refine ⟨?_, ?_, pairwise_last pair _ around, ?_⟩
      · intro other hOther
        rcases List.mem_append.1 hOther with hOther | hOther
        · exact (hInside other hOther).start_le
        · exact hNext.trans (hLast other hOther).start_le
      · cases child with
        | none => exact .nil
        | some part => exact ih part rfl _
      · intro inner hInner other hOther
        exact (hInside inner hInner).le_stop.trans
          (hLast other hOther).start_le
  | @list start length items key height missing hSome hItems
      hLength hStop ih =>
      rw [sightings, sightingsOfAll_eq_flatMap,
        List.pairwise_flatMap]
      refine ⟨fun row hRow => ih row hRow around, ?_⟩
      refine (pairwise_placed start items).imp_of_mem ?_
      intro a b hA hB hOrder x hX y hY
      have hFirst := (hItems a hA).isWithin around x hX
      have hNext := (hItems b hB).isWithin around y hY
      exact hFirst.le_stop.trans
        (hOrder.trans hNext.start_le)

end Node

end Bracketry

------------------------------------------------------------
-- Where Pairs Lie
------------------------------------------------------------

namespace Bracketry

/-
  The pair lies between two places, is not empty, and has
  at least so many pairs around it.
-/
structure PairInfo.IsWithin
    (start stop : Position)
    (depth : Nat)
    (info : PairInfo) :
    Prop where
  start_le : start ≤ info.range.start
  lt : info.range.start < info.range.stop
  le_stop : info.range.stop ≤ stop
  depth_le : depth ≤ info.level

theorem PairInfo.IsWithin.mono
    {first last start stop : Position}
    {inner depth : Nat}
    {info : PairInfo}
    (h : info.IsWithin first last inner)
    (hStart : start ≤ first)
    (hStop : last ≤ stop)
    (hDepth : depth ≤ inner) :
    info.IsWithin start stop depth :=
  ⟨hStart.trans h.start_le, h.lt, h.le_stop.trans hStop,
    hDepth.trans h.depth_le⟩

namespace Node

variable {start : Position} {node : Node}

/- The pairs of a node lie within it. -/
theorem LiesAt.pairRecords_isWithin
    (h : LiesAt start node)
    (around : List Enclosure) :
    ∀ info ∈ node.pairRecords start around,
      info.IsWithin start (start + node.length)
        around.length := by
  induction h generalizing around with
  | text key hLength hStop => exact List.forall_mem_nil _
  | stray key ids hLength hStop => exact List.forall_mem_nil _
  | @pair start length opener child closer key missing
      hOpener hMiddle hChild hCloser hLength hStop ih =>
      rw [pairRecords_pair, Node.length]
      intro info hMem
      rcases List.mem_cons.1 hMem with rfl | hMem
      · have hSome : length ≠ 0 := by
          rw [hLength]
          exact Length.add_ne_zero _ hOpener
        exact ⟨le_refl _, Length.lt_add_right hSome, le_refl _,
          Nat.le_refl _⟩
      · cases child with
        | none => cases hMem
        | some part =>
            have hFirst :=
              Length.le_add_right start opener.length
            have hLast :=
              Length.le_add_right
                (start + opener.length + part.length)
                (partLength (closer.map .bracket))
            rw [stop_of_pair start hLength]
            exact (ih part rfl _ info hMem).mono hFirst hLast
              (Nat.le_succ _)
  | list key height missing hSome hItems hLength hStop ih =>
      rw [pairRecords, pairRecordsOfAll_eq_flatMap, Node.length,
        hLength]
      intro info hMem
      rcases List.mem_flatMap.1 hMem with ⟨row, hRow, hMem⟩
      rcases le_of_mem_placed hRow with ⟨hFirst, hLast⟩
      exact (ih row hRow around info hMem).mono hFirst hLast
        (Nat.le_refl _)

end Node

end Bracketry
