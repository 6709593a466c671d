import Bracketry.Proofs.BracketWalks
import Bracketry.Proofs.Nesting
import Bracketry.Proofs.PairWalks
import Mathlib.Data.List.Perm.Subperm

/-
  All brackets of a tree, and all its pairs.

  Over a whole tree, the brackets listed are those of the
  pairs listed, but for the innermost of these pairs.  A
  pair is listed below as many others as queries go, and a
  bracket only where this holds with its own pair counted.
  The lists agree where pairs are not nested as deep.

  Key definitions include:
    * `PairInfo.brackets`
    * `Node.paired`, `Node.bracketsOf`

  Main declarations:
    * `Node.LiesAt.perm_paired`
    * `Node.LiesAt.level_lt`
    * `Node.bracketsIn_perm_pairsIn`
-/

------------------------------------------------------------
-- Brackets of a Pair
------------------------------------------------------------

namespace Bracketry

namespace PairInfo

/- One bracket of the pair. -/
def bracket
    (info : PairInfo)
    (range : Range)
    (kind : BracketKind) :
    BracketInfo :=
  { range := range
    level := info.level
    equalLevel := info.equalLevel
    isInvalid := false
    kind := some kind }

/- The opening bracket of the pair, and the closing one. -/
def brackets
    (info : PairInfo) :
    List BracketInfo :=
  info.bracket info.openingRange info.opening ::
    match info.closingRange, info.closing with
    | some range, some kind => [info.bracket range kind]
    | _, _ => []

end PairInfo

namespace Node

/- What is told of brackets that belong to pairs. -/
def paired
    (sightings : List Sighting) :
    List BracketInfo :=
  (listed false sightings).filter (!·.isInvalid)

/-
  The brackets of those pairs that do not have the highest
  number of others around.
-/
def bracketsOf
    (infos : List PairInfo) :
    List BracketInfo :=
  (infos.filter (·.level < maxQueryDepth)).flatMap
    PairInfo.brackets

theorem paired_append
    (a b : List Sighting) :
    paired (a ++ b) = paired a ++ paired b := by
  simp [paired]

theorem bracketsOf_append
    (a b : List PairInfo) :
    bracketsOf (a ++ b) = bracketsOf a ++ bracketsOf b := by
  simp [bracketsOf]

theorem paired_flatMap
    {α : Type}
    (items : List α)
    (see : α → List Sighting) :
    paired (items.flatMap see) =
      items.flatMap fun item => paired (see item) := by
  simp [paired, listed, List.filter_flatMap, List.map_flatMap]

theorem bracketsOf_flatMap
    {α : Type}
    (items : List α)
    (tell : α → List PairInfo) :
    bracketsOf (items.flatMap tell) =
      items.flatMap fun item => bracketsOf (tell item) := by
  simp [bracketsOf, List.filter_flatMap, List.flatMap_assoc]

/- A bracket that closes nothing is no bracket of a pair. -/
theorem paired_stray
    (range : Range)
    (around : List Enclosure) :
    paired [⟨range, none, around⟩] = [] := by
  rw [paired, listed, List.filter_eq_nil_iff]
  intro info hMem
  rcases List.mem_map.1 hMem with ⟨sighting, hSighting, rfl⟩
  rcases List.mem_singleton.1
      (List.mem_filter.1 hSighting).1 with
    rfl
  simp [Sighting.record]

/- One bracket of a pair, as it is seen and as it is told. -/
theorem paired_own
    {info : PairInfo}
    {range : Range}
    {kind : BracketKind}
    {pair : Enclosure}
    {around : List Enclosure}
    (hLevel : info.level = around.length)
    (hEqual :
      info.equalLevel =
        around.countP (·.literal == pair.literal)) :
    paired [⟨range, some (kind, pair), around⟩] =
      if info.level < maxQueryDepth then
        [info.bracket range kind]
      else [] := by
  have hAll :
      around.countP (·.counts false) = around.length :=
    List.countP_eq_length.2 fun _ _ => rfl
  have hSame :
      around.countP (·.countsAs false pair.literal) =
        info.equalLevel :=
    hEqual.symm
  have hCounts : pair.counts false = true := rfl
  simp only [paired, listed, List.filter_cons,
    List.filter_nil, Sighting.isListed, hCounts,
    Bool.true_and, hLevel, decide_eq_true_eq, Nat.succ_le_iff]
  split_ifs with hDeep
  · simp [Sighting.record, hAll, hSame, hLevel,
      PairInfo.bracket]
  · rfl

/- The brackets of a pair, as they are seen and as told. -/
theorem paired_pair
    {length inside : Length}
    (pair : Enclosure)
    (start : Position)
    (around : List Enclosure)
    (hStop :
      start + length =
        start + pair.opening.length + inside +
          partLength (pair.closing.map .bracket)) :
    paired [pair.first start around] ++
        paired
          (pair.last (start + pair.opening.length + inside)
            around) =
      bracketsOf [pair.info start length inside around] := by
  let info := pair.info start length inside around
  have hFirst :
      paired [pair.first start around] =
        if info.level < maxQueryDepth then
          [info.bracket info.openingRange info.opening]
        else [] :=
    paired_own rfl rfl
  have hBoth :
      bracketsOf [info] =
        if info.level < maxQueryDepth then info.brackets
        else [] := by
    rw [bracketsOf]
    split_ifs with hDeep
    · simp [hDeep]
    · simp [hDeep]
  rw [hFirst, hBoth, Enclosure.last]
  cases hClosing : pair.closing with
  | none =>
      have hOne :
          info.brackets =
            [info.bracket info.openingRange info.opening] := by
        simp [PairInfo.brackets, info, Enclosure.info, hClosing]
      rw [hOne]
      exact List.append_nil _
  | some leaf =>
      have hTwo :
          info.brackets =
            [info.bracket info.openingRange info.opening] ++
              [info.bracket
                ⟨start + pair.opening.length + inside,
                  start + length⟩ leaf.kind] := by
        simp [PairInfo.brackets, info, Enclosure.info, hClosing]
      have hLast :
          paired
              [⟨⟨start + pair.opening.length + inside,
                start + length⟩, some (leaf.kind, pair),
                  around⟩] =
            if info.level < maxQueryDepth then
              [info.bracket _ leaf.kind]
            else [] :=
        paired_own rfl rfl
      rw [hTwo, Option.toList_some, List.map_singleton]
      have hEnd :
          start + length =
            start + pair.opening.length + inside +
              leaf.length := by
        rwa [hClosing] at hStop
      rw [← hEnd, hLast]
      split_ifs
      · rfl
      · rfl

/- The brackets seen in a tree are those of its pairs. -/
theorem LiesAt.perm_paired
    {start : Position}
    {node : Node}
    (h : LiesAt start node)
    (around : List Enclosure) :
    (paired (node.sightings start around)).Perm
      (bracketsOf (node.pairRecords start around)) := by
  induction h generalizing around with
  | text key hLength hStop => exact .nil
  | stray key ids hLength hStop =>
      rw [sightings, paired_stray]
      exact .nil
  | @pair start length opener child closer key missing
      hOpener hMiddle hChild hCloser hLength hStop ih =>
      let pair : Enclosure := ⟨opener, closer⟩
      have hInside :
          (paired (partSightings (start + opener.length)
            (pair :: around) child)).Perm
            (bracketsOf (partRecords (start + opener.length)
              (pair :: around) child)) := by
        cases child with
        | none => exact .nil
        | some part => exact ih part rfl (pair :: around)
      have hOwn :=
        paired_pair pair start around
          (stop_of_pair start hLength)
      have hSeen :
          (Node.pair key length missing (.bracket opener) child
              (closer.map .bracket)).sightings start around =
            [pair.first start around] ++
              (partSightings (start + opener.length)
                  (pair :: around) child ++
                pair.last
                  (start + opener.length + partLength child)
                  around) :=
        sightings_pair ..
      have hTold :
          (Node.pair key length missing (.bracket opener) child
              (closer.map .bracket)).pairRecords start around =
            [pair.info start length (partLength child) around] ++
              partRecords (start + opener.length)
                (pair :: around) child :=
        pairRecords_pair ..
      rw [hSeen, hTold, paired_append, paired_append,
        bracketsOf_append, ← hOwn, List.append_assoc]
      exact (List.perm_append_comm.trans
        (hInside.append_left _)).append_left _
  | list key height missing hSome hItems hLength hStop ih =>
      rw [sightings, pairRecords, sightingsOfAll_eq_flatMap,
        pairRecordsOfAll_eq_flatMap, paired_flatMap,
        bracketsOf_flatMap]
      exact List.Perm.flatMap_left _ fun row hRow =>
        ih row hRow around

/- Pairs lie below fewer others than are nested there. -/
theorem LiesAt.level_lt
    {start : Position}
    {node : Node}
    (h : LiesAt start node)
    (around : List Enclosure) :
    ∀ info ∈ node.pairRecords start around,
      info.level < around.length + node.nesting := by
  induction h generalizing around with
  | text key hLength hStop => exact List.forall_mem_nil _
  | stray key ids hLength hStop => exact List.forall_mem_nil _
  | @pair start length opener child closer key missing
      hOpener hMiddle hChild hCloser hLength hStop ih =>
      rw [pairRecords_pair, nesting_pair]
      intro info hMem
      rcases List.mem_cons.1 hMem with rfl | hMem
      · change around.length < _
        omega
      · cases child with
        | none => cases hMem
        | some part =>
            have hLevel := ih part rfl _ info hMem
            rw [List.length_cons] at hLevel
            rw [partNesting]
            omega
  | @list start length items key height missing hSome hItems
      hLength hStop ih =>
      rw [pairRecords, pairRecordsOfAll_eq_flatMap]
      intro info hMem
      rcases List.mem_flatMap.1 hMem with ⟨row, hRow, hMem⟩
      have hLevel := ih row hRow around info hMem
      have hItem : row.2 ∈ items := by
        rw [← map_placed start items]
        exact List.mem_map_of_mem hRow
      have hNesting : row.2.nesting ≤ nestingOfAll items :=
        nestingOfAll_le_iff.1 (Nat.le_refl _) row.2 hItem
      rw [nesting]
      omega

end Node

end Bracketry

------------------------------------------------------------
-- Listings of a Whole Tree
------------------------------------------------------------

namespace Bracketry

namespace Node

variable {root : Node}

/- A whole tree overlaps its brackets. -/
theorem IsBuilt.overlaps_whole
    {onlyColorized : Bool}
    {info : BracketInfo}
    (hBuilt : root.IsBuilt)
    (hInfo : info ∈ root.plainBrackets onlyColorized) :
    (Range.mk 0 root.length).overlaps info.range := by
  rcases exists_of_mem_listed hInfo with
    ⟨sighting, hMem, _, rfl⟩
  rcases hBuilt.liesAt with hRoot | ⟨key, rfl⟩
  · have hWithin := hRoot.isWithin [] sighting hMem
    rw [zero_add] at hWithin
    rw [Sighting.range_record]
    exact ⟨hWithin.lt.trans_le hWithin.le_stop,
      hWithin.start_le.trans_lt hWithin.lt⟩
  · cases hMem

/- Over a whole tree, the plain list of brackets is found. -/
theorem IsBuilt.bracketsIn_whole
    (onlyColorized : Bool)
    (hBuilt : root.IsBuilt) :
    root.bracketsIn ⟨⟨0, root.length⟩, onlyColorized⟩ =
      .ok (root.plainBrackets onlyColorized) := by
  rcases hBuilt.exists_bracketsIn
      ⟨⟨0, root.length⟩, onlyColorized⟩ (Length.zero_le _) with
    ⟨found, hFound, hCovers⟩
  have hAll : root.plainBrackets onlyColorized ⊆ found :=
    fun info hInfo =>
      hCovers.complete info hInfo (hBuilt.overlaps_whole hInfo)
  have hLength :=
    (hBuilt.nodup_plainBrackets.subperm hAll).length_le
  rw [hFound, hCovers.sublist.eq_of_length_le hLength]

/- All brackets of pairs in a tree, and all its pairs. -/
theorem IsBuilt.perm_paired
    (hBuilt : root.IsBuilt) :
    (paired (root.sightings 0 [])).Perm
      (bracketsOf (root.pairRecords 0 [])) := by
  rcases hBuilt.liesAt with hRoot | ⟨key, rfl⟩
  · exact hRoot.perm_paired []
  · exact .nil

theorem IsBuilt.level_lt
    (hBuilt : root.IsBuilt) :
    ∀ info ∈ root.pairRecords 0 [],
      info.level < root.nesting := by
  rcases hBuilt.liesAt with hRoot | ⟨key, rfl⟩
  · intro info hInfo
    have hLevel := hRoot.level_lt [] info hInfo
    rwa [List.length_nil, Nat.zero_add] at hLevel
  · exact List.forall_mem_nil _

/-
  The brackets of pairs that are listed for a whole tree are
  those of the pairs listed that have fewer others around
  than pairs may have, each once and with the numbers of its
  pair.  Where pairs are not nested deeper than queries go,
  these are all the pairs.
-/
theorem bracketsIn_perm_pairsIn
    (cache : IndentationCache)
    (hBuilt : root.IsBuilt) :
    ∃ pairs brackets,
      root.pairsIn ⟨⟨0, root.length⟩, none⟩ cache =
          .ok (pairs, cache) ∧
        root.bracketsIn ⟨⟨0, root.length⟩, false⟩ =
          .ok brackets ∧
        (brackets.filter (!·.isInvalid)).Nodup ∧
        (brackets.filter (!·.isInvalid)).Perm
          ((pairs.filter (·.level < maxQueryDepth)).flatMap
            PairInfo.brackets) ∧
        (root.nesting ≤ maxQueryDepth →
          pairs.filter (·.level < maxQueryDepth) = pairs) := by
  refine ⟨root.plainPairs, root.plainBrackets false, ?_,
    hBuilt.bracketsIn_whole false,
    hBuilt.nodup_plainBrackets.filter _, ?_, ?_⟩
  · rw [hBuilt.pairsIn_eq, hBuilt.foundPairs_whole]
  · have hFilter :
        root.plainPairs.filter (·.level < maxQueryDepth) =
          (root.pairRecords 0 []).filter
            (·.level < maxQueryDepth) := by
      rw [plainPairs, listedPairs, List.filter_filter]
      refine List.filter_congr fun info _ => ?_
      rw [Bool.and_eq_left_iff_imp]
      simpa using fun h : info.level < maxQueryDepth => h.le
    rw [hFilter]
    exact hBuilt.perm_paired
  · intro hNesting
    refine List.filter_eq_self.2 fun info hListed => ?_
    have hLevel :=
      hBuilt.level_lt info (List.mem_filter.1 hListed).1
    exact decide_eq_true (hLevel.trans_le hNesting)

/- Two pairs in one another, and a stray bracket. -/
theorem bracketsIn_perm_pairsIn_parens :
    let declaration : BracketDeclaration :=
      ⟨[⟨['('], [')']⟩], none⟩
    let stream :=
      TokenStream.ofText
        (TokenTable.ofDeclaration declaration)
        ['(', '(', ')', ')', ')']
    let cache := IndentationCache.empty
    ∃ root stats pairs brackets,
      parseDocument stream [] none = .ok (root, stats) ∧
        root.nesting = 2 ∧
        root.pairsIn ⟨⟨0, root.length⟩, none⟩ cache =
          .ok (pairs, cache) ∧
        root.bracketsIn ⟨⟨0, root.length⟩, false⟩ =
          .ok brackets ∧
        (brackets.filter (!·.isInvalid)).Nodup ∧
        (brackets.filter (!·.isInvalid)).Perm
          (pairs.flatMap PairInfo.brackets) := by
  intro declaration stream cache
  rcases exists_isBuilt (fun root => decide (root.nesting = 2))
      (show (parseDocument stream [] none).toOption.any _ =
        true by decide +kernel) with
    ⟨root, stats, hParse, hBuilt, hTest⟩
  have hNesting : root.nesting = 2 := of_decide_eq_true hTest
  rcases bracketsIn_perm_pairsIn cache hBuilt with
    ⟨pairs, brackets, hPairs, hBrackets, hNodup, hPerm, hAll⟩
  have hShallow : root.nesting ≤ maxQueryDepth := by
    rw [hNesting]
    decide
  rw [hAll hShallow] at hPerm
  exact ⟨root, stats, pairs, brackets, hParse, hNesting,
    hPairs, hBrackets, hNodup, hPerm⟩

end Node

end Bracketry
