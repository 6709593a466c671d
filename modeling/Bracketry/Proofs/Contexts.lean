import Bracketry.Proofs.Nesting
import Bracketry.Proofs.Outlines
import Bracketry.Proofs.Retracing

/-
  Nodes in other contexts.

  A node that passes the reuse test for some open ids could
  have been made under them.  A parser in front of its
  tokens makes items with its outline and stands behind them
  then, whatever comes there, if neither that parse nor the
  one of the node meets a bracket that is nested too deeply.

  The tokens of a node are as many as its leaves.  In front
  of them are those of the nodes before it.

  Key definitions include:
    * `Node.Hold`
    * `Parser.ParsesTo`, `Parser.Yields`
    * `Node.IsParsedFrom`, `Node.KeepsOpenings`

  Main declarations:
    * `Node.Hold.stands`
    * `Node.IsParsedFrom.stands`
    * `Node.parseItems_of_canBeReused`
-/

------------------------------------------------------------
-- Parts and Their Tokens
------------------------------------------------------------

namespace Bracketry

namespace Node

/-
  Nodes one behind the other hold a part, in front of which
  are other parts of them, in order.
-/
inductive Hold : List Node → List Node → Node → Prop where
  | here
    (before : List Node)
    (part : Node)
    (behind : List Node) :
    Hold (before ++ part :: behind) before part
  | inside
    {inner : List Node}
    {part : Node}
    (before : List Node)
    (node : Node)
    (behind : List Node)
    (hPart : Hold node.children inner part) :
    Hold (before ++ node :: behind) (before ++ inner) part

variable {kept : Forest Token → Prop}

/- Nodes in a row have a leaf for each of their tokens. -/
theorem AllStand.length_eq
    {own : List Token}
    {nodes : List Node}
    (h : AllStand kept own nodes) :
    own.length = (leavesOfAll nodes).length := by
  induction nodes generalizing own with
  | nil =>
      subst h
      rfl
  | cons node rest ih =>
      rcases h with ⟨first, others, rfl, hNode, hRest⟩
      rw [leavesOfAll, List.length_append, List.length_append,
        hNode.2.1, ih hRest]

theorem AllStand.exists_append
    {own : List Token}
    {a b : List Node}
    (h : AllStand kept own (a ++ b)) :
    ∃ front back,
      own = front ++ back ∧ AllStand kept front a ∧
        AllStand kept back b := by
  induction a generalizing own with
  | nil => exact ⟨[], own, rfl, rfl, h⟩
  | cons node rest ih =>
      rcases h with ⟨first, others, rfl, hNode, hRest⟩
      rcases ih hRest with ⟨front, back, rfl, hFront, hBack⟩
      exact ⟨first ++ front, back,
        (List.append_assoc _ _ _).symm,
        ⟨first, front, rfl, hNode, hFront⟩, hBack⟩

/-
  A part stands for the tokens behind those of the parts in
  front of it.
-/
theorem Hold.stands
    (hInherited : Forest.IsInherited kept)
    {nodes before : List Node}
    {part : Node}
    {own : List Token}
    (h : Hold nodes before part)
    (hNodes : AllStand kept own nodes) :
    ∃ front middle back,
      own = front ++ (middle ++ back) ∧
        front.length = (leavesOfAll before).length ∧
        part.Stands kept middle := by
  induction h generalizing own with
  | here before part behind =>
      rcases hNodes.exists_append with
        ⟨front, others, rfl, hFront, hOthers⟩
      rcases hOthers with ⟨middle, back, rfl, hPart, _⟩
      exact ⟨front, middle, back, rfl, hFront.length_eq,
        hPart⟩
  | inside before node behind hPart ih =>
      rcases hNodes.exists_append with
        ⟨front, others, rfl, hFront, hOthers⟩
      rcases hOthers with ⟨middle, back, rfl, hNode, _⟩
      have hSome : node.children ≠ [] := by
        intro hNone
        rw [hNone] at hPart
        generalize hNodes : ([] : List Node) = nodes at hPart
        cases hPart <;> simp at hNodes
      rcases ih (hNode.children hInherited hSome) with
        ⟨first, own, last, rfl, hLength, hOwn⟩
      refine ⟨front ++ first, own, last ++ back, by simp, ?_,
        hOwn⟩
      rw [List.length_append, leavesOfAll_append,
        List.length_append, hFront.length_eq, hLength]

end Node

end Bracketry

------------------------------------------------------------
-- Parses from Scratch
------------------------------------------------------------

namespace Bracketry

/-
  The items that a parse from scratch makes of the tokens
  ahead of it, under some open ids and at some level, and
  the parser that it ends with.
-/
inductive Parser.ParsesTo :
    List Token → List Node → Parser → Prop where
  | intro
    {tokens ahead : List Token}
    {parser after : Parser}
    {bound level : Nat}
    {opened : IdSet}
    {items : List Node}
    (hTokens : Token.AreSound tokens)
    (hScan : Feed.IsScanning tokens parser ahead)
    (hBound : ahead.length < bound)
    (hItems :
      parser.parseItems bound opened level =
        .ok (items, after)) :
    ParsesTo ahead items after

/- The items of such a parse, or the one tree of them. -/
inductive Parser.Yields :
    List Token → List Node → Prop where
  | items
    {ahead : List Token}
    {after : Parser}
    {items : List Node}
    (hItems : ParsesTo ahead items after) :
    Yields ahead items
  | root
    {ahead : List Token}
    {after : Parser}
    {items : List Node}
    {root : Node}
    (hItems : ParsesTo ahead items after)
    (hRoot : after.joinItems items = .ok (some root)) :
    Yields ahead [root]

namespace Parser

theorem ParsesTo.areSound
    {ahead : List Token}
    {items : List Node}
    {after : Parser}
    (h : ParsesTo ahead items after) :
    Token.AreSound ahead := by
  rcases h with ⟨hTokens, ⟨_, before, _, rfl, _⟩, _, _⟩
  rw [← List.append_nil ahead] at hTokens
  exact hTokens.part

theorem Yields.areSound
    {ahead : List Token}
    {nodes : List Node}
    (h : Yields ahead nodes) :
    Token.AreSound ahead := by
  cases h with
  | items hItems => exact hItems.areSound
  | root hItems => exact hItems.areSound

/- The items show a forest of the first tokens ahead. -/
theorem ParsesTo.exists_shows
    {ahead : List Token}
    {items : List Node}
    {after : Parser}
    (h : ParsesTo ahead items after) :
    ∃ tokens opened level, ∃ forest : Forest Token, ∃ stop,
      Token.AreSound tokens ∧
        (Feed.scanned tokens).Shows opened level ahead items
          forest stop ∧
        after.old = none := by
  rcases h with ⟨hTokens, hScan, hBound, hItems⟩
  rcases Feed.parsed_parseItems hTokens.isSound_scanned hScan
      hBound with
    ⟨_, _, forest, stop, _, hParse, hShows, hAfter, _⟩
  rw [hItems] at hParse
  cases hParse
  exact ⟨_, _, _, forest, stop, hTokens, hShows, hAfter.1⟩

/- What a parse yields stands for the tokens it has read. -/
theorem Yields.stands
    {ahead : List Token}
    {nodes : List Node}
    (h : Yields ahead nodes) :
    ∃ read rest,
      ahead = read ++ rest ∧
        Node.AllStand Forest.IsMatched read nodes := by
  cases h with
  | items hItems =>
      rcases hItems.exists_shows with
        ⟨_, _, _, forest, stop, _, hShows, _⟩
      exact ⟨forest.leaves, stop, hShows.reads.1,
        Node.allStand_of_shape Forest.isInherited_isMatched
          hShows.proper hShows.shape hShows.matched⟩
  | root hItems hRoot =>
      rcases hItems.exists_shows with
        ⟨_, _, _, forest, stop, hTokens, hShows, hOld⟩
      rcases Feed.joinItems_spec hTokens.isSound_scanned
          (by rw [hOld]; rfl) hItems.areSound.few hShows with
        ⟨child, hJoin, hShape, _, hProper⟩
      rw [hRoot] at hJoin
      cases hJoin
      refine ⟨forest.leaves, stop, hShows.reads.1,
        Node.allStand_of_shape Forest.isInherited_isMatched ?_
          ?_ hShows.matched⟩
      · simpa using hProper
      · simpa [Node.shapeOfAll, Node.partShape] using
          hShape.symm

end Parser

namespace Node

/-
  The node is part of what a parse from scratch has made,
  and these are its tokens.
-/
def IsParsedFrom
    (own : List Token)
    (node : Node) :
    Prop :=
  ∃ ahead front rest nodes before,
    Parser.Yields ahead nodes ∧ Hold nodes before node ∧
      ahead = front ++ (own ++ rest) ∧
      front.length = (leavesOfAll before).length ∧
      own.length = node.leaves.length

theorem IsParsedFrom.areSound
    {own : List Token}
    {node : Node}
    (h : node.IsParsedFrom own) :
    Token.AreSound own := by
  rcases h with
    ⟨ahead, front, rest, nodes, before, hYields, _, rfl, _⟩
  exact hYields.areSound.part

theorem IsParsedFrom.stands
    {own : List Token}
    {node : Node}
    (h : node.IsParsedFrom own) :
    node.Stands Forest.IsMatched own := by
  rcases h with
    ⟨ahead, front, rest, nodes, before, hYields, hHold, hAhead,
      hFront, hOwn⟩
  rcases hYields.stands with ⟨read, others, hRead, hNodes⟩
  rcases hHold.stands Forest.isInherited_isMatched hNodes with
    ⟨first, middle, back, rfl, hFirst, hMiddle⟩
  rw [hRead, List.append_assoc, List.append_assoc] at hAhead
  rcases List.append_inj hAhead (hFirst.trans hFront.symm) with
    ⟨_, hRest⟩
  rcases List.append_inj hRest
      (hMiddle.2.1.trans hOwn.symm) with
    ⟨rfl, _⟩
  exact hMiddle

end Node

end Bracketry

------------------------------------------------------------
-- Levels
------------------------------------------------------------

namespace Bracketry

namespace Node

/- No opening bracket of the tokens became text. -/
def KeepsOpenings
    (own : List Token)
    (node : Node) :
    Prop :=
  ∀ pair ∈ node.leaves.zip own,
    pair.2.isOpening = true → pair.1.bracket?.isSome = true

instance decidableKeepsOpenings
    (own : List Token)
    (node : Node) :
    Decidable (node.KeepsOpenings own) :=
  inferInstanceAs
    (Decidable (∀ pair ∈ node.leaves.zip own, _ → _))

/- Nor did one of those inside a pair. -/
theorem KeepsOpenings.inside
    {key : Option Nat}
    {length : Length}
    {missing : IdSet}
    {opening child : Node}
    {closing : Option Node}
    {first : Token}
    {inside : Forest Token}
    {rest : List Token}
    (hChild : child.IsProper)
    (hShape : inside.shape = child.shape)
    (h :
      (Node.pair key length missing opening (some child)
        closing).KeepsOpenings
          (first :: (inside.leaves ++ rest))) :
    child.KeepsOpenings inside.leaves := by
  intro pair hPair
  apply h
  rw [leaves, List.zip_cons_cons,
    List.zip_append (length_leaves hChild hShape).symm]
  exact List.mem_cons_of_mem _ (List.mem_append_left _ hPair)

/- Nodes in a row leave room if each of them does. -/
theorem isDeepFrom_of_forall
    {items : List Node}
    {forest : Forest Token}
    {level : Nat}
    (hEach :
      ∀ item ∈ items,
        ∀ {forest : Forest Token} {level : Nat},
          item.IsProper → forest.shape = item.shape →
            item.KeepsOpenings forest.leaves →
            (∀ depth < item.nesting,
              level + depth ≤ Parser.maxNestingLevel) →
            forest.IsDeepFrom level)
    (hProper : ∀ item ∈ items, item.IsProper)
    (hShape : forest.shape = shapeOfAll items)
    (hKeeps :
      ∀ pair ∈ (leavesOfAll items).zip forest.leaves,
        pair.2.isOpening = true →
          pair.1.bracket?.isSome = true)
    (hRoom :
      ∀ depth < nestingOfAll items,
        level + depth ≤ Parser.maxNestingLevel) :
    forest.IsDeepFrom level := by
  induction items generalizing forest with
  | nil =>
      rcases Forest.shape_eq_nil.1 hShape with rfl
      trivial
  | cons item rest ih =>
      rw [List.forall_mem_cons] at hEach hProper
      rcases Forest.exists_of_shape_append hShape with
        ⟨first, others, rfl, hFirst, hOthers⟩
      rw [leavesOfAll, Forest.leaves_append,
        List.zip_append
          (length_leaves hProper.1 hFirst).symm,
        List.forall_mem_append] at hKeeps
      rw [nestingOfAll] at hRoom
      refine Forest.nests_append.2 ⟨?_, ?_⟩
      · exact hEach.1 hProper.1 hFirst hKeeps.1
          fun depth hDepth => hRoom depth (by omega)
      · exact ih hEach.2 hProper.2 hOthers hKeeps.2
          fun depth hDepth => hRoom depth (by omega)

/-
  A node whose opening brackets begin pairs shows a forest
  that can stand at any level which leaves room for them.
-/
theorem isDeepFrom_of_keepsOpenings
    {node : Node}
    {forest : Forest Token}
    {level : Nat}
    (hProper : node.IsProper)
    (hShape : forest.shape = node.shape)
    (hKeeps : node.KeepsOpenings forest.leaves)
    (hRoom :
      ∀ depth < node.nesting,
        level + depth ≤ Parser.maxNestingLevel) :
    forest.IsDeepFrom level := by
  induction node using Node.induction
    generalizing forest level with
  | text key length =>
      rcases Forest.exists_of_shape_eq_leaf hShape with
        ⟨t, rfl, _⟩
      refine ⟨fun hOpening => ?_, trivial⟩
      have hPair := hKeeps (.text key length, t)
        (by simp [leaves, Forest.leaves]) hOpening
      cases hPair
  | bracket leaf =>
      rcases Forest.exists_of_shape_eq_leaf hShape with
        ⟨t, rfl, hSign⟩
      have hKind := congrArg Sign.kind hSign
      cases hKind
  | invalid key ids length =>
      rcases Forest.exists_of_shape_eq_stray hShape with
        ⟨t, rfl, _⟩
      trivial
  | pair key length missing opening child closing ih =>
      rcases isProper_pair.1 hProper with
        ⟨hOpening, hClosing, _, _, hChild⟩
      rw [shape_pair] at hShape
      rcases Forest.exists_of_shape_eq_pair hShape with
        ⟨o, inside, c, rfl, _, hInside, hLast⟩
      rw [nesting_pair] at hRoom
      refine ⟨hRoom 0 (by omega), ?_, trivial⟩
      cases child with
      | none =>
          rcases Forest.shape_eq_nil.1 hInside with rfl
          trivial
      | some node =>
          refine ih node rfl (hChild node rfl) hInside ?_
            fun depth hDepth => ?_
          · exact KeepsOpenings.inside (hChild node rfl)
              hInside hKeeps
          · have hMore := hRoom (depth + 1)
              (by rw [partNesting]; omega)
            omega
  | list key height length missing items ih =>
      rw [shape] at hShape
      rw [nesting] at hRoom
      rw [KeepsOpenings, leaves] at hKeeps
      exact isDeepFrom_of_forall ih
        (fun item hItem =>
          (isProper_item hProper item hItem).2)
        hShape hKeeps hRoom

end Node

end Bracketry

------------------------------------------------------------
-- The Reuse Test
------------------------------------------------------------

namespace Bracketry

namespace Node

/- What shows one forest has one outline. -/
theorem entries_of_shows
    {node : Node}
    {forest : Forest Token}
    {made : List Node}
    {place : Position}
    (depth : Nat)
    (hNode : node.Shows Forest.IsMatched forest)
    (hProper : ∀ item ∈ made, item.IsProper)
    (hShape : forest.shape = shapeOfAll made)
    (hFits : Token.FitFrom place forest.leaves) :
    ∃ found,
      node.entries .brackets place depth = .ok found ∧
        entriesOfAll .brackets place depth made =
          .ok (found, place + Token.total forest.leaves) :=
  ⟨_, entries_eq depth hNode.proper hNode.shape hNode.kept
    hFits, entriesOfAll_eq depth
      (fun item _ => @entries_eq item) hProper hShape
      hNode.kept hFits⟩

/-
  A node that can be used again while some ids are open is
  what a parser makes of its tokens under them, at a place
  where they fit and whatever comes behind.  It makes at
  most as many items as there are tokens, with the outline
  of the node, and is then at the first token that comes
  behind.  The bound is any that is enough for the tokens.
-/
theorem parseItems_of_canBeReused
    {node : Node}
    {own others continuation : List Token}
    {reopened : IdSet}
    {level : Nat}
    {parser : Parser}
    (hParsed : node.IsParsedFrom own)
    (hKeeps : node.KeepsOpenings own)
    (hRoom :
      ∀ depth < node.nesting,
        level + depth ≤ Parser.maxNestingLevel)
    (hTest : node.canBeReused reopened = .ok true)
    (hScan :
      Feed.IsScanning others parser (own ++ continuation))
    (hFits : Token.FitFrom parser.stream.offset own) :
    ∃ made behind,
      Feed.IsScanning others behind continuation ∧
        made.length ≤ own.length ∧
        (∀ bound, own.length < made.length + bound →
          parser.parseItems (made.length + bound) reopened
              level =
            (do
              let (more, last) ←
                behind.parseItems bound reopened level
              return (made ++ more, last))) ∧
        shapeOfAll made = node.shape ∧
        ∀ place depth, Token.FitFrom place own →
          ∃ found,
            node.entries .brackets place depth = .ok found ∧
              entriesOfAll .brackets place depth made =
                .ok (found, place + Token.total own) := by
  rcases hParsed.stands with
    ⟨_, _, ⟨leaf, rfl⟩ | ⟨forest, rfl, hNode⟩⟩
  · cases hTest
  rcases isClosed_of_canBeReused hNode.proper hNode.shape
      hNode.kept hTest with
    ⟨hClosed, hAvoids⟩
  have hDeep :=
    isDeepFrom_of_keepsOpenings hNode.proper hNode.shape
      hKeeps hRoom
  rcases Feed.exists_made_of_isClosed hParsed.areSound hFits
      hNode.kept hClosed hAvoids hDeep hScan with
    ⟨made, behind, hProper, hShape, hBehind, hFew, hParse⟩
  exact ⟨made, behind, hBehind, hFew, hParse,
    hShape.symm.trans hNode.shape,
    fun place depth hFitsPlace =>
      entries_of_shows depth hNode hProper hShape hFitsPlace⟩

/- A round pair behind a stray bracket, before a square one. -/
theorem parseItems_of_canBeReused_parens :
    let first : Bracket :=
      ⟨⟨0, 1⟩, .opening ⟨['('], [[')']]⟩, IdSet.single 0⟩
    let last : Bracket :=
      ⟨⟨0, 1⟩, .closing ⟨[')'], [['(']], [['(']]⟩,
        IdSet.ofList [0]⟩
    let square : Token :=
      .bracket ⟨⟨0, 1⟩, .closing ⟨[']'], [['[']], [['[']]⟩,
        IdSet.ofList [1]⟩ (some 1)
    let own : List Token :=
      [.bracket last (some 0), .bracket first (some 0),
        .bracket last (some 0)]
    let node : Node :=
      .list none 1 ⟨0, 3⟩ (IdSet.ofList [0])
        [.invalid none (IdSet.ofList [0]) ⟨0, 1⟩,
          .pair none ⟨0, 2⟩ IdSet.empty (.bracket first) none
            (some (.bracket last))]
    let start (tokens : List Token) : Parser :=
      .ofStream ⟨.scanned tokens (Token.total tokens), 0⟩
        ⟨[], Shift.identity, none⟩ none
    node.IsParsedFrom own ∧ node.KeepsOpenings own ∧
      (∀ depth < node.nesting,
        0 + depth ≤ Parser.maxNestingLevel) ∧
      node.canBeReused (IdSet.single 1) = .ok true ∧
      Token.FitFrom 0 own ∧
      ∃ made behind,
        Feed.IsScanning (own ++ [square]) behind [square] ∧
          (start (own ++ [square])).parseItems
              (made.length + 4) (IdSet.single 1) 0 =
            (do
              let (more, after) ←
                behind.parseItems 4 (IdSet.single 1) 0
              return (made ++ more, after)) ∧
          shapeOfAll made = node.shape := by
  intro first last square own node start
  have hMakes :
      ∀ token ∈ own,
        (TokenTable.ofBrackets (Brackets.ofDeclaration
          ⟨[⟨['('], [')']⟩], none⟩)).Makes token := by
    decide
  have hOwn : Token.AreSound own :=
    ⟨fun token hToken =>
      TokenTable.isRegular_of_makes (hMakes token hToken),
      by decide, by decide⟩
  have hFits : Token.FitFrom 0 own :=
    Token.fitFrom_zero.2 hOwn.fits
  have hScan :
      ∀ tokens, Feed.IsScanning tokens (start tokens) tokens :=
    fun tokens => ⟨rfl, [], Token.total tokens, rfl, rfl⟩
  have hOwnItems :
      ∃ items after,
        (start own).parseItems 4 IdSet.empty 0 =
            .ok (items, after) ∧
          after.joinItems items = .ok (some node) := by
    -- the bits of sets are only evaluated in closed terms
    dsimp only [start, own, node, first, last]
    exact ⟨_, _, rfl, rfl⟩
  rcases hOwnItems with ⟨items, after, hItems, hRoot⟩
  have hParsed : node.IsParsedFrom own :=
    ⟨own, [], [], [node], [],
      .root ⟨hOwn, hScan own, by decide, hItems⟩ hRoot,
      .here [] node [], rfl, rfl, rfl⟩
  have hKeeps : node.KeepsOpenings own := by decide
  have hRoom :
      ∀ depth < node.nesting,
        0 + depth ≤ Parser.maxNestingLevel := by
    decide
  have hTest :
      node.canBeReused (IdSet.single 1) = .ok true := by
    cbv
  rcases parseItems_of_canBeReused hParsed hKeeps hRoom hTest
      (hScan (own ++ [square])) hFits with
    ⟨made, behind, hBehind, _, hParse, hShape, _⟩
  have hBound : own.length < made.length + 4 :=
    Nat.lt_add_left made.length (by decide)
  exact ⟨hParsed, hKeeps, hRoom, hTest, hFits, made, behind,
    hBehind, hParse 4 hBound, hShape⟩

end Node

end Bracketry
