import Bracketry.Proofs.Concat

/-
  What a parse reads.

  A feed tells at which place of the text a parser stands,
  which tokens lie between two places, and what the old tree
  can give there.  Whatever the feed is, a parse is never
  refused, and the items that it makes show a matched forest
  whose leaves are the tokens it passed.

  Two facts about a parse carry its proof.  It stops where
  the old tree has nothing more to give, so that the levels
  around it stop there too, up to the one that the next
  bracket closes.  And what it leaves open at its end could
  not be closed by that bracket.

  Key definitions include:
    * `Token.IsRegular`
    * `Feed`
    * `Feed.Parsed`

  Main declarations:
    * `Feed.parsed_parseItems`
    * `Feed.parsed_root`
-/

------------------------------------------------------------
-- Regular Tokens
------------------------------------------------------------

namespace Bracketry

namespace Token

/-
  An opening bracket has the one id that it is grouped
  under; a closing bracket is grouped under one of its ids.
-/
def IsRegular : Token → Prop
  | .text _ => True
  | .bracket leaf id =>
      if leaf.kind.isOpening then
        ∃ key, id = some key ∧ leaf.ids = IdSet.single key
      else ∀ key, id = some key → key ∈ leaf.ids.toList

end Token

namespace Parser

/- Among regular tokens, only the sets of ids matter. -/
theorem closes_eq
    {opening : Bracket}
    {id : Option Nat}
    {closing : Token}
    (hOpening : opening.kind.isOpening = true)
    (hFirst : Token.IsRegular (.bracket opening id))
    (hLast : closing.IsRegular) :
    closes opening id closing =
      (closing.isClosing &&
        closing.ids.intersects opening.ids) := by
  cases closing with
  | text length => rfl
  | bracket leaf leafId =>
      rw [Token.IsRegular, if_pos hOpening] at hFirst
      rcases hFirst with ⟨key, rfl, hIds⟩
      rw [closes, Token.isClosing, Token.ids]
      by_cases hKind : leaf.kind.isOpening = true
      · simp [hKind]
      · rw [Token.IsRegular, if_neg hKind] at hLast
        by_cases hId : leafId = some key
        · have hMeets :
              leaf.ids.intersects opening.ids = true := by
            rw [IdSet.intersects_iff, hIds]
            exact ⟨key, hLast key hId,
              IdSet.mem_toList_single.2 rfl⟩
          simp [hId, hMeets]
        · simp [hId]

theorem closesOpen_eq
    (opened : IdSet)
    (token : Token) :
    closesOpen opened token =
      (token.isClosing && token.ids.intersects opened) := by
  cases token <;> rfl

end Parser

end Bracketry

------------------------------------------------------------
-- Feeds
------------------------------------------------------------

namespace Bracketry

/- The next token of a parser was looked at. -/
def Parser.Ahead
    (parser : Parser)
    (next : Option Token) :
    Prop :=
  parser.stream.peek = .ok (next, parser.stream)

theorem Parser.peek_of_ahead
    {parser : Parser}
    {next : Option Token}
    (h : parser.Ahead next) :
    parser.peek = .ok (next, parser) := by
  rw [Parser.peek, h]
  rfl

/- A token whose end fits is passed. -/
theorem TokenStream.passed_eq
    (stream : TokenStream)
    (source : TokenSource)
    {token : Token}
    (h : (stream.offset + token.length).Fits) :
    stream.passed source token =
      .ok (some token,
        ⟨source, stream.offset + token.length⟩) := by
  unfold TokenStream.passed
  rw [Length.plus_eq_ok h]
  rfl

/-
  The tokens between the places of a text, as parsers find
  them.  `room` bounds the number of tokens behind a place.
  Opening brackets are text at the levels that `hides`
  holds of, and begin pairs at those that `opens` holds of.
  A parser is stuck when its old tree has nothing to give at
  the current place, whatever is open.
-/
structure Feed (Place : Type) where
  Reads : Place → List Token → Place → Prop
  room : Place → Nat
  hides : Nat → Prop
  opens : Nat → Prop
  reuses : Bool
  Ready : Parser → Place → Prop
  Stuck : Parser → Place → Prop

namespace Feed

variable {Place : Type} (feed : Feed Place)

/- A node of the old tree that stands for what is ahead. -/
structure Gives
    (opened : IdSet)
    (place : Place)
    (node : Node)
    (forest : Forest Token)
    (stop : Place) :
    Prop where
  reuses : feed.reuses = true
  some : forest ≠ .nil
  proper : node.IsProper
  shape : forest.shape = node.shape
  matched : forest.IsMatched
  closed : forest.IsClosed
  avoids : forest.Avoids opened
  nests :
    ∀ level, forest.Nests feed.hides feed.opens level
  reads : feed.Reads place forest.leaves stop

/- Places and tokens fit together as parsers need it. -/
structure IsSound : Prop where
  hides_of_lt :
    ∀ {level},
      Parser.maxNestingLevel < level → feed.hides level
  opens_of_le :
    ∀ {level},
      level ≤ Parser.maxNestingLevel → feed.opens level
  reads_nil :
    ∀ {parser place},
      feed.Ready parser place → feed.Reads place [] place
  reads_append :
    ∀ {a b c tokens others},
      feed.Reads a tokens b → feed.Reads b others c →
        feed.Reads a (tokens ++ others) c
  fits_of_reads :
    ∀ {a b tokens others},
      feed.Reads a (tokens ++ others) b →
        (Token.total tokens).Fits
  room_of_reads :
    ∀ {a b tokens},
      feed.Reads a tokens b →
        feed.room b + tokens.length ≤ feed.room a
  room_lt :
    ∀ {parser place},
      feed.Ready parser place → feed.room place < 2 ^ 64
  isSome_old :
    ∀ {parser place},
      feed.Ready parser place →
        parser.old.isSome = feed.reuses
  ready_of_stuck :
    ∀ {parser place},
      feed.Stuck parser place → feed.Ready parser place
  ready_count :
    ∀ {parser place},
      feed.Ready parser place →
        feed.Ready parser.countConstructed place
  reuse :
    ∀ {parser place},
      feed.Ready parser place → ∀ opened,
        (∃ after,
          parser.reuse? opened = .ok (none, after) ∧
            feed.Stuck after place) ∨
          ∃ node after forest stop,
            parser.reuse? opened = .ok (some node, after) ∧
              feed.Gives opened place node forest stop ∧
              feed.Ready after stop
  reuse_of_stuck :
    ∀ {parser place},
      feed.Stuck parser place → ∀ opened,
        ∃ after,
          parser.reuse? opened = .ok (none, after) ∧
            feed.Stuck after place ∧
            after.stream = parser.stream
  peek :
    ∀ {parser place},
      feed.Ready parser place →
        ∃ next after,
          parser.peek = .ok (next, after) ∧
            after.Ahead next ∧ feed.Ready after place ∧
            (feed.Stuck parser place →
              feed.Stuck after place)
  regular :
    ∀ {parser place token},
      feed.Ready parser place →
        parser.Ahead (some token) → token.IsRegular
  read :
    ∀ {parser place token},
      feed.Ready parser place →
        parser.Ahead (some token) →
          ∃ after stop,
            parser.read = .ok (some token, after) ∧
              feed.Reads place [token] stop ∧
              feed.Ready after stop

end Feed

end Bracketry

------------------------------------------------------------
-- Results of a Parse
------------------------------------------------------------

namespace Bracketry

namespace Feed

variable {Place : Type} (feed : Feed Place)

/-
  Items that show a forest, where the parse began.  Nothing
  stray in the forest closes what is open around it.
-/
structure Shows
    (opened : IdSet)
    (level : Nat)
    (place : Place)
    (items : List Node)
    (forest : Forest Token)
    (stop : Place) :
    Prop where
  shape : forest.shape = Node.shapeOfAll items
  proper : ∀ item ∈ items, item.IsProper
  flat :
    feed.reuses = false →
      ∀ item ∈ items, item.height = 0
  matched : forest.IsMatched
  avoids : forest.Avoids opened
  nests : forest.Nests feed.hides feed.opens level
  reads : feed.Reads place forest.leaves stop

/-
  The items of one level, from a place up to where they
  stop.  The parser is stuck there, and the next bracket
  would not have closed what is left open.
-/
def Parsed
    (opened : IdSet)
    (level : Nat)
    (place : Place)
    (result : Checked (List Node × Parser)) :
    Prop :=
  ∃ items parser, ∃ forest : Forest Token, ∃ stop next,
    result = .ok (items, parser) ∧
      feed.Shows opened level place items forest stop ∧
      feed.Stuck parser stop ∧ parser.Ahead next ∧
      Parser.stopsAt opened next = true ∧
      ∀ token, next = some token →
        forest.EndAvoids token.ids

variable {feed}

theorem isEmptyList_of_isProper
    {node : Node}
    (h : node.IsProper) :
    node.isEmptyList = false := by
  cases node with
  | list key height length missing items =>
      cases items with
      | nil => simp [Node.IsProper] at h
      | cons item rest => rfl
  | text key length => rfl
  | bracket leaf => rfl
  | invalid key ids length => rfl
  | pair key length missing opening child closing => rfl

theorem isProper_of_mem_items
    {node item : Node}
    (h : node.IsProper)
    (hItem : item ∈ node.items) :
    item.IsProper := by
  induction node using Node.induction with
  | text key length =>
      rcases List.mem_singleton.1 hItem with rfl
      exact h
  | bracket leaf =>
      rcases List.mem_singleton.1 hItem with rfl
      exact h
  | invalid key ids length =>
      rcases List.mem_singleton.1 hItem with rfl
      exact h
  | pair key length missing opening child closing _ =>
      rcases List.mem_singleton.1 hItem with rfl
      exact h
  | list key height length missing nodes ih =>
      have hNodes := Node.isProper_item h
      rw [Node.items] at hItem
      clear h
      induction nodes with
      | nil => cases hItem
      | cons first rest ihRest =>
          rw [List.forall_mem_cons] at ih hNodes
          rw [Node.itemsOfAll, List.mem_append] at hItem
          rcases hItem with hFirst | hRest
          · exact ih.1 hNodes.1.2 hFirst
          · exact ihRest ih.2 hRest hNodes.2

/- Proper nodes are as long as the tokens they show. -/
theorem sum_lengths_eq_total
    {nodes : List Node}
    {forest : Forest Token}
    (hProper : ∀ node ∈ nodes, node.IsProper)
    (hShape : forest.shape = Node.shapeOfAll nodes) :
    (nodes.map Node.length).sum = forest.total := by
  induction nodes generalizing forest with
  | nil =>
      rcases Forest.shape_eq_nil.1 hShape with rfl
      rfl
  | cons first rest ih =>
      rw [List.forall_mem_cons] at hProper
      rcases Forest.exists_of_shape_append hShape with
        ⟨front, back, rfl, hFront, hBack⟩
      rw [List.map_cons, List.sum_cons,
        Node.length_eq_total hProper.1 hFront.symm,
        ih hProper.2 hBack]
      simp [Forest.total]

/- What was read is a tree whose every stretch fits. -/
theorem Shows.allFit
    {opened : IdSet}
    {level : Nat}
    {place stop : Place}
    {items : List Node}
    {forest : Forest Token}
    (hSound : feed.IsSound)
    (hRoom : feed.room place < 2 ^ 64)
    (h : feed.Shows opened level place items forest stop) :
    Node.AllFit (Node.itemsOfAll items) := by
  have hProper :
      ∀ item ∈ Node.itemsOfAll items, item.IsProper := by
    have hItems := h.proper
    clear h
    induction items with
    | nil => simp [Node.itemsOfAll]
    | cons first rest ih =>
        rw [List.forall_mem_cons] at hItems
        rw [Node.itemsOfAll, List.forall_mem_append]
        exact ⟨fun item =>
          isProper_of_mem_items hItems.1, ih hItems.2⟩
  have hShape := h.shape
  rw [← Node.shapeOfAll_itemsOfAll] at hShape
  refine Node.allFit_of_length_lt ?_
    fun before middle behind hSplit => ?_
  · have hRead := hSound.room_of_reads h.reads
    have hLeaves := Node.length_le_leaves items
    have hCount := congrArg List.length
      (Forest.lengths_shape forest)
    rw [List.length_map, List.length_map, h.shape] at hCount
    omega
  · rw [hSplit] at hShape hProper
    rw [Node.shapeOfAll_append, Node.shapeOfAll_append]
      at hShape
    rcases Forest.exists_of_shape_append hShape with
      ⟨front, last, rfl, hFront, _⟩
    rcases Forest.exists_of_shape_append hFront with
      ⟨first, second, rfl, _, hSecond⟩
    have hReads := h.reads
    rw [Forest.leaves_append, Forest.leaves_append]
      at hReads
    have hFits := hSound.fits_of_reads hReads
    rw [Token.total_append] at hFits
    have hMiddle :
        ∀ node ∈ middle, node.IsProper :=
      fun node hNode => hProper node (by simp [hNode])
    rw [sum_lengths_eq_total hMiddle hSecond]
    exact Length.fits_of_add hFits

/- The items of a level make one tree, if there are any. -/
theorem joinItems_spec
    {opened : IdSet}
    {level : Nat}
    {parser : Parser}
    {place stop : Place}
    {items : List Node}
    {forest : Forest Token}
    (hSound : feed.IsSound)
    (hOld : parser.old.isSome = feed.reuses)
    (hRoom : feed.room place < 2 ^ 64)
    (h : feed.Shows opened level place items forest stop) :
    ∃ root,
      parser.joinItems items = .ok root ∧
        Node.partShape root = forest.shape ∧
        (root = none ↔ items = []) ∧
        ∀ node, root = some node → node.IsProper := by
  have hFit := h.allFit hSound hRoom
  rw [h.shape]
  by_cases hSome : items = []
  · subst hSome
    exact ⟨none, parser.joinItems_nil, rfl, by simp, by simp⟩
  · rcases (Parser.ends_joinItems hSome h.proper
        (fun hNone => h.flat (hOld.symm.trans hNone))
        (.inl hFit)).exists_ok with
      ⟨_, hJoin, root, rfl, hProper, hItems⟩
    refine ⟨some root, hJoin, ?_, by simp [hSome], ?_⟩
    · rw [Node.partShape, ← Node.shapeOfAll_items, hItems,
        Node.shapeOfAll_itemsOfAll]
    · rintro _ ⟨⟩
      exact hProper

theorem plusPart_eq
    {length : Length}
    {part : Option Node}
    (h : (length + Node.partLength part).Fits) :
    Node.plusPart length part =
      .ok (length + Node.partLength part) := by
  cases part with
  | none => simp [Node.plusPart, Node.partLength]
  | some node => exact Length.plus_eq_ok h

theorem pairOf_eq
    {opening : Node}
    {child closing : Option Node}
    (hFirst :
      (opening.length + Node.partLength child).Fits)
    (hBoth :
      (opening.length + Node.partLength child +
        Node.partLength closing).Fits) :
    Node.pairOf opening child closing =
      .ok (.pair none
        (opening.length + Node.partLength child +
          Node.partLength closing)
        (Node.partMissing child) opening child closing) := by
  unfold Node.pairOf
  rw [plusPart_eq hFirst]
  simp only [bind, Except.bind, plusPart_eq hBoth]
  cases child <;> rfl

/- The pair of brackets with a tree between them. -/
theorem pairOf_spec
    {leaf : Bracket}
    (id : Option Nat)
    {inside : Forest Token}
    {child : Option Node}
    (closing : Option (Bracket × Option Nat))
    {place stop : Place}
    (hSound : feed.IsSound)
    (hShape : Node.partShape child = inside.shape)
    (hChild : ∀ node, child = some node → node.IsProper)
    (hReads :
      feed.Reads place
        (.bracket leaf id ::
          (inside.leaves ++
            (closing.map fun last =>
              Token.bracket last.1 last.2).toList))
        stop) :
    ∃ pair,
      Node.pairOf (.bracket leaf) child
          (closing.map fun last => .bracket last.1) =
            .ok pair ∧
        pair.IsProper ∧ pair.height = 0 ∧
        (Forest.pair (.bracket leaf id) inside
          (closing.map fun last =>
            Token.bracket last.1 last.2) .nil).shape =
              pair.shape := by
  have hInside : Node.partLength child = inside.total := by
    cases child with
    | none =>
        rcases Forest.shape_eq_nil.1 hShape.symm with rfl
        rfl
    | some node =>
        exact Node.length_eq_total (hChild node rfl) hShape
  have hFirst : (leaf.length + inside.total).Fits := by
    rw [← List.cons_append] at hReads
    have hFits := hSound.fits_of_reads hReads
    rwa [Token.total_cons] at hFits
  have hBoth :
      (leaf.length + inside.total +
        Node.partLength
          (closing.map fun last => .bracket last.1)).Fits
      := by
    rw [← List.append_nil (_ :: _)] at hReads
    have hFits := hSound.fits_of_reads hReads
    rw [Token.total_cons, Token.total_append, ← add_assoc]
      at hFits
    cases closing with
    | none => exact hFits
    | some last =>
        rw [Option.map_some, Option.toList_some,
          Token.total_cons, Token.total_nil, add_zero]
          at hFits
        exact hFits
  rw [← hInside] at hFirst hBoth
  refine ⟨_, pairOf_eq hFirst hBoth, ?_, rfl, ?_⟩
  · rw [Node.isProper_pair]
    refine ⟨⟨leaf, rfl⟩, ?_, add_assoc _ _ _, rfl, hChild⟩
    intro node hNode
    rcases Option.map_eq_some_iff.1 hNode with ⟨last, rfl, rfl⟩
    exact ⟨last.1, rfl⟩
  · rw [Node.shape_pair, hShape, Forest.shape]
    cases closing <;> rfl

/- No items were read yet. -/
theorem shows_nil
    {opened : IdSet}
    {level : Nat}
    {parser : Parser}
    {place : Place}
    (hSound : feed.IsSound)
    (hReady : feed.Ready parser place) :
    feed.Shows opened level place [] .nil place where
  shape := rfl
  proper := by simp
  flat := by simp
  matched := trivial
  avoids := trivial
  nests := trivial
  reads := hSound.reads_nil hReady

/- One item before others, when it closes what it opens. -/
theorem Shows.cons
    {opened : IdSet}
    {level : Nat}
    {place middle stop : Place}
    {node : Node}
    {items : List Node}
    {first rest : Forest Token}
    (hSound : feed.IsSound)
    (hNode : feed.Shows opened level place [node] first middle)
    (hClosed : first.IsClosed)
    (hRest : feed.Shows opened level middle items rest stop) :
    feed.Shows opened level place (node :: items)
      (first ++ rest) stop where
  shape := by
    rw [Forest.shape_append, hNode.shape, hRest.shape]
    simp [Node.shapeOfAll]
  proper := by
    rw [List.forall_mem_cons]
    exact ⟨hNode.proper node (by simp), hRest.proper⟩
  flat hFlat := by
    rw [List.forall_mem_cons]
    exact ⟨hNode.flat hFlat node (by simp),
      hRest.flat hFlat⟩
  matched :=
    Forest.isMatched_append hClosed hNode.matched
      hRest.matched
  avoids :=
    Forest.avoids_append.2 ⟨hNode.avoids, hRest.avoids⟩
  nests := Forest.nests_append.2 ⟨hNode.nests, hRest.nests⟩
  reads := by
    rw [Forest.leaves_append]
    exact hSound.reads_append hNode.reads hRest.reads

/- The items behind a first one are parsed like it. -/
theorem Parsed.cons
    {opened : IdSet}
    {level : Nat}
    {place middle : Place}
    {node : Node}
    {first : Forest Token}
    {result : Checked (List Node × Parser)}
    (hSound : feed.IsSound)
    (hNode : feed.Shows opened level place [node] first middle)
    (hClosed : first.IsClosed)
    (hRest : feed.Parsed opened level middle result) :
    feed.Parsed opened level place
      (do
        let (rest, parser) ← result
        return (
          if node.isEmptyList then rest else node :: rest,
          parser)) := by
  rcases hRest with
    ⟨items, parser, rest, stop, next, rfl, hShows, hStuck,
      hAhead, hStops, hEnd⟩
  refine ⟨node :: items, parser, first ++ rest, stop, next,
    ?_, hNode.cons hSound hClosed hShows, hStuck, hAhead,
    hStops, ?_⟩
  · have hEmpty :=
      isEmptyList_of_isProper (hNode.proper node (by simp))
    simp only [bind, Except.bind, hEmpty]
    rfl
  · intro token hNext
    rw [Forest.endAvoids_append]
    exact ⟨Forest.endAvoids_of_isClosed hClosed,
      hEnd token hNext⟩

/- A stuck parser stops before a bracket that closes. -/
theorem parseItems_of_stuck
    {bound : Nat}
    {opened : IdSet}
    (level : Nat)
    {parser : Parser}
    {place : Place}
    {next : Option Token}
    (hSound : feed.IsSound)
    (hBound : 0 < bound)
    (hStuck : feed.Stuck parser place)
    (hAhead : parser.Ahead next)
    (hStops : Parser.stopsAt opened next = true) :
    ∃ after,
      Parser.parseItems bound opened level parser =
          .ok ([], after) ∧
        feed.Stuck after place ∧ after.Ahead next := by
  rcases Nat.exists_eq_succ_of_ne_zero
      (Nat.ne_of_gt hBound) with
    ⟨bound, rfl⟩
  rcases hSound.reuse_of_stuck hStuck opened with
    ⟨after, hReuse, hAfter, hStream⟩
  have hNext : after.Ahead next := by
    rw [Parser.Ahead, hStream]
    exact hAhead
  refine ⟨after, ?_, hAfter, hNext⟩
  rw [Parser.parseItems, hReuse]
  simp only [bind, Except.bind, Parser.peek_of_ahead hNext,
    hStops, if_true]
  rfl

/- The closing bracket of a pair is read if it is next. -/
theorem readClosing_spec
    {parser : Parser}
    {place : Place}
    {next : Option Token}
    {leaf : Bracket}
    {id : Option Nat}
    (hSound : feed.IsSound)
    (hReady : feed.Ready parser place)
    (hAhead : parser.Ahead next)
    (hOpening : leaf.kind.isOpening = true)
    (hRegular : Token.IsRegular (.bracket leaf id)) :
    (∃ last : Bracket × Option Nat, ∃ after stop,
      next = some (.bracket last.1 last.2) ∧
        parser.readClosing leaf id =
          .ok (some (.bracket last.1), after) ∧
        last.1.kind.isOpening = false ∧
        last.1.ids.intersects leaf.ids = true ∧
        feed.Reads place [.bracket last.1 last.2] stop ∧
        feed.Ready after stop) ∨
      (parser.readClosing leaf id = .ok (none, parser) ∧
        ∀ token, next = some token →
          Parser.closesOpen leaf.ids token = false) := by
  have hPeek := Parser.peek_of_ahead hAhead
  rw [Parser.readClosing, hPeek]
  cases next with
  | none => exact .inr ⟨rfl, by simp⟩
  | some token =>
      have hToken := hSound.regular hReady hAhead
      have hCloses :=
        Parser.closes_eq hOpening hRegular hToken
      cases token with
      | text length =>
          refine .inr ⟨rfl, ?_⟩
          rintro _ ⟨⟩
          rfl
      | bracket lastLeaf lastId =>
          by_cases hMatch :
              Parser.closes leaf id
                (.bracket lastLeaf lastId) = true
          · rcases hSound.read hReady hAhead with
              ⟨after, stop, hRead, hReads, hAfter⟩
            refine .inl ⟨(lastLeaf, lastId), after, stop, rfl,
              ?_, ?_, ?_, hReads, hAfter⟩
            · simp only [bind, Except.bind, hMatch, if_true,
                hRead]
              rfl
            · rw [hCloses, Bool.and_eq_true] at hMatch
              simpa [Token.isClosing] using hMatch.1
            · rw [hCloses, Bool.and_eq_true] at hMatch
              exact hMatch.2
          · refine .inr ⟨?_, ?_⟩
            · simp only [bind, Except.bind, hMatch]
              rfl
            · rintro _ ⟨⟩
              rw [hCloses, Bool.not_eq_true] at hMatch
              rw [Parser.closesOpen_eq, hMatch]

end Feed

end Bracketry

------------------------------------------------------------
-- Items
------------------------------------------------------------

namespace Bracketry

namespace Feed

variable {Place : Type} {feed : Feed Place}

theorem Gives.shows
    {opened : IdSet}
    {level : Nat}
    {place stop : Place}
    {node : Node}
    {forest : Forest Token}
    (h : feed.Gives opened place node forest stop) :
    feed.Shows opened level place [node] forest stop where
  shape := by simp [Node.shapeOfAll, h.shape]
  proper := by simpa using h.proper
  flat hFlat := by
    rw [h.reuses] at hFlat
    cases hFlat
  matched := h.matched
  avoids := h.avoids
  nests := h.nests level
  reads := h.reads

/- A token that is shown by one leaf. -/
theorem shows_leaf
    {opened : IdSet}
    {level : Nat}
    {place stop : Place}
    {token : Token}
    (hClosing : token.isClosing = false)
    (hHides : token.isOpening = true → feed.hides level)
    (hReads : feed.Reads place [token] stop) :
    feed.Shows opened level place [Node.textOf token.length]
      (.leaf token .nil) stop where
  shape := rfl
  proper := by
    rw [List.forall_mem_singleton]
    trivial
  flat _ := by
    rw [List.forall_mem_singleton]
    rfl
  matched := ⟨hClosing, trivial⟩
  avoids := trivial
  nests := ⟨hHides, trivial⟩
  reads := hReads

/- A closing bracket that closes nothing open. -/
theorem shows_stray
    {opened : IdSet}
    {level : Nat}
    {place stop : Place}
    {token : Token}
    (hClosing : token.isClosing = true)
    (hAvoids : opened.intersects token.ids = false)
    (hReads : feed.Reads place [token] stop) :
    feed.Shows opened level place
      [Node.invalidOf token.ids token.length]
      (.stray token .nil) stop where
  shape := rfl
  proper := by
    rw [List.forall_mem_singleton]
    trivial
  flat _ := by
    rw [List.forall_mem_singleton]
    rfl
  matched := ⟨hClosing, trivial⟩
  avoids := ⟨hAvoids, trivial⟩
  nests := trivial
  reads := hReads

/-
  A pair that was read.  If it is not closed, the bracket
  that stopped it closes something further out.
-/
theorem shows_pair
    {opened : IdSet}
    {level : Nat}
    {place middle stop last : Place}
    {opening : Token}
    {items : List Node}
    {inside : Forest Token}
    {closing : Option Token}
    {pair : Node}
    (hSound : feed.IsSound)
    (hOpening : opening.isOpening = true)
    (hLevel : feed.opens level)
    (hFirst : feed.Reads place [opening] middle)
    (hInside :
      feed.Shows (opened.union opening.ids) (level + 1)
        middle items inside stop)
    (hLast : feed.Reads stop closing.toList last)
    (hCloses :
      ∀ token, closing = some token →
        Forest.Closes opening token inside)
    (hProper : pair.IsProper)
    (hHeight : pair.height = 0)
    (hShape :
      (Forest.pair opening inside closing .nil).shape =
        pair.shape) :
    feed.Shows opened level place [pair]
      (.pair opening inside closing .nil) last where
  shape := by
    rw [hShape]
    simp [Node.shapeOfAll]
  proper := by
    rw [List.forall_mem_singleton]
    exact hProper
  flat _ := by
    rw [List.forall_mem_singleton]
    exact hHeight
  matched := by
    refine ⟨hOpening, hInside.matched,
      (Forest.avoids_union.1 hInside.avoids).2, ?_, trivial⟩
    cases closing with
    | none => rfl
    | some token => exact hCloses token rfl
  avoids :=
    ⟨(Forest.avoids_union.1 hInside.avoids).1, trivial⟩
  nests := ⟨hLevel, hInside.nests, trivial⟩
  reads := by
    have hReads := hSound.reads_append hFirst
      (hSound.reads_append hInside.reads hLast)
    simpa [Forest.leaves] using hReads

/-
  An opening bracket with the items behind it, and the items
  behind the pair.  If the pair is not closed, those are
  none: the bracket that stopped it stops its level too.
-/
theorem parsed_pair
    {bound : Nat}
    {opened : IdSet}
    {level : Nat}
    {parser : Parser}
    {place middle : Place}
    {leaf : Bracket}
    {id : Option Nat}
    (hSound : feed.IsSound)
    (hOpening : leaf.kind.isOpening = true)
    (hLevel : level ≤ Parser.maxNestingLevel)
    (hRegular : Token.IsRegular (.bracket leaf id))
    (hFirst : feed.Reads place [.bracket leaf id] middle)
    (hRoom : feed.room place < 2 ^ 64)
    (hInside :
      feed.Parsed (opened.union leaf.ids) (level + 1) middle
        (Parser.parseItems bound (opened.union leaf.ids)
          (level + 1) parser))
    (hRest :
      ∀ parser stop,
        feed.Ready parser stop → feed.room stop < bound →
          feed.Parsed opened level stop
            (Parser.parseItems bound opened level parser))
    (hBound : feed.room middle < bound) :
    feed.Parsed opened level place
      (do
        let (items, parser) ←
          Parser.parseItems bound (opened.union leaf.ids)
            (level + 1) parser
        let child ← parser.joinItems items
        let (closing, parser) ← parser.readClosing leaf id
        let pair ←
          Node.pairOf (.bracket leaf) child closing
        let (rest, parser) ←
          Parser.parseItems bound opened level parser
        return (
          if pair.isEmptyList then rest else pair :: rest,
          parser)) := by
  rcases hInside with
    ⟨items, inner, inside, stop, next, hParse, hShows, hStuck,
      hAhead, hStops, hEnd⟩
  have hReady := hSound.ready_of_stuck hStuck
  have hRoomInside := hSound.room_of_reads hShows.reads
  have hRoomFirst := hSound.room_of_reads hFirst
  have hToTop :
      feed.Reads place
        (.bracket leaf id :: inside.leaves) stop :=
    hSound.reads_append hFirst hShows.reads
  rcases joinItems_spec hSound (hSound.isSome_old hReady)
      (by omega) hShows with
    ⟨child, hJoin, hShape, _, hChild⟩
  rw [hParse]
  simp only [bind, Except.bind, hJoin]
  rcases readClosing_spec hSound hReady hAhead hOpening
      hRegular with
    ⟨last, after, final, rfl, hRead, hLast, hMeets, hReads,
      hAfter⟩ | ⟨hRead, hOther⟩
  · rcases pairOf_spec id (some last) hSound hShape hChild
        (hSound.reads_append hToTop hReads) with
      ⟨pair, hPair, hProper, hHeight, hPairShape⟩
    have hRoomLast := hSound.room_of_reads hReads
    have hFound :
        feed.Shows opened level place [pair]
          (.pair (.bracket leaf id) inside
            (some (.bracket last.1 last.2)) .nil) final := by
      refine shows_pair hSound hOpening
        (hSound.opens_of_le hLevel) hFirst hShows hReads ?_
        hProper hHeight hPairShape
      rintro _ ⟨⟩
      exact ⟨by simpa [Token.isClosing] using hLast, hMeets,
        hEnd _ rfl⟩
    rw [Option.map_some] at hPair
    simp only [hRead, hPair]
    exact Parsed.cons hSound hFound ⟨rfl, trivial⟩
      (hRest after final hAfter (by omega))
  · rcases pairOf_spec id none hSound hShape
        hChild
        (by
          rw [Option.map_none, Option.toList_none,
            List.append_nil]
          exact hToTop) with
      ⟨pair, hPair, hProper, hHeight, hPairShape⟩
    have hFound :
        feed.Shows opened level place [pair]
          (.pair (.bracket leaf id) inside none .nil) stop :=
      shows_pair hSound hOpening (hSound.opens_of_le hLevel)
        hFirst hShows (hSound.reads_nil hReady) (by simp)
        hProper hHeight hPairShape
    have hOuter : Parser.stopsAt opened next = true := by
      cases next with
      | none => rfl
      | some token =>
          have hToken := hOther token rfl
          rw [Parser.stopsAt, Parser.closesOpen_eq,
            Bool.and_eq_true] at hStops
          rw [Parser.closesOpen_eq, hStops.1, Bool.true_and]
            at hToken
          rw [IdSet.intersects_union_right, hToken,
            Bool.or_false] at hStops
          rw [Parser.stopsAt, Parser.closesOpen_eq, hStops.1,
            hStops.2]
          rfl
    rcases parseItems_of_stuck level hSound
        (show 0 < bound by omega) hStuck hAhead hOuter with
      ⟨final, hFinal, hFinalStuck, hFinalAhead⟩
    rw [Option.map_none] at hPair
    simp only [hRead, hPair, hFinal,
      isEmptyList_of_isProper hProper]
    refine ⟨[pair], final, _, stop, next, rfl, hFound,
      hFinalStuck, hFinalAhead, hOuter, ?_⟩
    intro token hNext
    refine ⟨fun _ => ⟨?_, hEnd token hNext⟩, trivial⟩
    have hToken := hOther token hNext
    subst hNext
    rw [Parser.stopsAt, Parser.closesOpen_eq,
      Bool.and_eq_true] at hOuter
    rwa [Parser.closesOpen_eq, hOuter.1, Bool.true_and]
      at hToken

/-
  A parse is not refused, and what it makes shows what it
  read.
-/
theorem parsed_parseItems
    {bound : Nat}
    {opened : IdSet}
    {level : Nat}
    {parser : Parser}
    {place : Place}
    (hSound : feed.IsSound)
    (hReady : feed.Ready parser place)
    (hBound : feed.room place < bound) :
    feed.Parsed opened level place
      (Parser.parseItems bound opened level parser) := by
  induction bound generalizing opened level parser place with
  | zero => omega
  | succ bound ih =>
      rw [Parser.parseItems]
      rcases hSound.reuse hReady opened with
        ⟨behind, hReuse, hStuck⟩ |
        ⟨node, after, forest, stop, hReuse, hGives, hAfter⟩
      · rcases hSound.peek (hSound.ready_of_stuck hStuck) with
          ⟨next, ahead, hPeek, hAhead, hAheadReady, hKeeps⟩
        rw [hReuse]
        simp only [bind, Except.bind, hPeek]
        by_cases hStops :
            Parser.stopsAt opened next = true
        · rw [if_pos hStops]
          exact ⟨[], ahead, .nil, place, next, rfl,
            shows_nil hSound hAheadReady, hKeeps hStuck,
            hAhead, hStops, fun _ _ => trivial⟩
        · rw [if_neg hStops]
          cases next with
          | none => exact absurd rfl hStops
          | some token =>
              rw [Parser.stopsAt, Bool.not_eq_true] at hStops
              rcases hSound.read
                  (hSound.ready_count hAheadReady) hAhead with
                ⟨after, stop, hRead, hReads, hAfter⟩
              have hRoom := hSound.room_of_reads hReads
              rw [List.length_singleton] at hRoom
              simp only [hRead]
              cases token with
              | text length =>
                  exact Parsed.cons hSound
                    (shows_leaf rfl (by simp [Token.isOpening])
                      hReads) trivial (ih hAfter (by omega))
              | bracket leaf id =>
                  by_cases hOpening :
                      leaf.kind.isOpening = true
                  · by_cases hLevel :
                        Parser.maxNestingLevel < level
                    · simp only [hOpening, hLevel]
                      exact Parsed.cons hSound
                        (shows_leaf (by
                          simp [Token.isClosing, hOpening])
                          (fun _ =>
                            hSound.hides_of_lt hLevel)
                          hReads) trivial
                        (ih hAfter (by omega))
                    · simp only [hOpening, hLevel]
                      exact parsed_pair hSound hOpening
                        (Nat.not_lt.1 hLevel)
                        (hSound.regular hAheadReady hAhead)
                        hReads (hSound.room_lt hReady)
                        (ih hAfter (by omega))
                        (fun parser stop hReady hRoom =>
                          ih hReady hRoom) (by omega)
                  · have hClosing :
                        Token.isClosing (.bracket leaf id) =
                          true := by
                      simpa [Token.isClosing] using hOpening
                    simp only [hOpening]
                    rw [Parser.closesOpen_eq, hClosing,
                      Bool.true_and, IdSet.intersects_comm]
                      at hStops
                    exact Parsed.cons hSound
                      (shows_stray hClosing hStops hReads)
                      trivial (ih hAfter (by omega))
      · have hRoom := hSound.room_of_reads hGives.reads
        have hSome :=
          Forest.length_leaves_pos hGives.some
        rw [hReuse]
        exact Parsed.cons hSound hGives.shows hGives.closed
          (ih hAfter (by omega))

end Feed

end Bracketry

------------------------------------------------------------
-- Whole Trees
------------------------------------------------------------

namespace Bracketry

/- A proper tree, or the list of an empty text. -/
def Node.IsRoot
    (root : Node) :
    Prop :=
  root.IsProper ∨
    ∃ key, root = .list key 0 0 IdSet.empty []

theorem Node.length_of_isRoot
    {root : Node}
    {forest : Forest Token}
    (h : root.IsRoot)
    (hShape : root.shape = forest.shape) :
    root.length = forest.total := by
  rcases h with hProper | ⟨key, rfl⟩
  · exact length_eq_total hProper hShape
  · rcases Forest.shape_eq_nil.1 hShape.symm with rfl
    rfl

/- A parser in front of the text of an old tree. -/
def Parser.ofStream
    (stream : TokenStream)
    (map : PositionMap)
    (old : Option Node) :
    Parser :=
  { stream := stream
    old := old.map NodeReader.ofRoot
    map := map
    stats := ParseStats.none }

namespace Feed

variable {Place : Type} {feed : Feed Place}

/- The whole tree shows all tokens up to the end. -/
theorem parsed_root
    {stream : TokenStream}
    {edits : List Edit}
    {map : PositionMap}
    {old : Option Node}
    {place : Place}
    (hSound : feed.IsSound)
    (hMap : PositionMap.ofEdits edits = .ok map)
    (hReady :
      feed.Ready (Parser.ofStream stream map old) place)
    (hBound :
      feed.room place <
        (Parser.ofStream stream map old).itemBound) :
    ∃ root stats, ∃ forest : Forest Token, ∃ parser stop,
      parseDocument stream edits old = .ok (root, stats) ∧
        root.IsRoot ∧ root.shape = forest.shape ∧
        forest.IsMatched ∧
        forest.Nests feed.hides feed.opens 0 ∧
        feed.Reads place forest.leaves stop ∧
        feed.Ready parser stop ∧ parser.Ahead none := by
  have hParsed :
      feed.Parsed IdSet.empty 0 place
        (Parser.parseItems
          (Parser.ofStream stream map old).itemBound
          IdSet.empty 0 (Parser.ofStream stream map old)) :=
    parsed_parseItems hSound hReady hBound
  rcases hParsed with
    ⟨items, parser, forest, stop, next, hParse, hShows, hStuck,
      hAhead, hStops, _⟩
  have hParser := hSound.ready_of_stuck hStuck
  have hNext : next = none := by
    cases next with
    | none => rfl
    | some token =>
        rw [Parser.stopsAt, Parser.closesOpen_eq,
          IdSet.intersects_empty_right, Bool.and_false]
          at hStops
        cases hStops
  subst hNext
  rcases joinItems_spec hSound (hSound.isSome_old hParser)
      (hSound.room_lt hReady) hShows with
    ⟨root, hJoin, hShape, hNone, hProper⟩
  refine ⟨root.getD Node.emptyList, parser.stats, forest,
    parser, stop, ?_, ?_, ?_, hShows.matched, hShows.nests,
    hShows.reads, hParser, hAhead⟩
  · unfold parseDocument
    rw [hMap]
    simp only [bind, Except.bind]
    rw [← Parser.ofStream, hParse]
    simp only [hJoin]
    rfl
  · cases root with
    | none => exact .inr ⟨none, rfl⟩
    | some node => exact .inl (hProper node rfl)
  · rw [← hShape]
    cases root <;> rfl

end Feed

end Bracketry
