import Bracketry.Proofs.FromScratch
import Bracketry.Proofs.Parses

/-
  Scans that come upon a forest again.

  A parser without an old tree that stands in front of the
  leaves of a matched forest makes items that show it, and
  stands behind the leaves then.  Of the brackets that are
  open around it, only two things count: no stray bracket of
  the forest closes one of them, and a pair that the forest
  leaves open meets a bracket that closes something further
  out.  What comes behind does not count.

  Key definitions include:
    * `Token.AreSound`
    * `Feed.IsWithin`
    * `Feed.Begins`, `Feed.Retraces`
    * `Feed.EndsBefore`

  Main declarations:
    * `Feed.retraces_of_isMatched`
    * `Feed.exists_made_of_isClosed`
-/

------------------------------------------------------------
-- Steps of a Parse
------------------------------------------------------------

namespace Bracketry

namespace Parser

/- A token that opens no pair is an item of its own. -/
theorem parseItems_of_leafOf
    {opened : IdSet}
    {level : Nat}
    {parser next : Parser}
    {token : Token}
    {node : Node}
    (hReads : Reads opened parser (some token) next)
    (hLeaf : leafOf level (some token) = some node)
    (bound : Nat) :
    parser.parseItems (bound + 1) opened level =
      (do
        let (more, last) ←
          next.parseItems bound opened level
        return (withItem node more, last)) := by
  rcases hReads with
    ⟨unused, seen, ahead, hReuse, hPeek, hStops, hRead⟩
  rw [parseItems, hReuse]
  simp only [bind, Except.bind, hPeek, hStops, hRead]
  cases token with
  | text length =>
      rcases Option.some.inj hLeaf with rfl
      rfl
  | bracket leaf id =>
      rw [leafOf] at hLeaf
      split_ifs at hLeaf with hClosing hDeep
      · rcases Option.some.inj hLeaf with rfl
        simp [hClosing, withItem, pure, Except.pure]
      · rcases Option.some.inj hLeaf with rfl
        simp [hClosing, hDeep, withItem, pure, Except.pure]

/- An opening bracket is an item with what is inside. -/
theorem parseItems_of_pairOf
    {opened : IdSet}
    {level bound : Nat}
    {parser next inside closed : Parser}
    {leaf : Bracket}
    {id : Option Nat}
    {items : List Node}
    {child closing : Option Node}
    {node : Node}
    (hReads :
      Reads opened parser (some (.bracket leaf id)) next)
    (hOpening : leaf.kind.isOpening = true)
    (hLevel : level ≤ maxNestingLevel)
    (hInside :
      next.parseItems bound (opened.union leaf.ids)
        (level + 1) = .ok (items, inside))
    (hChild : inside.joinItems items = .ok child)
    (hClosing :
      inside.readClosing leaf id = .ok (closing, closed))
    (hNode :
      Node.pairOf (.bracket leaf) child closing = .ok node) :
    parser.parseItems (bound + 1) opened level =
      (do
        let (more, last) ←
          closed.parseItems bound opened level
        return (withItem node more, last)) := by
  rcases hReads with
    ⟨unused, seen, ahead, hReuse, hPeek, hStops, hRead⟩
  rw [parseItems, hReuse]
  simp only [bind, Except.bind, hPeek, hStops, hRead]
  simp [hOpening, Nat.not_lt.2 hLevel, hInside, hChild,
    hClosing, hNode, withItem, pure, Except.pure]

end Parser

end Bracketry

------------------------------------------------------------
-- Parsers within Tokens
------------------------------------------------------------

namespace Bracketry

/- Tokens of a language that a scan of a text can hold. -/
structure Token.AreSound
    (tokens : List Token) :
    Prop where
  regular : ∀ token ∈ tokens, token.IsRegular
  fits : Token.AllFit tokens
  few : tokens.length < 2 ^ 64

theorem Token.AreSound.isSound_scanned
    {tokens : List Token}
    (h : AreSound tokens) :
    (Feed.scanned tokens).IsSound :=
  Feed.isSound_scanned h.regular h.fits h.few

/- A part of such tokens is one too. -/
theorem Token.AreSound.part
    {before own behind : List Token}
    (h : AreSound (before ++ (own ++ behind))) :
    AreSound own where
  regular token hToken := h.regular token (by simp [hToken])
  fits := by
    rintro front back rfl
    have hFits := h.fits (before ++ front) (back ++ behind)
      (by simp)
    rw [Token.total_append] at hFits
    exact Length.fits_of_add hFits
  few := by
    have hFew := h.few
    simp only [List.length_append] at hFew
    omega

namespace Feed

/-
  A parser without an old tree stands among some tokens of a
  scan.  Others were read before them, and whatever comes
  behind them is not read.
-/
def IsWithin
    (before tokens behind : List Token)
    (parser : Parser)
    (ahead : List Token) :
    Prop :=
  parser.old = none ∧
    ∃ front length,
      tokens = front ++ ahead ∧
        parser.stream =
          ⟨.scanned (ahead ++ behind) length,
            Token.total (before ++ front)⟩

variable {before tokens behind : List Token}

/- A scan stands in front of any part of what is ahead. -/
theorem IsScanning.exists_isWithin
    {others : List Token}
    {parser : Parser}
    (h : IsScanning others parser (tokens ++ behind)) :
    ∃ before,
      others = before ++ (tokens ++ behind) ∧
        parser.stream.offset = Token.total before ∧
        IsWithin before tokens behind parser tokens := by
  rcases h with ⟨hOld, before, length, hOthers, hStream⟩
  exact ⟨before, hOthers, by rw [hStream], hOld, [], length,
    rfl, by rw [hStream, List.append_nil]⟩

/- At the end of the part, it scans what is behind. -/
theorem IsWithin.isScanning
    {parser : Parser}
    (h : IsWithin before tokens behind parser []) :
    IsScanning (before ++ (tokens ++ behind)) parser behind := by
  rcases h with ⟨hOld, front, length, hTokens, hStream⟩
  rw [List.append_nil] at hTokens
  subst hTokens
  exact ⟨hOld, before ++ tokens, length,
    (List.append_assoc _ _ _).symm, hStream⟩

/- It has nothing to use again. -/
theorem IsWithin.reuse?_eq
    {parser : Parser}
    {ahead : List Token}
    (h : IsWithin before tokens behind parser ahead)
    (opened : IdSet) :
    parser.reuse? opened = .ok (none, parser) := by
  rw [Parser.reuse?, h.1]

/- It looks at the next of the tokens. -/
theorem IsWithin.ahead
    {parser : Parser}
    {ahead : List Token}
    (h : IsWithin before tokens behind parser ahead) :
    parser.Ahead (ahead ++ behind).head? := by
  rcases h with ⟨_, front, length, _, hStream⟩
  rw [Parser.Ahead, hStream]
  rfl

/- The tokens ahead can be read. -/
theorem IsWithin.reads
    {parser : Parser}
    (part : List Token)
    {ahead : List Token}
    (h : IsWithin before tokens behind parser (part ++ ahead)) :
    (scanned tokens).Reads (part ++ ahead) part ahead := by
  rcases h with ⟨_, front, _, hTokens, _⟩
  exact ⟨rfl, front, hTokens⟩

theorem IsWithin.mem
    {parser : Parser}
    {token : Token}
    {ahead : List Token}
    (h : IsWithin before tokens behind parser (token :: ahead)) :
    token ∈ tokens := by
  rcases h with ⟨_, front, _, rfl, _⟩
  simp

theorem IsWithin.length_lt
    {parser : Parser}
    {ahead : List Token}
    (hTokens : Token.AreSound tokens)
    (h : IsWithin before tokens behind parser ahead) :
    ahead.length < 2 ^ 64 := by
  rcases h with ⟨_, front, _, rfl, _⟩
  have hFew := hTokens.few
  rw [List.length_append] at hFew
  omega

/- A token whose end fits is read. -/
theorem IsWithin.exists_read
    {parser : Parser}
    {token : Token}
    {ahead : List Token}
    (hFits : Token.FitFrom (Token.total before) tokens)
    (h : IsWithin before tokens behind parser (token :: ahead)) :
    ∃ next,
      parser.read = .ok (some token, next) ∧
        IsWithin before tokens behind next ahead := by
  rcases h with ⟨hOld, front, length, hTokens, hStream⟩
  have hFit := hFits (front ++ [token]) ahead
    (by simp [hTokens])
  rw [← Token.total_append, ← List.append_assoc,
    Token.total_append, Token.total_cons, Token.total_nil,
    add_zero] at hFit
  have hRead :
      parser.stream.read =
        .ok (some token, ⟨.scanned (ahead ++ behind) length,
          Token.total (before ++ front) + token.length⟩) := by
    rw [hStream]
    exact TokenStream.passed_eq _ _ hFit
  refine ⟨{ parser with stream :=
    ⟨.scanned (ahead ++ behind) length,
      Token.total (before ++ front) + token.length⟩ }, ?_,
    hOld, front ++ [token], length, by simp [hTokens], ?_⟩
  · rw [Parser.read, hRead]
    rfl
  · simp [add_assoc]

/- It stops before a bracket that closes an open id. -/
theorem IsWithin.parseItems_of_stopsAt
    {parser : Parser}
    {ahead : List Token}
    {opened : IdSet}
    (h : IsWithin before tokens behind parser ahead)
    (hStops :
      Parser.stopsAt opened (ahead ++ behind).head? = true)
    (bound level : Nat) :
    parser.parseItems (bound + 1) opened level =
      .ok ([], parser) := by
  rw [Parser.parseItems, h.reuse?_eq]
  simp only [bind, Except.bind, Parser.peek_of_ahead h.ahead,
    hStops, if_true]
  rfl

/- Before other tokens, it reads the next. -/
theorem IsWithin.exists_reads
    {parser : Parser}
    {token : Token}
    {ahead : List Token}
    {opened : IdSet}
    (hFits : Token.FitFrom (Token.total before) tokens)
    (h : IsWithin before tokens behind parser (token :: ahead))
    (hStops : Parser.closesOpen opened token = false) :
    ∃ next,
      Parser.Reads opened parser (some token) next ∧
        IsWithin before tokens behind next ahead := by
  have hCounted :
      IsWithin before tokens behind parser.countConstructed
        (token :: ahead) :=
    h
  rcases hCounted.exists_read hFits with ⟨next, hRead, hNext⟩
  exact ⟨next, ⟨parser, parser, some token,
    h.reuse?_eq opened, Parser.peek_of_ahead h.ahead, hStops,
    hRead⟩, hNext⟩

/-
  The bracket behind an inside is read if it closes the pair;
  another one is not.
-/
theorem IsWithin.exists_readClosing
    {parser : Parser}
    {ahead : List Token}
    {leaf : Bracket}
    {id : Option Nat}
    {inside : Forest Token}
    {closing : Option Token}
    {next : Token}
    (hTokens : Token.AreSound tokens)
    (hFits : Token.FitFrom (Token.total before) tokens)
    (h :
      IsWithin before tokens behind parser
        (closing.toList ++ ahead))
    (hNext : (closing.toList ++ ahead).head? = some next)
    (hOpening : leaf.kind.isOpening = true)
    (hRegular : Token.IsRegular (.bracket leaf id))
    (hCloses :
      ∀ token, closing = some token →
        Forest.Closes (.bracket leaf id) token inside)
    (hOpen :
      closing = none →
        Parser.closesOpen leaf.ids next = false) :
    ∃ last : Option (Bracket × Option Nat), ∃ after,
      closing = (last.map fun last =>
          Token.bracket last.1 last.2) ∧
        parser.readClosing leaf id =
          .ok (last.map fun last => .bracket last.1,
            after) ∧
        IsWithin before tokens behind after ahead := by
  rcases List.head?_eq_some_iff.1 hNext with ⟨rest, hRest⟩
  have hWithin := h
  rw [hRest] at hWithin
  have hPeek := Parser.peek_of_ahead hWithin.ahead
  have hSame :
      Parser.closes leaf id next =
        Parser.closesOpen leaf.ids next := by
    rw [Parser.closesOpen_eq]
    exact Parser.closes_eq hOpening hRegular
      (hTokens.regular next hWithin.mem)
  rw [Parser.readClosing, hPeek]
  cases closing with
  | none =>
      have hNot := hSame.trans (hOpen rfl)
      refine ⟨none, parser, rfl, ?_, h⟩
      cases next with
      | text length => rfl
      | bracket other otherId =>
          simp only [bind, Except.bind, List.cons_append,
            List.head?_cons, hNot]
          rfl
  | some token =>
      rcases Option.some.inj hNext with rfl
      rcases hCloses token rfl with ⟨hClosing, hMeets, _⟩
      have hYes : Parser.closes leaf id token = true := by
        rw [hSame, Parser.closesOpen_eq,
          show token.isClosing = true from hClosing,
          show token.ids.intersects leaf.ids = true
          from hMeets, Bool.and_true]
      rcases h.exists_read hFits with ⟨after, hRead, hAfter⟩
      cases token with
      | text length => cases hClosing
      | bracket other otherId =>
          refine ⟨some (other, otherId), after, rfl, ?_,
            hAfter⟩
          simp only [bind, Except.bind, List.cons_append,
            List.head?_cons, hYes, if_true, hRead]
          rfl

end Feed

end Bracketry

------------------------------------------------------------
-- Items
------------------------------------------------------------

namespace Bracketry

namespace Feed

/-
  The first item that a parser makes shows a forest, and the
  next parser makes those behind it.
-/
def Begins
    (before tokens behind : List Token)
    (opened : IdSet)
    (level : Nat)
    (parser : Parser)
    (first : Forest Token)
    (ahead : List Token) :
    Prop :=
  ∃ node next,
    (scanned tokens).Shows opened level
        (first.leaves ++ ahead) [node] first ahead ∧
      IsWithin before tokens behind next ahead ∧
      ∀ bound, first.leaves.length ≤ bound →
        parser.parseItems (bound + 1) opened level =
          (do
            let (more, last) ←
              next.parseItems bound opened level
            return (node :: more, last))

/-
  The first items that a parser makes show a forest, and a
  parser behind its leaves makes the others.
-/
def Retraces
    (before tokens behind : List Token)
    (opened : IdSet)
    (level : Nat)
    (parser : Parser)
    (forest : Forest Token)
    (ahead : List Token) :
    Prop :=
  ∃ made next,
    (scanned tokens).Shows opened level
        (forest.leaves ++ ahead) made forest ahead ∧
      IsWithin before tokens behind next ahead ∧
      made.length ≤ forest.leaves.length ∧
      ∀ bound, forest.leaves.length < made.length + bound →
        parser.parseItems (made.length + bound) opened level =
          (do
            let (more, last) ←
              next.parseItems bound opened level
            return (made ++ more, last))

variable {before tokens behind : List Token}

/- What was read is shown by a node, so it is an item. -/
theorem Shows.withItem_eq
    {opened : IdSet}
    {level : Nat}
    {place stop : List Token}
    {node : Node}
    {forest : Forest Token}
    (h :
      (scanned tokens).Shows opened level place [node] forest
        stop)
    (more : List Node) :
    Parser.withItem node more = node :: more := by
  have hProper := h.proper node (List.mem_singleton.2 rfl)
  rw [Parser.withItem, isEmptyList_of_isProper hProper]
  rfl

/- Text, or a bracket that is too deep. -/
theorem begins_leaf
    {opened : IdSet}
    {level : Nat}
    {parser : Parser}
    {token : Token}
    {ahead : List Token}
    (hFits : Token.FitFrom (Token.total before) tokens)
    (hWithin :
      IsWithin before tokens behind parser (token :: ahead))
    (hClosing : token.isClosing = false)
    (hHides :
      token.isOpening = true →
        Parser.maxNestingLevel < level) :
    Begins before tokens behind opened level parser
      (.leaf token .nil) ahead := by
  have hPasses : Parser.closesOpen opened token = false := by
    rw [Parser.closesOpen_eq, hClosing, Bool.false_and]
  rcases hWithin.exists_reads hFits hPasses with
    ⟨next, hReads, hNext⟩
  have hLeaf :
      Parser.leafOf level (some token) =
        some (Node.textOf token.length) := by
    cases token with
    | text length => rfl
    | bracket leaf id =>
        have hOpening : leaf.kind.isOpening = true := by
          simpa [Token.isClosing] using hClosing
        simp [Parser.leafOf, hOpening, hHides hOpening,
          Token.length]
  have hShows :
      (scanned tokens).Shows opened level
        ([token] ++ ahead) [Node.textOf token.length]
        (.leaf token .nil) ahead :=
    shows_leaf hClosing hHides (hWithin.reads [token])
  refine ⟨_, next, hShows, hNext, fun bound _ => ?_⟩
  rw [Parser.parseItems_of_leafOf hReads hLeaf]
  simp only [hShows.withItem_eq]

/- A closing bracket that closes nothing open. -/
theorem begins_stray
    {opened : IdSet}
    {level : Nat}
    {parser : Parser}
    {token : Token}
    {ahead : List Token}
    (hFits : Token.FitFrom (Token.total before) tokens)
    (hWithin :
      IsWithin before tokens behind parser (token :: ahead))
    (hClosing : token.isClosing = true)
    (hAvoids : opened.intersects token.ids = false) :
    Begins before tokens behind opened level parser
      (.stray token .nil) ahead := by
  have hPasses : Parser.closesOpen opened token = false := by
    rw [Parser.closesOpen_eq, IdSet.intersects_comm, hAvoids,
      Bool.and_false]
  rcases hWithin.exists_reads hFits hPasses with
    ⟨next, hReads, hNext⟩
  have hLeaf :
      Parser.leafOf level (some token) =
        some (Node.invalidOf token.ids token.length) := by
    cases token with
    | text length => cases hClosing
    | bracket leaf id => exact if_pos hClosing
  have hShows :
      (scanned tokens).Shows opened level
        ([token] ++ ahead)
        [Node.invalidOf token.ids token.length]
        (.stray token .nil) ahead :=
    shows_stray hClosing hAvoids (hWithin.reads [token])
  refine ⟨_, next, hShows, hNext, fun bound _ => ?_⟩
  rw [Parser.parseItems_of_leafOf hReads hLeaf]
  simp only [hShows.withItem_eq]

/- A forest that is made again up to where the items stop. -/
theorem Retraces.exists_parseItems
    {opened : IdSet}
    {level : Nat}
    {parser : Parser}
    {forest : Forest Token}
    {ahead : List Token}
    (h :
      Retraces before tokens behind opened level parser forest
        ahead)
    (hStops :
      Parser.stopsAt opened (ahead ++ behind).head? = true) :
    ∃ made next,
      (scanned tokens).Shows opened level
          (forest.leaves ++ ahead) made forest ahead ∧
        IsWithin before tokens behind next ahead ∧
        ∀ bound, forest.leaves.length < bound →
          parser.parseItems bound opened level =
            .ok (made, next) := by
  rcases h with ⟨made, next, hShows, hNext, hFew, hParse⟩
  refine ⟨made, next, hShows, hNext, fun bound hBound => ?_⟩
  -- What is left of the bound is enough to see the stop.
  have hMore :
      ∃ more, bound = made.length + (more + 1) :=
    ⟨bound - made.length - 1, by omega⟩
  rcases hMore with ⟨more, rfl⟩
  rw [hParse (more + 1) hBound,
    hNext.parseItems_of_stopsAt hStops]
  simp [bind, Except.bind, pure, Except.pure]

/-
  A pair around a forest that is made again.  What is inside
  stops before the closing bracket, or before the bracket
  that leaves the pair open.
-/
theorem begins_pair
    {opened : IdSet}
    {level : Nat}
    {parser : Parser}
    {opening next : Token}
    {inside : Forest Token}
    {closing : Option Token}
    {ahead : List Token}
    (hTokens : Token.AreSound tokens)
    (hFits : Token.FitFrom (Token.total before) tokens)
    (hWithin :
      IsWithin before tokens behind parser
        (opening ::
          (inside.leaves ++ (closing.toList ++ ahead))))
    (hOpening : opening.isOpening = true)
    (hLevel : level ≤ Parser.maxNestingLevel)
    (hInside :
      ∀ first,
        IsWithin before tokens behind first
            (inside.leaves ++ (closing.toList ++ ahead)) →
          Retraces before tokens behind
            (opened.union opening.ids) (level + 1) first
            inside (closing.toList ++ ahead))
    (hNext : (closing.toList ++ ahead).head? = some next)
    (hStops :
      Parser.closesOpen (opened.union opening.ids) next = true)
    (hCloses :
      ∀ token, closing = some token →
        Forest.Closes opening token inside)
    (hOpen :
      closing = none →
        Parser.closesOpen opening.ids next = false) :
    Begins before tokens behind opened level parser
      (.pair opening inside closing .nil) ahead := by
  have hSound := hTokens.isSound_scanned
  have hRegular := hTokens.regular opening hWithin.mem
  have hPasses : Parser.closesOpen opened opening = false := by
    rw [Parser.closesOpen_eq,
      Token.isClosing_of_isOpening hOpening, Bool.false_and]
  rcases hWithin.exists_reads hFits hPasses with
    ⟨first, hReads, hFirst⟩
  have hStop :
      Parser.stopsAt (opened.union opening.ids)
        (closing.toList ++ ahead ++ behind).head? = true := by
    rw [List.head?_append, hNext]
    exact hStops
  rcases (hInside first hFirst).exists_parseItems hStop with
    ⟨items, inner, hShows, hInner, hParse⟩
  rcases joinItems_spec hSound
      (show inner.old.isSome = false by rw [hInner.1]; rfl)
      (hFirst.length_lt hTokens) hShows with
    ⟨child, hJoin, hShape, _, hChild⟩
  cases opening with
  | text length => cases hOpening
  | bracket leaf id =>
      rcases hInner.exists_readClosing hTokens hFits hNext
          hOpening hRegular hCloses hOpen with
        ⟨last, after, rfl, hRead, hAfter⟩
      have hAll := IsWithin.reads
        (.bracket leaf id :: (inside.leaves ++
          (last.map fun last =>
            Token.bracket last.1 last.2).toList))
        (by simpa using hWithin)
      rcases pairOf_spec id last hSound hShape hChild hAll with
        ⟨pair, hPair, hProper, hHeight, hPairShape⟩
      have hPairShows :=
        shows_pair hSound hOpening hLevel
          (hWithin.reads [.bracket leaf id]) hShows
          (hInner.reads _) hCloses hProper hHeight
          hPairShape
      refine ⟨pair, after, ?_, hAfter, fun bound hBound => ?_⟩
      · simpa [Forest.leaves] using hPairShows
      have hItems := hParse bound (by
        rw [Forest.leaves, List.length_cons,
          List.length_append] at hBound
        omega)
      rw [Parser.parseItems_of_pairOf hReads hOpening hLevel
        hItems hJoin hRead hPair]
      simp only [hPairShows.withItem_eq]

/- One item before others, when it closes what it opens. -/
theorem Begins.cons
    {opened : IdSet}
    {level : Nat}
    {parser : Parser}
    {first rest : Forest Token}
    {ahead : List Token}
    (hTokens : Token.AreSound tokens)
    (hFirst :
      Begins before tokens behind opened level parser first
        (rest.leaves ++ ahead))
    (hSome : first ≠ .nil)
    (hClosed : first.IsClosed)
    (hRest :
      ∀ next,
        IsWithin before tokens behind next
            (rest.leaves ++ ahead) →
          Retraces before tokens behind opened level next rest
            ahead) :
    Retraces before tokens behind opened level parser
      (first ++ rest) ahead := by
  rcases hFirst with ⟨node, next, hNode, hNext, hParseNode⟩
  rcases hRest next hNext with
    ⟨made, last, hMade, hLast, hFew, hParseMade⟩
  have hPos := Forest.length_leaves_pos hSome
  have hShows :=
    hNode.cons hTokens.isSound_scanned hClosed hMade
  rw [Retraces, Forest.leaves_append, List.append_assoc]
  refine ⟨node :: made, last, hShows, hLast, ?_,
    fun bound hBound => ?_⟩
  · rw [List.length_cons, List.length_append]
    omega
  · rw [List.length_cons, List.length_append] at hBound
    rw [List.length_cons,
      show made.length + 1 + bound =
        made.length + bound + 1 by omega,
      hParseNode _ (by omega), hParseMade _ (by omega)]
    cases last.parseItems bound opened level <;> rfl

/- One item that has none behind it. -/
theorem Begins.retraces
    {opened : IdSet}
    {level : Nat}
    {parser : Parser}
    {forest : Forest Token}
    {ahead : List Token}
    (hSome : forest ≠ .nil)
    (h :
      Begins before tokens behind opened level parser forest
        ahead) :
    Retraces before tokens behind opened level parser forest
      ahead := by
  rcases h with ⟨node, next, hNode, hNext, hParse⟩
  have hPos := Forest.length_leaves_pos hSome
  refine ⟨[node], next, hNode, hNext, hPos,
    fun bound hBound => ?_⟩
  rw [List.length_singleton] at hBound ⊢
  rw [Nat.add_comm, hParse bound (by omega)]
  rfl

/- No items show the forest of no tokens. -/
theorem retraces_nil
    {opened : IdSet}
    {level : Nat}
    {parser : Parser}
    {ahead : List Token}
    (hWithin : IsWithin before tokens behind parser ahead) :
    Retraces before tokens behind opened level parser .nil
      ahead := by
  have hShows :
      (scanned tokens).Shows opened level ahead [] .nil ahead :=
    { shape := rfl
      proper := by simp
      flat := by simp
      matched := trivial
      avoids := trivial
      nests := trivial
      reads := hWithin.reads [] }
  refine ⟨[], parser, hShows, hWithin, Nat.le_refl _,
    fun bound _ => ?_⟩
  rw [List.length_nil, Nat.zero_add]
  cases parser.parseItems bound opened level <;> rfl

end Feed

end Bracketry

------------------------------------------------------------
-- Forests That Are Made Again
------------------------------------------------------------

namespace Bracketry

namespace Feed

variable {before tokens behind : List Token}

theorem closesOpen_union
    (a b : IdSet)
    (token : Token) :
    Parser.closesOpen (a.union b) token =
      (Parser.closesOpen a token ||
        Parser.closesOpen b token) := by
  simp only [Parser.closesOpen_eq,
    IdSet.intersects_union_right, Bool.and_or_distrib_left]

/-
  A forest closes what it opens, or the next bracket closes
  something further out.
-/
def EndsBefore
    (opened : IdSet)
    (forest : Forest Token)
    (ahead : List Token) :
    Prop :=
  forest.IsClosed ∨
    ∃ token, ahead.head? = some token ∧
      Parser.closesOpen opened token = true ∧
        forest.EndAvoids token.ids

theorem EndsBefore.rest
    {opened : IdSet}
    {opening : Token}
    {inside rest : Forest Token}
    {closing : Option Token}
    {ahead : List Token}
    (h :
      EndsBefore opened
        (.pair opening inside closing rest) ahead) :
    EndsBefore opened rest ahead := by
  rcases h with hClosed | ⟨token, hToken, hCloses, hEnd⟩
  · exact .inl hClosed.2
  · exact .inr ⟨token, hToken, hCloses, hEnd.2⟩

/-
  Behind the inside of a pair stands a bracket that closes
  the pair or something further out.
-/
theorem EndsBefore.inside
    {opened : IdSet}
    {opening : Token}
    {inside rest : Forest Token}
    {closing : Option Token}
    {ahead : List Token}
    (hMatched :
      (Forest.pair opening inside closing rest).IsMatched)
    (h :
      EndsBefore opened
        (.pair opening inside closing rest) ahead) :
    ∃ token,
      (closing.toList ++ (rest.leaves ++ ahead)).head? =
          some token ∧
        Parser.closesOpen (opened.union opening.ids) token =
          true ∧
        inside.EndAvoids token.ids ∧
        (closing = none →
          Parser.closesOpen opening.ids token = false) := by
  rcases hMatched with ⟨_, _, _, hCloses, _⟩
  cases closing with
  | none =>
      subst hCloses
      rcases h with hClosed | ⟨token, hToken, hOuter, hEnd, _⟩
      · cases hClosed.1
      · rcases hEnd rfl with ⟨hMisses, hInside⟩
        refine ⟨token, hToken, ?_, hInside, fun _ => ?_⟩
        · rw [closesOpen_union, hOuter, Bool.true_or]
        · rw [Parser.closesOpen_eq,
            show token.ids.intersects opening.ids = false
            from hMisses, Bool.and_false]
  | some last =>
      rcases hCloses with ⟨hClosing, hMeets, hInside⟩
      refine ⟨last, rfl, ?_, hInside, by simp⟩
      rw [closesOpen_union, Parser.closesOpen_eq opening.ids,
        show last.isClosing = true from hClosing,
        show last.ids.intersects opening.ids = true
        from hMeets, Bool.and_true, Bool.or_true]

/-
  A parser in front of the leaves of a matched forest makes
  the forest again, if no stray bracket of it closes what is
  open and its end is where it has to be.
-/
theorem retraces_of_isMatched
    {opened : IdSet}
    {level : Nat}
    {parser : Parser}
    {forest : Forest Token}
    {ahead : List Token}
    (hTokens : Token.AreSound tokens)
    (hFits : Token.FitFrom (Token.total before) tokens)
    (hMatched : forest.IsMatched)
    (hAvoids : forest.Avoids opened)
    (hDeep : forest.IsDeepFrom level)
    (hEnds : EndsBefore opened forest ahead)
    (hWithin :
      IsWithin before tokens behind parser
        (forest.leaves ++ ahead)) :
    Retraces before tokens behind opened level parser forest
      ahead := by
  induction forest generalizing opened level parser ahead with
  | nil => exact retraces_nil hWithin
  | leaf token rest ih =>
      have hFirst :
          Begins before tokens behind opened level parser
            (.leaf token .nil) (rest.leaves ++ ahead) :=
        begins_leaf hFits hWithin hMatched.1 hDeep.1
      refine hFirst.cons hTokens (by simp) trivial
        fun next hNext => ?_
      exact ih hMatched.2 hAvoids hDeep.2 hEnds hNext
  | stray token rest ih =>
      have hFirst :
          Begins before tokens behind opened level parser
            (.stray token .nil) (rest.leaves ++ ahead) :=
        begins_stray hFits hWithin hMatched.1 hAvoids.1
      refine hFirst.cons hTokens (by simp) trivial
        fun next hNext => ?_
      exact ih hMatched.2 hAvoids.2 hDeep hEnds hNext
  | pair opening inside closing rest ihInside ih =>
      rcases hEnds.inside hMatched with
        ⟨token, hToken, hStops, hEnd, hOpen⟩
      rcases hMatched with
        ⟨hOpening, hInside, hOwn, hCloses, hRest⟩
      rcases hDeep with ⟨hLevel, hDeepInside, hDeepRest⟩
      have hEndsInside :
          EndsBefore (opened.union opening.ids) inside
            (closing.toList ++ (rest.leaves ++ ahead)) :=
        .inr ⟨token, hToken, hStops, hEnd⟩
      have hFirst :
          Begins before tokens behind opened level parser
            (.pair opening inside closing .nil)
            (rest.leaves ++ ahead) := by
        refine begins_pair hTokens hFits ?_ hOpening hLevel
          (fun next hNext =>
            ihInside hInside
              (Forest.avoids_union.2 ⟨hAvoids.1, hOwn⟩)
              hDeepInside hEndsInside hNext)
          hToken hStops ?_ hOpen
        · simpa [Forest.leaves] using hWithin
        · rintro token rfl
          exact hCloses
      cases closing with
      | none =>
          subst hCloses
          exact hFirst.retraces (by simp)
      | some t =>
          have hClosed :
              (Forest.pair opening inside (some t)
                .nil).IsClosed :=
            ⟨rfl, trivial⟩
          refine hFirst.cons hTokens (by simp) hClosed
            fun next hNext => ?_
          exact ih hRest hAvoids.2 hDeepRest hEnds.rest hNext

/-
  A scan in front of the leaves of a closed forest makes the
  forest, whatever comes behind, and scans that then.
-/
theorem exists_made_of_isClosed
    {others : List Token}
    {opened : IdSet}
    {level : Nat}
    {parser : Parser}
    {forest : Forest Token}
    (hTokens : Token.AreSound forest.leaves)
    (hFits :
      Token.FitFrom parser.stream.offset forest.leaves)
    (hMatched : forest.IsMatched)
    (hClosed : forest.IsClosed)
    (hAvoids : forest.Avoids opened)
    (hDeep : forest.IsDeepFrom level)
    (hScan :
      IsScanning others parser (forest.leaves ++ behind)) :
    ∃ made next,
      (∀ item ∈ made, item.IsProper) ∧
        forest.shape = Node.shapeOfAll made ∧
        IsScanning others next behind ∧
        made.length ≤ forest.leaves.length ∧
        ∀ bound,
          forest.leaves.length < made.length + bound →
            parser.parseItems (made.length + bound) opened
                level =
              (do
                let (more, last) ←
                  next.parseItems bound opened level
                return (made ++ more, last)) := by
  rcases hScan.exists_isWithin with
    ⟨before, rfl, hOffset, hWithin⟩
  rw [hOffset] at hFits
  have hAll :
      IsWithin before forest.leaves behind parser
        (forest.leaves ++ []) := by
    rwa [List.append_nil]
  rcases retraces_of_isMatched hTokens hFits hMatched hAvoids
      hDeep (.inl hClosed) hAll with
    ⟨made, next, hMade, hNext, hFew, hParse⟩
  exact ⟨made, next, hMade.proper, hMade.shape,
    hNext.isScanning, hFew, hParse⟩

end Feed

end Bracketry
