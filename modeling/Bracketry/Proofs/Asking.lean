import Bracketry.Index.Offset
import Bracketry.Proofs.Recalling

/-
  Queries do not change later answers.

  A query leaves all of a session but what is remembered of
  indentations, and whether the index is marked dirty.  An
  answer could only depend on the memory.  It does not where
  it needs no indentations, and it does not where no pair of
  the tree is nested too deeply for a query: what is
  remembered then is what would be computed again.

  Key definitions include:
    * `Session.Query`, `Session.ask`
    * `Session.Reaches`

  Main declarations:
    * `Index.agree_ask`
    * `Session.ask_of_askAll`
-/

------------------------------------------------------------
-- Queries
------------------------------------------------------------

namespace Bracketry

namespace Session

/-
  What a session can be asked.  A visit is given a function
  of the records so far that tells whether it goes on.
-/
inductive Query where
  | brackets (query : BracketQuery)
  | visitBrackets
    (query : BracketQuery)
    (visit : Visitor BracketInfo (List BracketInfo))
  | pairs (window : Range) (withIndentation : Bool)
  | visitPairs
    (window : Range)
    (withIndentation : Bool)
    (visit : Visitor PairInfo (List PairInfo))
  | before (position : Position)
  | after (position : Position)
  | matchAt (position : Position)
  | enclosing (position : Position)
  | pairedAt (offset : Nat)
  | pairedIn (left right : Position)

namespace Query

/- What is answered. -/
def Answer : Query → Type
  | .brackets _ => List BracketInfo
  | .visitBrackets _ _ => Option (Flow (List BracketInfo))
  | .pairs _ _ => List PairInfo
  | .visitPairs _ _ _ => Option (Flow (List PairInfo))
  | .before _ => Option FoundBracket
  | .after _ => Option FoundBracket
  | .matchAt _ => Option BracketMatch
  | .enclosing _ => Option (Range × Range)
  | .pairedAt _ => Option PairedBracket
  | .pairedIn _ _ => List PairedBracket

/- The answer tells indentations. -/
def wantsIndentation : Query → Bool
  | .pairs _ withIndentation => withIndentation
  | .visitPairs _ withIndentation _ => withIndentation
  | _ => false

end Query

end Session

/- Answer a query from the current tree. -/
def Index.ask
    (index : Index)
    (live : Option Nat) :
    (query : Session.Query) → Checked (query.Answer × Index)
  | .brackets query => index.brackets live query
  | .visitBrackets query visit =>
      index.visitBrackets live query visit []
  | .pairs window withIndentation =>
      index.pairs live window withIndentation
  | .visitPairs window withIndentation visit =>
      index.visitPairs live window withIndentation visit []
  | .before position => index.bracketBefore? live position
  | .after position => index.bracketAfter? live position
  | .matchAt position => index.matchAt? live position
  | .enclosing position => index.enclosing? live position
  | .pairedAt offset => index.pairedAt? live offset
  | .pairedIn left right => index.pairedIn live left right

namespace Session

/- Answer a query about the document as it is. -/
def ask
    (session : Session)
    (query : Query) :
    Checked (query.Answer × Session) := do
  let (answer, index) ←
    session.index.ask session.liveVersion query
  return (answer, { session with index := index })

/- Ask one query after the other. -/
def askAll
    (queries : List Query)
    (session : Session) :
    Checked Session :=
  queries.foldlM
    (fun session query => do
      let (_, session) ← session.ask query
      return session)
    session

end Session

end Bracketry

------------------------------------------------------------
-- Answers That Agree
------------------------------------------------------------

namespace Bracketry

namespace Index

/-
  One index is another, but for what is remembered and for
  whether it is marked dirty.
-/
def IsLike
    (a b : Index) :
    Prop :=
  b = { a with cache := b.cache, isDirty := b.isDirty }

/- The same answer from indexes alike, with good memories. -/
def AlikeAnswers
    {α : Type}
    (origin : Index)
    (Good : IndentationCache → Prop)
    (a b : α × Index) :
    Prop :=
  a.1 = b.1 ∧ (origin.IsLike a.2 ∧ Good a.2.cache) ∧
    origin.IsLike b.2 ∧ Good b.2.cache

variable {α : Type} {origin a b : Index}
variable {Good : IndentationCache → Prop}

theorem IsLike.refl
    (index : Index) :
    index.IsLike index :=
  rfl

/- Questions to the current tree have answers that agree. -/
theorem agree_whenCurrent
    {live : Option Nat}
    {ask : Index → Node → Checked (α × Index)}
    (hA : origin.IsLike a)
    (hB : origin.IsLike b)
    (hGoodA : Good a.cache)
    (hGoodB : Good b.cache)
    (hAsk :
      ∀ root, origin.current? = some root →
        Checked.Agree (AlikeAnswers origin Good) (ask a root)
          (ask b root)) :
    Checked.Agree (AlikeAnswers origin Good)
      (a.whenCurrent live ask) (b.whenCurrent live ask) := by
  have hTreeA : a.current? = origin.current? := by
    rw [hA]
    rfl
  have hTreeB : b.current? = origin.current? := by
    rw [hB]
    rfl
  have hVersionA : a.version = origin.version := by rw [hA]
  have hVersionB : b.version = origin.version := by rw [hB]
  unfold whenCurrent
  rw [hTreeA, hTreeB, hVersionA, hVersionB]
  cases hRoot : origin.current? with
  | none => exact .ok ⟨rfl, ⟨hA, hGoodA⟩, hB, hGoodB⟩
  | some root =>
      simp only
      split_ifs
      · refine (hAsk root hRoot).bind ?_
        rintro ⟨x, first⟩ ⟨_, second⟩ - - ⟨rfl, hAlike⟩
        exact .ok ⟨rfl, hAlike⟩
      · refine .ok ⟨rfl, ⟨?_, hGoodA⟩, ?_, hGoodB⟩
        · rw [IsLike, hA]
        · rw [IsLike, hB]

/- Questions that only read the tree do agree. -/
theorem agree_whenCurrentPure
    {live : Option Nat}
    (ask : Node → Checked α)
    (hA : origin.IsLike a)
    (hB : origin.IsLike b)
    (hGoodA : Good a.cache)
    (hGoodB : Good b.cache) :
    Checked.Agree (AlikeAnswers origin Good)
      (a.whenCurrentPure live ask)
      (b.whenCurrentPure live ask) := by
  apply agree_whenCurrent hA hB hGoodA hGoodB
  intro root _
  refine (Checked.Agree.refl (ask root)).bind ?_
  rintro answer _ - - rfl
  exact .ok ⟨rfl, ⟨hA, hGoodA⟩, hB, hGoodB⟩

/-
  Walks through the current tree go alike with all good
  memories.
-/
def Foresees
    (index : Index)
    (Good : IndentationCache → Prop)
    (withIndentation : Bool) :
    Prop :=
  ∀ root, index.current? = some root →
    ∃ Fits,
      Node.AllowsWalks
          (if withIndentation then index.content else none)
          Good Fits ∧
        Fits 0 root

/- Walks that compute no indentations do. -/
theorem foresees_false
    (index : Index)
    (Good : IndentationCache → Prop) :
    index.Foresees Good false :=
  fun _ _ => ⟨_, Node.allowsWalks_none Good, trivial⟩

theorem agree_visitPairs
    {σ : Type}
    {live : Option Nat}
    {window : Range}
    {withIndentation : Bool}
    {visit : Visitor PairInfo σ}
    {state : σ}
    (hForesees : origin.Foresees Good withIndentation)
    (hA : origin.IsLike a)
    (hB : origin.IsLike b)
    (hGoodA : Good a.cache)
    (hGoodB : Good b.cache) :
    Checked.Agree (AlikeAnswers origin Good)
      (a.visitPairs live window withIndentation visit state)
      (b.visitPairs live window withIndentation visit
        state) := by
  apply agree_whenCurrent hA hB hGoodA hGoodB
  intro root hRoot
  rcases hForesees root hRoot with ⟨Fits, hAllows, hFits⟩
  have hContentA : a.content = origin.content := by rw [hA]
  have hContentB : b.content = origin.content := by rw [hB]
  rw [hContentA, hContentB]
  have hQuery :
      Node.AllowsWalks
        (PairQuery.content
          ⟨window,
            if withIndentation then origin.content else none⟩)
        Good Fits :=
    hAllows
  have hStart :
      Node.AlikeWalks Good (⟨state, a.cache⟩ : PairWalk σ)
        ⟨state, b.cache⟩ :=
    ⟨rfl, hGoodA, hGoodB⟩
  refine (Node.agree_walkPairs hQuery hFits hStart).bind ?_
  rintro x y - - ⟨⟨hState, hFirst, hSecond⟩, hGoesOn⟩
  refine .ok ⟨?_, ⟨?_, hFirst⟩, ?_, hSecond⟩
  · rw [hState, hGoesOn]
  · rw [IsLike, hA]
  · rw [IsLike, hB]

/- A part of an answer agrees if the answer does. -/
theorem agree_part
    {β : Type}
    {first second : Checked (α × Index)}
    (part : α → β)
    (h :
      Checked.Agree (AlikeAnswers origin Good) first second) :
    Checked.Agree (AlikeAnswers origin Good)
      (do
        let (answer, index) ← first
        return (part answer, index))
      (do
        let (answer, index) ← second
        return (part answer, index)) := by
  refine h.bind ?_
  rintro ⟨x, indexA⟩ ⟨_, indexB⟩ - - ⟨rfl, hAlike⟩
  exact .ok ⟨rfl, hAlike⟩

/- The pair of a bracket is the same for them. -/
theorem agree_pairedAt
    (live : Option Nat)
    (offset : Nat)
    (hA : origin.IsLike a)
    (hB : origin.IsLike b)
    (hGoodA : Good a.cache)
    (hGoodB : Good b.cache) :
    Checked.Agree (AlikeAnswers origin Good)
      (a.ask live (.pairedAt offset))
      (b.ask live (.pairedAt offset)) := by
  refine agree_part Option.join
    (agree_whenCurrent hA hB hGoodA hGoodB ?_)
  intro root _
  have hContentA : a.content = origin.content := by rw [hA]
  have hContentB : b.content = origin.content := by rw [hB]
  rw [hContentA, hContentB]
  have hLast :
      ∀ answer : Option PairedBracket,
        AlikeAnswers origin Good (answer, a) (answer, b) :=
    fun _ => ⟨rfl, ⟨hA, hGoodA⟩, hB, hGoodB⟩
  cases origin.content with
  | none => exact .ok (hLast none)
  | some content =>
      simp only
      split_ifs
      · exact .ok (hLast none)
      refine (Checked.Agree.refl _).bind ?_
      rintro position _ - - rfl
      refine (Checked.Agree.refl _).bind ?_
      rintro column _ - - rfl
      refine (Node.agree_visitPairs_none _ _ _ _ _ _).bind ?_
      rintro x y - - ⟨⟨hState, -⟩, -⟩
      rw [hState]
      exact .ok (hLast _)

/- So are the pairs of all brackets in a part of the text. -/
theorem agree_pairedIn
    (live : Option Nat)
    (left right : Position)
    (hA : origin.IsLike a)
    (hB : origin.IsLike b)
    (hGoodA : Good a.cache)
    (hGoodB : Good b.cache) :
    Checked.Agree (AlikeAnswers origin Good)
      (a.ask live (.pairedIn left right))
      (b.ask live (.pairedIn left right)) := by
  refine agree_part (·.getD [])
    (agree_whenCurrent hA hB hGoodA hGoodB ?_)
  intro root _
  have hContentA : a.content = origin.content := by rw [hA]
  have hContentB : b.content = origin.content := by rw [hB]
  rw [hContentA, hContentB]
  have hLast :
      ∀ answer : List PairedBracket,
        AlikeAnswers origin Good (answer, a) (answer, b) :=
    fun _ => ⟨rfl, ⟨hA, hGoodA⟩, hB, hGoodB⟩
  cases origin.content with
  | none => exact .ok (hLast [])
  | some content =>
      refine (Node.agree_pairsIn_none _ _ _ _).bind ?_
      rintro ⟨infos, first⟩ ⟨_, second⟩ - - hInfos
      subst hInfos
      exact .ok (hLast _)

/-
  Answers agree for indexes that are alike, as long as walks
  for the indentations that are wanted go alike.
-/
theorem agree_ask
    {live : Option Nat}
    {query : Session.Query}
    (hForesees :
      origin.Foresees Good query.wantsIndentation)
    (hA : origin.IsLike a)
    (hB : origin.IsLike b)
    (hGoodA : Good a.cache)
    (hGoodB : Good b.cache) :
    Checked.Agree (AlikeAnswers origin Good)
      (a.ask live query) (b.ask live query) := by
  cases query with
  | brackets query =>
      exact agree_part (·.getD [])
        (agree_whenCurrentPure _ hA hB hGoodA hGoodB)
  | visitBrackets query visit =>
      exact agree_whenCurrentPure _ hA hB hGoodA hGoodB
  | pairs window withIndentation =>
      refine (agree_visitPairs hForesees hA hB hGoodA
        hGoodB).bind ?_
      rintro ⟨flow, first⟩ ⟨_, second⟩ - - ⟨rfl, hAlike⟩
      cases flow with
      | none => exact .ok ⟨rfl, hAlike⟩
      | some flow => exact .ok ⟨rfl, hAlike⟩
  | visitPairs window withIndentation visit =>
      exact agree_visitPairs hForesees hA hB hGoodA hGoodB
  | before position =>
      exact agree_part Option.join
        (agree_whenCurrentPure _ hA hB hGoodA hGoodB)
  | after position =>
      exact agree_part Option.join
        (agree_whenCurrentPure _ hA hB hGoodA hGoodB)
  | matchAt position =>
      exact agree_part Option.join
        (agree_whenCurrentPure _ hA hB hGoodA hGoodB)
  | enclosing position =>
      exact agree_part Option.join
        (agree_whenCurrentPure _ hA hB hGoodA hGoodB)
  | pairedAt offset =>
      exact agree_pairedAt live offset hA hB hGoodA hGoodB
  | pairedIn left right =>
      exact agree_pairedIn live left right hA hB hGoodA hGoodB

end Index

end Bracketry

------------------------------------------------------------
-- What a Query Leaves
------------------------------------------------------------

namespace Bracketry

namespace Index

variable {index after : Index} {live : Option Nat}
variable {Good : IndentationCache → Prop}

theorem IsLike.trans
    {a b c : Index}
    (hFirst : a.IsLike b)
    (hNext : b.IsLike c) :
    a.IsLike c := by
  rw [IsLike, hNext, hFirst]

/- A visit changes no more than the memory. -/
theorem isLike_visitPairs
    {σ : Type}
    {window : Range}
    {withIndentation : Bool}
    {visit : Visitor PairInfo σ}
    {state : σ}
    {flow : Option (Flow σ)}
    (h :
      index.visitPairs live window withIndentation visit
        state = .ok (flow, after)) :
    index.IsLike after := by
  unfold visitPairs whenCurrent at h
  split at h
  · cases h
    rfl
  · split at h
    · rcases Checked.bind_eq_ok_iff.1 h with
        ⟨⟨answer, next⟩, hAsk, h⟩
      rcases Checked.bind_eq_ok_iff.1 hAsk with
        ⟨walked, _, hAsk⟩
      cases h
      cases hAsk
      rfl
    · cases h
      rfl

/- Whatever is asked, all but the memory and the mark stays. -/
theorem isLike_ask
    {query : Session.Query}
    {answer : query.Answer}
    (h : index.ask live query = .ok (answer, after)) :
    index.IsLike after := by
  cases hWants : query.wantsIndentation with
  | false =>
      have hAgree :
          Checked.Agree (AlikeAnswers index fun _ => True)
            (index.ask live query) (index.ask live query) :=
        agree_ask (hWants ▸ index.foresees_false fun _ => True)
          (.refl index) (.refl index) trivial trivial
      rcases hAgree with
        ⟨fault, hFault, _⟩ | ⟨x, _, hX, _, _, hLike, _⟩
      · rw [h] at hFault
        cases hFault
      · rw [h] at hX
        cases hX
        exact hLike.1
  | true =>
      cases query with
      | pairs window withIndentation =>
          rcases Checked.bind_eq_ok_iff.1 h with
            ⟨⟨flow, next⟩, hFlow, h⟩
          have hLike := isLike_visitPairs hFlow
          cases flow <;> cases h <;> exact hLike
      | visitPairs window withIndentation visit =>
          exact isLike_visitPairs h
      | brackets query => cases hWants
      | visitBrackets query visit => cases hWants
      | before position => cases hWants
      | after position => cases hWants
      | matchAt position => cases hWants
      | enclosing position => cases hWants
      | pairedAt offset => cases hWants
      | pairedIn left right => cases hWants

/-
  What a query leaves is good, since it goes alike with
  itself.
-/
theorem good_of_ask
    {origin : Index}
    {query : Session.Query}
    {answer : query.Answer}
    (hForesees : origin.Foresees Good query.wantsIndentation)
    (hLike : origin.IsLike index)
    (hGood : Good index.cache)
    (h : index.ask live query = .ok (answer, after)) :
    Good after.cache := by
  have hAgree :
      Checked.Agree (AlikeAnswers origin Good)
        (index.ask live query) (index.ask live query) :=
    agree_ask hForesees hLike hLike hGood hGood
  rcases hAgree with
    ⟨fault, hFault, _⟩ | ⟨x, _, hX, _, _, hAlike, _⟩
  · rw [h] at hFault
    cases hFault
  · rw [h] at hX
    cases hX
    exact hAlike.2

/-
  Where no pair of the current tree is too deep, walks go
  alike with what is remembered from now on.
-/
theorem exists_foresees
    (hKeyed : index.IsKeyed)
    (hDepth :
      ∀ root, index.current? = some root →
        root.nesting ≤ maxQueryDepth + 1) :
    ∃ Good, index.Foresees Good true ∧ Good index.cache := by
  cases hRoot : index.current? with
  | none =>
      refine ⟨fun _ => True, fun root hSome => ?_, trivial⟩
      rw [hRoot] at hSome
      cases hSome
  | some root =>
      have hTree : index.HasTree root :=
        (Option.or_eq_some_iff.1 hRoot).imp id And.right
      cases hContent : index.content with
      | none =>
          refine ⟨fun _ => True, fun other _ => ?_, trivial⟩
          rw [if_pos rfl, hContent]
          exact ⟨_, Node.allowsWalks_none _, trivial⟩
      | some content =>
          refine ⟨fun cache =>
              cache.IsSound
                (Node.keyedValues content index.cache 0 root)
                index.cache,
            fun other hSome => ?_,
            Node.isSound_keyedValues content index.cache 0
              root⟩
          rw [hRoot] at hSome
          rcases Option.some.inj hSome with rfl
          rw [if_pos rfl, hContent]
          exact Node.allowsWalks_root content index.cache
            (hKeyed root hTree) (hDepth root hRoot)

end Index

end Bracketry

------------------------------------------------------------
-- Queries of a Session
------------------------------------------------------------

namespace Bracketry

namespace Session

variable {table : TokenTable} {session later : Session}

/-
  The sessions that can be reached, by all that is done with
  a session or with its index, and by queries.
-/
inductive Reaches (table : TokenTable) : Session → Prop where
  | opened
    {document : SharedDocument}
    {session : Session}
    (h : ofShared table document = .ok session) :
    Reaches table session
  | stepped
    {session after : Session}
    {step : Step}
    (hReach : Reaches table session)
    (h : session.step step = .ok after) :
    Reaches table after
  | replaced
    {session after : Session}
    {start stop : Position}
    {text : List Char}
    (hReach : Reaches table session)
    (h : session.replace start stop text = .ok after) :
    Reaches table after
  | toldEdit
    {session : Session}
    {start stop : Position}
    {text : List Char}
    {index : Index}
    (hReach : Reaches table session)
    (h : session.index.queueEdit start stop text = .ok index) :
    Reaches table { session with index := index }
  | toldLines
    {session : Session}
    {changed : List LineSpan}
    {index : Index}
    (hReach : Reaches table session)
    (h : session.index.queueLines changed = .ok index) :
    Reaches table { session with index := index }
  | asked
    {session after : Session}
    {query : Query}
    {answer : query.Answer}
    (hReach : Reaches table session)
    (h : session.ask query = .ok (answer, after)) :
    Reaches table after

/- A query leaves the document. -/
theorem exists_of_ask
    {query : Query}
    {answer : query.Answer}
    (h : session.ask query = .ok (answer, later)) :
    ∃ index,
      session.index.ask session.liveVersion query =
          .ok (answer, index) ∧
        later = { session with index := index } := by
  rcases Checked.bind_eq_ok_iff.1 h with
    ⟨⟨found, index⟩, hFound, h⟩
  cases h
  exact ⟨index, hFound, rfl⟩

/- All sessions that are reached are keyed. -/
theorem Reaches.isKeyed
    (h : Reaches table session) :
    session.index.IsKeyed := by
  induction h with
  | opened h =>
      rcases exists_of_ofShared h with ⟨index, hIndex, rfl⟩
      exact (Index.comesFrom_ofSnapshot hIndex).isKeyed
        (Index.isKeyed_empty _)
  | stepped _ h ih => exact (comesFrom_step h).isKeyed ih
  | replaced _ h ih =>
      rcases Checked.bind_eq_ok_iff.1 h with ⟨document, _, h⟩
      cases h
      exact ih
  | toldEdit _ h ih =>
      exact (Index.holdsNoMore_queueEdit h).comesFrom.isKeyed ih
  | toldLines _ h ih =>
      exact (Index.holdsNoMore_queueLines h).comesFrom.isKeyed
        ih
  | asked _ h ih =>
      rcases exists_of_ask h with ⟨index, hIndex, rfl⟩
      have hLike := Index.isLike_ask hIndex
      rw [hLike]
      exact ih

/- What each query leaves of an index, all of them leave. -/
theorem askAll_keeps
    {P : Index → Prop}
    {queries : List Query}
    (hKeeps :
      ∀ {index after live} {query : Query}
        {answer : query.Answer},
        P index →
          index.ask live query = .ok (answer, after) →
            P after)
    (hStart : P session.index)
    (h : session.askAll queries = .ok later) :
    later.document = session.document ∧ P later.index := by
  induction queries generalizing session with
  | nil =>
      cases h
      exact ⟨rfl, hStart⟩
  | cons query rest ih =>
      rw [askAll, List.foldlM_cons] at h
      rcases Checked.bind_eq_ok_iff.1 h with
        ⟨next, hNext, hRest⟩
      rcases Checked.bind_eq_ok_iff.1 hNext with
        ⟨⟨answer, asked⟩, hAsk, hNext⟩
      cases hNext
      rcases exists_of_ask hAsk with ⟨index, hIndex, rfl⟩
      have hKept : P { session with index := index }.index :=
        hKeeps hStart hIndex
      have hLater := ih hKept hRest
      exact hLater

theorem map_ask
    (session : Session)
    (query : Query) :
    (session.ask query).map Prod.fst =
      (session.index.ask session.liveVersion query).map
        Prod.fst := by
  unfold ask
  cases session.index.ask session.liveVersion query <;> rfl

/-
  Queries do not change the answer to a later one that needs
  no indentations, and of a tree whose pairs are not nested
  too deeply for a query, not that of any.
-/
theorem ask_of_askAll
    {queries : List Query}
    {query : Query}
    (hReach : Reaches table session)
    (hAsked : session.askAll queries = .ok later)
    (hDepth :
      query.wantsIndentation = true →
        ∀ root, session.index.current? = some root →
          root.nesting ≤ maxQueryDepth + 1) :
    (later.ask query).map Prod.fst =
      (session.ask query).map Prod.fst := by
  have hAnswers :
      ∀ Good,
        session.index.Foresees Good query.wantsIndentation →
        later.document = session.document →
        session.index.IsLike later.index →
        Good later.index.cache → Good session.index.cache →
          (later.ask query).map Prod.fst =
            (session.ask query).map Prod.fst := by
    intro Good hForesees hDocument hLike hLater hHere
    rw [map_ask, map_ask, liveVersion, liveVersion, hDocument]
    exact (Index.agree_ask hForesees hLike (.refl _) hLater
      hHere).map_eq fun _ _ hAlike => hAlike.1
  cases hWants : query.wantsIndentation with
  | false =>
      have hFalse := session.index.foresees_false fun _ => True
      rcases askAll_keeps
          (fun hIndex hAsk =>
            Index.IsLike.trans hIndex (Index.isLike_ask hAsk))
          (Index.IsLike.refl session.index) hAsked with
        ⟨hDocument, hLike⟩
      exact hAnswers _ (hWants ▸ hFalse) hDocument hLike trivial
        trivial
  | true =>
      rcases Index.exists_foresees hReach.isKeyed
          (hDepth hWants) with
        ⟨Good, hTrue, hHere⟩
      have hAny :
          ∀ wants, session.index.Foresees Good wants := by
        intro wants
        cases wants
        · exact session.index.foresees_false Good
        · exact hTrue
      have hKeeps :
          ∀ {index after live} {query : Query}
            {answer : query.Answer},
            session.index.IsLike index ∧ Good index.cache →
              index.ask live query = .ok (answer, after) →
                session.index.IsLike after ∧
                  Good after.cache := by
        rintro index after live query answer ⟨hLike, hGood⟩ hAsk
        exact ⟨hLike.trans (Index.isLike_ask hAsk),
          Index.good_of_ask (hAny _) hLike hGood hAsk⟩
      rcases askAll_keeps hKeeps ⟨.refl _, hHere⟩ hAsked with
        ⟨hDocument, hLike, hLater⟩
      exact hAnswers Good (hAny _) hDocument hLike hLater hHere

/- The indentation of a pair is asked for twice. -/
theorem ask_of_askAll_parens :
    let declaration : BracketDeclaration :=
      ⟨[⟨['('], [')']⟩], none⟩
    let table := TokenTable.ofDeclaration declaration
    let document := SharedDocument.ofDocument
      (Document.ofText ['(', '\n', ' ', 'a', '\n', ')'])
    let query : Query := .pairs ⟨⟨0, 0⟩, ⟨2, 1⟩⟩ true
    ∃ start later,
      ofShared table document = .ok start ∧
        start.askAll [query] = .ok later ∧
        (later.ask query).map Prod.fst =
          (start.ask query).map Prod.fst := by
  intro declaration table document query
  let isShallow (session : Session) : Bool :=
    session.index.current?.all
      (·.nesting ≤ maxQueryDepth + 1)
  have hGood :
      (ofShared table document).toOption.any fun start =>
        isShallow start &&
          (start.askAll [query]).toOption.any fun _ => true := by
    decide +kernel
  rcases Checked.exists_of_any hGood with ⟨start, hStart, hGood⟩
  rcases Bool.and_eq_true_iff.1 hGood with ⟨hShallow, hAnswered⟩
  rcases Checked.exists_of_any hAnswered with ⟨later, hAsked, _⟩
  refine ⟨start, later, hStart, hAsked, ?_⟩
  refine ask_of_askAll (.opened hStart) hAsked ?_
  intro _ root hRoot
  simp only [isShallow, hRoot, Option.all_some,
    decide_eq_true_eq] at hShallow
  exact hShallow

end Session

end Bracketry
