import Bracketry.Proofs.Ancestry

/-
  How deep pairs are nested.

  A parse makes no pair below the level that is its limit.
  Parts of an old tree come with the pairs inside them,
  however deep the place is that they are put to.  So a tree
  that is parsed from scratch keeps to the limit, and each
  flush can add that many pairs to the nesting of the tree
  before it.

  Key definitions include:
    * `Node.nesting`

  Main declarations:
    * `Parser.nesting_of_makes`
    * `nesting_parseDocument`
    * `Session.nesting_of_run`
-/

------------------------------------------------------------
-- Nesting
------------------------------------------------------------

namespace Bracketry

namespace Node

mutual

/- The length of the longest chain of pairs in a node. -/
def nesting : Node → Nat
  | .pair _ _ _ opening child closing =>
      1 + max opening.nesting
        (max
          (match child with
            | some node => node.nesting
            | none => 0)
          (match closing with
            | some node => node.nesting
            | none => 0))
  | .list _ _ _ _ items => nestingOfAll items
  | _ => 0

/- The longest chain of pairs in several nodes. -/
def nestingOfAll : List Node → Nat
  | [] => 0
  | item :: rest => max item.nesting (nestingOfAll rest)

end

/- The longest chain in a part that may be absent. -/
def partNesting : Option Node → Nat
  | some node => node.nesting
  | none => 0

theorem nesting_pair
    (key : Option Nat)
    (length : Length)
    (missing : IdSet)
    (opening : Node)
    (child closing : Option Node) :
    (Node.pair key length missing opening child
      closing).nesting =
      1 + max opening.nesting
        (max (partNesting child) (partNesting closing)) := by
  cases child <;> cases closing <;> rfl

theorem nestingOfAll_toList
    (part : Option Node) :
    nestingOfAll part.toList = partNesting part := by
  cases part <;> simp [nestingOfAll, partNesting]

theorem nestingOfAll_append
    (a b : List Node) :
    nestingOfAll (a ++ b) =
      max (nestingOfAll a) (nestingOfAll b) := by
  induction a with
  | nil => simp [nestingOfAll]
  | cons item rest ih =>
      rw [List.cons_append, nestingOfAll, ih, nestingOfAll,
        Nat.max_assoc]

theorem nestingOfAll_le_iff
    {items : List Node}
    {limit : Nat} :
    nestingOfAll items ≤ limit ↔
      ∀ item ∈ items, item.nesting ≤ limit := by
  induction items with
  | nil => simp [nestingOfAll]
  | cons item rest ih =>
      rw [nestingOfAll, Nat.max_le, ih, List.forall_mem_cons]

/- The parts of a node are nested no deeper than it is. -/
theorem nesting_le_of_mem_children
    {node child : Node}
    (h : child ∈ node.children) :
    child.nesting ≤ node.nesting := by
  cases node with
  | text key length => cases h
  | bracket leaf => cases h
  | invalid key ids length => cases h
  | pair key length missing opening inner closing =>
      rw [children, List.mem_cons, List.mem_append] at h
      rw [nesting_pair]
      rcases h with rfl | hInner | hClosing
      · omega
      · rcases Option.mem_toList.1 hInner with rfl
        rw [partNesting]
        omega
      · rcases Option.mem_toList.1 hClosing with rfl
        rw [partNesting, partNesting.eq_def]
        omega
  | list key height length missing items =>
      rw [nesting]
      exact nestingOfAll_le_iff.1 (Nat.le_refl _) child h

/- Regrouping nodes leaves their nesting. -/
theorem Regroups.nestingOfAll_eq
    {a b : List Node}
    (h : Regroups a b) :
    nestingOfAll b = nestingOfAll a := by
  induction h with
  | refl nodes => rfl
  | opened key height length missing items =>
      simp [nestingOfAll, nesting]
  | grouped height missing hLength =>
      simp [nestingOfAll, nesting]
  | append _ _ ihLeft ihRight =>
      rw [nestingOfAll_append, nestingOfAll_append, ihLeft,
        ihRight]
  | trans _ _ ihFirst ihNext => rw [ihNext, ihFirst]

/- Keys change nothing about the nesting. -/
theorem nesting_giveKeys
    (node : Node)
    (next : Nat) :
    (giveKeys next node).1.nesting = node.nesting := by
  induction node using Node.induction
    generalizing next with
  | text key length => cases key <;> rfl
  | bracket leaf => rfl
  | invalid key ids length => cases key <;> rfl
  | pair key length missing opening child closing ih =>
      cases key with
      | some old => rfl
      | none =>
          cases child with
          | none =>
              rw [giveKeys, nesting_pair, nesting_pair]
          | some node =>
              rw [giveKeys, nesting_pair, nesting_pair,
                partNesting, partNesting, ih node rfl]
  | list key height length missing items ih =>
      cases key with
      | some old => rfl
      | none =>
          have hItems :
              ∀ start,
                nestingOfAll (giveAllKeys start items).1 =
                  nestingOfAll items := by
            induction items with
            | nil => exact fun _ => rfl
            | cons first rest ihRest =>
                rw [List.forall_mem_cons] at ih
                intro start
                simp only [giveAllKeys, nestingOfAll, ih.1,
                  ihRest ih.2]
          exact hItems (next + 1)

end Node

end Bracketry

------------------------------------------------------------
-- Nesting of What Is Parsed
------------------------------------------------------------

namespace Bracketry

/- What comes out of nodes is nested no deeper. -/
theorem NodeReader.Unfolds.nesting_le
    {a b : List (Position × Node)}
    {limit : Nat}
    (h : Unfolds a b)
    (hAll : ∀ node ∈ a, node.2.nesting ≤ limit) :
    ∀ node ∈ b, node.2.nesting ≤ limit := by
  refine h.forall (P := fun _ node => node.nesting ≤ limit)
    ?_ hAll
  intro start node hNode child hChild
  have hMem : child.2 ∈ node.children := by
    rw [← Node.map_placed start node.children]
    exact List.mem_map_of_mem hChild
  exact Nat.le_trans (Node.nesting_le_of_mem_children hMem)
    hNode

namespace Parser

/- A leaf has no pairs. -/
theorem nesting_leafOf
    {level : Nat}
    {token : Option Token}
    {node : Node}
    (h : leafOf level token = some node) :
    node.nesting = 0 := by
  rcases leafOf_cases h with
    rfl | ⟨length, rfl⟩ | ⟨ids, length, rfl⟩ <;> rfl

/- A pair is nested one deeper than what is inside it. -/
theorem nesting_pairOf
    {leaf : Bracket}
    {child closing : Option Node}
    {node : Node}
    (hClosing :
      ∀ last, closing = some last → last.IsBracket)
    (h : Node.pairOf (.bracket leaf) child closing = .ok node) :
    node.nesting = 1 + Node.nestingOfAll child.toList := by
  rcases Node.eq_of_pairOf h with rfl
  have hLast : Node.partNesting closing = 0 := by
    cases closing with
    | none => rfl
    | some last =>
        rcases hClosing last rfl with ⟨bracket, rfl⟩
        rfl
  have hLeaf : (Node.bracket leaf).nesting = 0 := rfl
  rw [Node.nesting_pair, hLast, hLeaf,
    Node.nestingOfAll_toList, Nat.max_zero, Nat.zero_max]

/-
  Items at a level can have as many pairs in a chain as
  there are levels left, and those of a part of the old tree
  below them.
-/
theorem nesting_of_makes
    {opened : IdSet}
    {level limit : Nat}
    {parser after : Parser}
    {items : List Node}
    (h : Makes opened level parser items after)
    (hLevel : level ≤ maxNestingLevel + 1)
    (hAhead : ∀ node ∈ parser.ahead, node.2.nesting ≤ limit) :
    Node.nestingOfAll items ≤
        limit + (maxNestingLevel + 1 - level) ∧
      ∀ node ∈ after.ahead, node.2.nesting ≤ limit := by
  have hItem :
      ∀ {level : Nat} {node : Node} {rest : List Node},
        node.nesting ≤ limit + (maxNestingLevel + 1 - level) →
        Node.nestingOfAll rest ≤
            limit + (maxNestingLevel + 1 - level) →
        Node.nestingOfAll (withItem node rest) ≤
          limit + (maxNestingLevel + 1 - level) := by
    intro level node rest hNode hRest
    rw [Node.nestingOfAll_le_iff] at hRest ⊢
    intro item hMem
    rcases mem_withItem hMem with rfl | hMem
    · exact hNode
    · exact hRest item hMem
  induction h with
  | bounded opened level parser =>
      exact ⟨Nat.zero_le _, hAhead⟩
  | stopped level hReuse hPeek _ =>
      rcases unfolds_reuse? hReuse with ⟨_, hUnfolds⟩
      rw [ahead_peek hPeek]
      exact ⟨Nat.zero_le _, hUnfolds.nesting_le hAhead⟩
  | reused hReuse _ ih =>
      rcases unfolds_reuse? hReuse with ⟨_, hUnfolds⟩
      have hAll := hUnfolds.nesting_le hAhead
      rw [Option.toList_some, List.map_singleton,
        List.singleton_append, List.forall_mem_cons] at hAll
      rcases ih hLevel hAll.2 with ⟨hRest, hAfter⟩
      exact ⟨hItem (Nat.le_add_right_of_le hAll.1) hRest,
        hAfter⟩
  | leaf hRead hLeaf _ ih =>
      rcases ih hLevel
          ((unfolds_of_reads hRead).nesting_le hAhead) with
        ⟨hRest, hAfter⟩
      have hNode := nesting_leafOf hLeaf
      exact ⟨hItem (by omega) hRest, hAfter⟩
  | pair hRead _ hDeep _ hChild hClosing hNode _ ihInside
      ihRest =>
      rcases ihInside (Nat.succ_le_succ hDeep)
          ((unfolds_of_reads hRead).nesting_le hAhead) with
        ⟨hInside, hBehind⟩
      rw [← ahead_readClosing hClosing] at hBehind
      rcases ihRest hLevel hBehind with ⟨hRest, hAfter⟩
      have hPair :=
        nesting_pairOf (isBracket_of_readClosing hClosing)
          hNode
      rw [(regroups_joinItems hChild).nestingOfAll_eq] at hPair
      exact ⟨hItem (by omega) hRest, hAfter⟩

end Parser

/-
  A parse adds at most one chain of pairs of its own to what
  it takes from an old tree.
-/
theorem nesting_parseDocument
    {stream : TokenStream}
    {edits : List Edit}
    {old : Option Node}
    {root : Node}
    {stats : ParseStats}
    {limit : Nat}
    (hOld : ∀ tree, old = some tree → tree.nesting ≤ limit)
    (h : parseDocument stream edits old = .ok (root, stats)) :
    root.nesting ≤ limit + (Parser.maxNestingLevel + 1) := by
  rcases exists_makes_of_parseDocument h with
    ⟨map, items, after, _, hMakes, hRegroups⟩
  have hLimit :
      ∀ node ∈ (Parser.ofStream stream map old).ahead,
        node.2.nesting ≤ limit := by
    rw [Parser.ahead_ofStream]
    cases old with
    | none => simp
    | some tree => simpa using hOld tree rfl
  have hItems :=
    (Parser.nesting_of_makes hMakes (Nat.zero_le _) hLimit).1
  rw [← hRegroups.nestingOfAll_eq, Node.nestingOfAll,
    Node.nestingOfAll] at hItems
  omega

end Bracketry

------------------------------------------------------------
-- Nesting in a Session
------------------------------------------------------------

namespace Bracketry

namespace Index

theorem nesting_parse
    {table : TokenTable}
    {content : Content}
    {spans : Option SpanTable}
    {job : ParseJob}
    {root : Node}
    {stats : ParseStats}
    {limit : Nat}
    (hOld : ∀ tree, job.old = some tree → tree.nesting ≤ limit)
    (h : parse table content spans job = .ok (root, stats)) :
    root.nesting ≤ limit + (Parser.maxNestingLevel + 1) := by
  unfold parse at h
  split at h
  · exact nesting_parseDocument (by simp) h
  · exact nesting_parseDocument hOld h

theorem Descends.nesting_le
    {index : Index}
    {last limit : Nat}
    {root : Node}
    (hTrees :
      ∀ tree, index.HasTree tree → tree.nesting ≤ limit)
    (h : index.Descends last root) :
    root.nesting ≤ limit + (Parser.maxNestingLevel + 1) := by
  rcases h with
    ⟨content, spans, job, made, stats, next, hOld, hParse, rfl,
      _⟩
  rw [Node.nesting_giveKeys]
  exact nesting_parse
    (fun tree hTree => hTrees tree (hOld tree hTree)) hParse

end Index

namespace Session

/- Each flush of a run can add one chain of pairs. -/
theorem nesting_run
    {session last : Session}
    {steps : List Step}
    {limit : Nat}
    (hTrees :
      ∀ tree, session.index.HasTree tree →
        tree.nesting ≤ limit)
    (h : session.run steps = .ok last) :
    ∀ tree, last.index.HasTree tree →
      tree.nesting ≤
        limit +
          steps.count .flush * (Parser.maxNestingLevel + 1) := by
  induction steps generalizing session limit with
  | nil =>
      cases h
      simpa using hTrees
  | cons step rest ih =>
      rw [run, List.foldlM_cons] at h
      rcases Checked.bind_eq_ok_iff.1 h with
        ⟨next, hNext, hRest⟩
      by_cases hFlush : step = .flush
      · subst hFlush
        have hFrom := comesFrom_step hNext
        have hNextTrees :
            ∀ tree, next.index.HasTree tree →
              tree.nesting ≤
                limit + (Parser.maxNestingLevel + 1) := by
          intro tree hTree
          rcases hFrom.trees tree hTree with hOld | hNew
          · exact Nat.le_add_right_of_le (hTrees tree hOld)
          · exact hNew.nesting_le hTrees
        rw [List.count_cons_self, Nat.succ_mul, Nat.add_comm
          (_ * _), ← Nat.add_assoc]
        exact ih hNextTrees hRest
      · have hSame := holdsNoMore_step hFlush hNext
        rw [List.count_cons_of_ne hFlush]
        exact ih (fun tree hTree =>
          hTrees tree (hSame.trees tree hTree)) hRest

/-
  The nesting of every tree of a session is bounded by the
  number of its flushes.  Without a flush, it keeps to the
  limit of one parse.
-/
theorem nesting_of_run
    {table : TokenTable}
    {document : SharedDocument}
    {start last : Session}
    {steps : List Step}
    {root : Node}
    (hStart : Session.ofShared table document = .ok start)
    (hRun : start.run steps = .ok last)
    (hTree : last.index.HasTree root) :
    root.nesting ≤
      (steps.count .flush + 1) *
        (Parser.maxNestingLevel + 1) := by
  rcases Session.exists_of_ofShared hStart with
    ⟨index, hIndex, rfl⟩
  have hFrom := Index.comesFrom_ofSnapshot hIndex
  have hTrees :
      ∀ tree, index.HasTree tree →
        tree.nesting ≤ Parser.maxNestingLevel + 1 := by
    have hNone :
        ∀ tree, (Index.empty table).HasTree tree →
          tree.nesting ≤ 0 := by
      rintro tree (hTree | hTree) <;> cases hTree
    intro tree hTree
    rcases hFrom.trees tree hTree with hOld | hNew
    · exact Nat.le_trans (hNone tree hOld) (Nat.zero_le _)
    · simpa using hNew.nesting_le hNone
  have hLast := nesting_run hTrees hRun root hTree
  rw [Nat.succ_mul, Nat.add_comm]
  exact hLast

/- A closed pair is put into an opening bracket. -/
theorem nesting_of_run_parens :
    let declaration : BracketDeclaration :=
      ⟨[⟨['('], [')']⟩], none⟩
    let document := SharedDocument.ofDocument
      (Document.ofText ['(', ')'])
    let steps : List Step :=
      [.edit ⟨0, 0⟩ ⟨0, 0⟩ ['('], .flush]
    ∃ start last root,
      ofShared (TokenTable.ofDeclaration declaration)
          document = .ok start ∧
        start.run steps = .ok last ∧
        last.index.HasTree root ∧
        root.nesting ≤ 2 * (Parser.maxNestingLevel + 1) := by
  intro declaration document steps
  have hFlat : declaration.IsFlat := by decide
  have hShort : Text.IsShort document.document.text := by
    decide
  rcases exists_ofShared
      (TokenTable.isSolid_ofDeclaration declaration)
      (TokenTable.isFlat_ofDeclaration hFlat) hShort with
    ⟨start, hStart, hSound, hDocument⟩
  have hAllows : start.document.document.AllowsAll steps := by
    rw [hDocument]
    decide
  rcases hSound.run hAllows with ⟨last, hRun, hLast, _⟩
  rcases hLast.holds.classified with ⟨root, hRoot, _⟩
  have hTree : last.index.HasTree root := .inr hRoot
  have hCount : steps.count .flush + 1 = 2 := by decide
  have hNesting := nesting_of_run hStart hRun hTree
  rw [hCount] at hNesting
  exact ⟨start, last, root, hStart, hRun, hTree, hNesting⟩

end Session

end Bracketry
