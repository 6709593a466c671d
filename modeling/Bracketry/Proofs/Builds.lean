import Bracketry.Proofs.Contracts
import Bracketry.Proofs.Parses
import Bracketry.Proofs.Scans

/-
  Trees that parses make.

  A tree is built when it is parsed from a text or from
  classified lines, with a built tree to take parts from or
  without one, whether its nodes were given keys or not.
  Such a tree is proper.  No token is empty, so none of its
  leaves is, and brackets only stand in its pairs.  What is
  read from the tokens ends at a place that fits; of a part
  that is used again, only the end is known to.

  Key definitions include:
    * `Length.FitBehind`
    * `Forest.IsFull`, `TokenStream.IsFull`
    * `Node.IsBuilt`, `Node.LiesAt`

  Main declarations:
    * `Parser.isFull_of_makes`
    * `Parser.passes_of_makes`
    * `Node.IsBuilt.liesAt`
-/

------------------------------------------------------------
-- Lengths in a Row
------------------------------------------------------------

namespace Bracketry

/- What is absent has every property. -/
theorem forall_of_absent
    {α : Type}
    {P : α → Prop} :
    ∀ value, none = some value → P value := by
  rintro _ ⟨⟩

namespace Length

theorem add_ne_zero
    {a : Length}
    (b : Length)
    (h : a ≠ 0) :
    a + b ≠ 0 := by
  intro hZero
  have hLe := le_add_right a b
  rw [hZero, le_zero] at hLe
  exact h hLe

/- Each of some lengths in a row ends at a place that fits. -/
def FitBehind
    (start : Position) :
    List Length → Prop
  | [] => True
  | first :: rest =>
      (start + first).Fits ∧ FitBehind (start + first) rest

theorem fitBehind_append
    {start : Position}
    {a b : List Length} :
    FitBehind start (a ++ b) ↔
      FitBehind start a ∧ FitBehind (start + a.sum) b := by
  induction a generalizing start with
  | nil => simp [FitBehind]
  | cons first rest ih =>
      rw [List.cons_append, FitBehind, ih, FitBehind,
        List.sum_cons, add_assoc, and_assoc]

/- Then so does the last of them. -/
theorem FitBehind.stop
    {start : Position}
    {lengths : List Length}
    (hStart : start.Fits)
    (h : FitBehind start lengths) :
    (start + lengths.sum).Fits := by
  induction lengths generalizing start with
  | nil => simpa using hStart
  | cons first rest ih =>
      rw [List.sum_cons, ← add_assoc]
      exact ih h.1 h.2

end Length

end Bracketry

------------------------------------------------------------
-- Full Forests
------------------------------------------------------------

namespace Bracketry

namespace Forest

/- Leaves are text, and neither they nor brackets are empty. -/
def IsFull : Forest Sign → Prop
  | .nil => True
  | .leaf sign rest =>
      (sign.kind = none ∧ sign.length ≠ 0) ∧ rest.IsFull
  | .stray sign rest => sign.length ≠ 0 ∧ rest.IsFull
  | .pair opening inside closing rest =>
      opening.length ≠ 0 ∧ inside.IsFull ∧
        (∀ sign, closing = some sign → sign.length ≠ 0) ∧
        rest.IsFull

@[simp] theorem isFull_append
    {a b : Forest Sign} :
    (a ++ b).IsFull ↔ a.IsFull ∧ b.IsFull := by
  induction a with
  | nil => simp [IsFull]
  | leaf sign rest ih => simp [IsFull, ih, and_assoc]
  | stray sign rest ih => simp [IsFull, ih, and_assoc]
  | pair opening inside closing rest _ ih =>
      simp [IsFull, ih, and_assoc]

/- The lengths of what a forest shows, from left to right. -/
def lengths
    (forest : Forest Sign) :
    List Length :=
  forest.leaves.map Sign.length

@[simp] theorem lengths_append
    (a b : Forest Sign) :
    (a ++ b).lengths = a.lengths ++ b.lengths := by
  simp [lengths]

@[simp] theorem lengths_pair
    (opening : Sign)
    (inside : Forest Sign)
    (closing : Option Sign) :
    (Forest.pair opening inside closing .nil).lengths =
      opening.length ::
        (inside.lengths ++
          closing.toList.map Sign.length) := by
  simp [lengths, leaves]

end Forest

namespace Node

/- Lists do not show, however nodes are grouped. -/
theorem Regroups.shapeOfAll_eq
    {a b : List Node}
    (h : Regroups a b) :
    shapeOfAll b = shapeOfAll a := by
  induction h with
  | refl nodes => rfl
  | opened key height length missing items =>
      simp [shapeOfAll, shape]
  | grouped height missing hLength =>
      simp [shapeOfAll, shape]
  | append _ _ ihLeft ihRight =>
      rw [shapeOfAll_append, shapeOfAll_append, ihLeft,
        ihRight]
  | trans _ _ ihFirst ihNext => rw [ihNext, ihFirst]

theorem shapeOfAll_toList
    (part : Option Node) :
    shapeOfAll part.toList = partShape part := by
  cases part <;> simp [shapeOfAll, partShape]

/- An empty list shows as little as no item. -/
theorem shapeOfAll_withItem
    (node : Node)
    (items : List Node) :
    shapeOfAll (Parser.withItem node items) =
      node.shape ++ shapeOfAll items := by
  unfold Parser.withItem
  split_ifs with hEmpty
  · cases node with
    | list key height length missing nodes =>
        rcases List.isEmpty_iff.1 hEmpty with rfl
        rfl
    | text key length => cases hEmpty
    | bracket leaf => cases hEmpty
    | invalid key ids length => cases hEmpty
    | pair key length missing opening child closing =>
        cases hEmpty
  · rfl

theorem lengths_shape_of_isRoot
    {root : Node}
    (h : root.IsRoot) :
    root.leaves.map length = root.shape.lengths := by
  rcases h with hProper | ⟨key, rfl⟩
  · exact lengths_leaves hProper
  · rfl

theorem length_eq_lengths
    {node : Node}
    (h : node.IsProper) :
    node.length = node.shape.lengths.sum :=
  length_eq_sum h

/-
  Parts of a tree are full when the tree is.  Those that
  are brackets can show no forest that is.
-/
theorem isFull_of_mem_children
    {node part : Node}
    (h : node.IsRoot)
    (hFull : node.shape.IsFull)
    (hPart : part ∈ node.children) :
    part.IsBracket ∨ part.shape.IsFull := by
  cases node with
  | text key length => cases hPart
  | bracket leaf => cases hPart
  | invalid key ids length => cases hPart
  | pair key length missing opening child closing =>
      rcases h with hProper | ⟨_, ⟨⟩⟩
      rcases isProper_pair.1 hProper with
        ⟨hOpening, hClosing, _⟩
      rw [shape_pair] at hFull
      simp only [children, List.mem_cons, List.mem_append,
        Option.mem_toList] at hPart
      rcases hPart with rfl | hChild | hLast
      · exact .inl hOpening
      · subst hChild
        exact .inr hFull.2.1
      · exact .inl (hClosing part hLast)
  | list key height length missing items =>
      rcases List.append_of_mem hPart with ⟨before, after, rfl⟩
      rw [shape, shapeOfAll_append, shapeOfAll,
        Forest.isFull_append, Forest.isFull_append] at hFull
      exact .inr hFull.2.1

end Node

end Bracketry

------------------------------------------------------------
-- Tokens That Are Not Empty
------------------------------------------------------------

namespace Bracketry

/- The next token, if there is one, is not empty. -/
def Token.NotEmpty
    (token : Option Token) :
    Prop :=
  ∀ next, token = some next → next.length ≠ 0

namespace LineReader

variable {source : LineSource}

/- What a scan of spans finds is a bracket of the table. -/
theorem ne_zero_of_scanSpans
    {table : TokenTable}
    {line : List Char}
    {column scanned later : Nat}
    {spans left : List Span}
    {token : Token}
    (hSolid : table.IsSolid)
    (h :
      scanSpans table line column scanned spans =
        .ok (.bracket later token left)) :
    token.length ≠ 0 := by
  induction spans generalizing column scanned with
  | nil => cases h
  | cons span rest ih =>
      rw [scanSpans_cons] at h
      split_ifs at h with hMerged hCode
      · exact ih h
      · split at h
        · rename_i skipped found hFound
          cases h
          exact (findBracket?_spec hSolid hFound).1.ne_zero
        · rcases Checked.bind_eq_ok_iff.1 h with ⟨_, _, hRest⟩
          split_ifs at hRest
          · cases hRest
          · exact ih hRest
      · rcases Checked.bind_eq_ok_iff.1 h with ⟨_, _, hRest⟩
        split_ifs at hRest
        · cases hRest
        · exact ih hRest

theorem ne_zero_of_textSince
    {start : Position}
    {reader after : LineReader}
    {token : Option Token}
    (h : textSince start reader = .ok (token, after)) :
    Token.NotEmpty token ∧ after = reader := by
  unfold textSince at h
  dsimp only at h
  split_ifs at h with hZero
  cases h
  exact ⟨by rintro _ ⟨⟩; exact hZero, rfl⟩

/- What is read, and what is kept to be read next. -/
theorem isFull_of_scan
    {start : Position}
    {line column scanned more : Nat}
    {spans : List Span}
    {after : LineReader}
    {token : Option Token}
    (hSolid : source.table.IsSolid)
    (h :
      scan source start line column scanned spans more =
        .ok (token, after)) :
    Token.NotEmpty token ∧ Token.NotEmpty after.pending := by
  fun_induction scan source start line column scanned spans
    more with
  | case1 more line column scanned spans fault hScan =>
      cases h
  | case2 more line column scanned spans later found left
      hScan hHere =>
      cases h
      refine ⟨?_, forall_of_absent⟩
      rintro _ ⟨⟩
      exact ne_zero_of_scanSpans hSolid hScan
  | case3 more line column scanned spans later found left
      hScan hHere =>
      rcases ne_zero_of_textSince h with ⟨hToken, rfl⟩
      refine ⟨hToken, ?_⟩
      rintro _ ⟨⟩
      exact ne_zero_of_scanSpans hSolid hScan
  | case4 more line column scanned spans later left hScan =>
      rcases ne_zero_of_textSince h with ⟨hToken, rfl⟩
      exact ⟨hToken, forall_of_absent⟩
  | case5 line column scanned spans later total hScan =>
      rcases ne_zero_of_textSince h with ⟨hToken, rfl⟩
      exact ⟨hToken, forall_of_absent⟩
  | case6 line column scanned spans more later total hScan
      next ih =>
      rcases Checked.bind_eq_ok_iff.1 h with ⟨sum, _, hRest⟩
      split_ifs at hRest
      · rcases ne_zero_of_textSince hRest with ⟨hToken, rfl⟩
        exact ⟨hToken, forall_of_absent⟩
      · exact ih sum hRest

theorem isFull_of_read
    {reader after : LineReader}
    {token : Option Token}
    (hSolid : source.table.IsSolid)
    (hPending : Token.NotEmpty reader.pending)
    (h : reader.read source = .ok (token, after)) :
    Token.NotEmpty token ∧ Token.NotEmpty after.pending := by
  unfold read at h
  split at h
  · rename_i found hFound
    cases h
    rw [hFound] at hPending
    exact ⟨hPending, forall_of_absent⟩
  · dsimp only at h
    split_ifs at h
    · cases h
      exact ⟨forall_of_absent, hPending⟩
    · exact isFull_of_scan hSolid h

end LineReader

namespace TokenStream

variable {stream after : TokenStream} {token : Option Token}

/- No token that can be read is empty. -/
def IsFull
    (stream : TokenStream) :
    Prop :=
  match stream.source with
  | .scanned tokens _ => ∀ token ∈ tokens, token.length ≠ 0
  | .lines source reader peeked =>
      source.table.IsSolid ∧ Token.NotEmpty reader.pending ∧
        ∀ token, peeked = some token → Token.NotEmpty token

theorem isFull_of_passed
    {source : TokenSource}
    {next : Token}
    (hNext : next.length ≠ 0)
    (hSource : IsFull ⟨source, stream.offset⟩)
    (h : stream.passed source next = .ok (token, after)) :
    Token.NotEmpty token ∧ after.IsFull := by
  rcases Checked.bind_eq_ok_iff.1 h with ⟨offset, _, h⟩
  cases h
  exact ⟨by rintro _ ⟨⟩; exact hNext, hSource⟩

theorem isFull_of_read
    (hFull : stream.IsFull)
    (h : stream.read = .ok (token, after)) :
    Token.NotEmpty token ∧ after.IsFull := by
  rcases stream with ⟨source, offset⟩
  cases source with
  | scanned tokens length =>
      cases tokens with
      | nil =>
          cases h
          exact ⟨forall_of_absent, hFull⟩
      | cons first rest =>
          rcases List.forall_mem_cons.1 hFull with
            ⟨hFirst, hTokens⟩
          have hRest : IsFull ⟨.scanned rest length, offset⟩ :=
            hTokens
          exact isFull_of_passed hFirst hRest h
  | lines source reader peeked =>
      rcases hFull with ⟨hSolid, hPending, hPeeked⟩
      cases peeked with
      | some seen =>
          have hRest :
              IsFull ⟨.lines source reader none, offset⟩ :=
            ⟨hSolid, hPending, forall_of_absent⟩
          cases seen with
          | none =>
              cases h
              exact ⟨forall_of_absent, hRest⟩
          | some next =>
              exact isFull_of_passed
                (hPeeked _ rfl next rfl) hRest h
      | none =>
          rcases Checked.bind_eq_ok_iff.1 h with
            ⟨⟨next, left⟩, hRead, h⟩
          rcases LineReader.isFull_of_read hSolid hPending
              hRead with
            ⟨hNext, hLeft⟩
          have hRest :
              IsFull ⟨.lines source left none, offset⟩ :=
            ⟨hSolid, hLeft, forall_of_absent⟩
          cases next with
          | none =>
              cases h
              exact ⟨forall_of_absent, hRest⟩
          | some next =>
              exact isFull_of_passed (hNext next rfl) hRest h

theorem isFull_of_peek
    (hFull : stream.IsFull)
    (h : stream.peek = .ok (token, after)) :
    Token.NotEmpty token ∧ after.IsFull := by
  rcases stream with ⟨source, offset⟩
  cases source with
  | scanned tokens length =>
      cases h
      exact ⟨fun next hNext =>
        hFull next (List.mem_of_head? hNext), hFull⟩
  | lines source reader peeked =>
      cases peeked with
      | some seen =>
          cases h
          exact ⟨hFull.2.2 _ rfl, hFull⟩
      | none =>
          rcases hFull with ⟨hSolid, hPending, _⟩
          rcases Checked.bind_eq_ok_iff.1 h with
            ⟨⟨next, left⟩, hRead, h⟩
          cases h
          rcases LineReader.isFull_of_read hSolid hPending
              hRead with
            ⟨hNext, hLeft⟩
          refine ⟨hNext, hSolid, hLeft, ?_⟩
          rintro _ ⟨⟩
          exact hNext

theorem isFull_of_skip
    {length : Length}
    (hFull : stream.IsFull)
    (h : stream.skip length = .ok after) :
    after.IsFull := by
  rcases stream with ⟨source, offset⟩
  cases source with
  | scanned tokens length => cases h
  | lines source reader peeked =>
      rcases Checked.bind_eq_ok_iff.1 h with ⟨stop, _, h⟩
      cases h
      exact ⟨hFull.1, forall_of_absent, forall_of_absent⟩

theorem isFull_ofLines
    {source : LineSource}
    (hSolid : source.table.IsSolid) :
    (ofLines source).IsFull :=
  ⟨hSolid, forall_of_absent, forall_of_absent⟩

end TokenStream

namespace Scan

theorem ne_zero_of_mem_flushText
    {pending : Length}
    {token : Token}
    (h : token ∈ flushText pending) :
    token.length ≠ 0 := by
  unfold flushText at h
  split_ifs at h with hZero
  · cases h
  · rcases List.mem_singleton.1 h with rfl
    exact hZero

/- A scan makes no token of an empty stretch. -/
theorem ne_zero_of_mem_tokensFrom
    {table : TokenTable}
    {before : Option Char}
    {pending : Length}
    {skip : Nat}
    {text : List Char}
    {token : Token}
    (hSolid : table.IsSolid)
    (h : token ∈ tokensFrom table before pending skip text) :
    token.length ≠ 0 := by
  fun_induction tokensFrom table before pending skip text with
  | case1 before pending skip => exact ne_zero_of_mem_flushText h
  | case2 before pending skip c rest hSkip ih => exact ih h
  | case3 before pending skip c rest hSkip hNone ih =>
      exact ih h
  | case4 before pending skip c rest hSkip found width hFound
      more hBreak ih => exact ih h
  | case5 before pending skip c rest hSkip found width hFound
      more hBreak hText ih => exact ih h
  | case6 before pending skip c rest hSkip found width hFound
      more hBreak next hNext ih =>
      rcases List.mem_append.1 h with hText | hRest
      · exact ne_zero_of_mem_flushText hText
      · rcases List.mem_cons.1 hRest with rfl | hRest
        · exact (hSolid.isLiteral hNext).ne_zero
        · exact ih hRest

end Scan

theorem TokenStream.isFull_ofText
    {table : TokenTable}
    (hSolid : table.IsSolid)
    (text : List Char) :
    (ofText table text).IsFull :=
  fun _ => Scan.ne_zero_of_mem_tokensFrom hSolid

end Bracketry

------------------------------------------------------------
-- Items That Are Full
------------------------------------------------------------

namespace Bracketry

/- A part of a full tree: a bracket, or full itself. -/
def Node.IsFullPart
    (node : Node) :
    Prop :=
  node.IsRoot ∧ (node.IsBracket ∨ node.shape.IsFull)

/- What comes out of full trees are parts of them. -/
theorem NodeReader.Unfolds.isFullPart
    {a b : List (Position × Node)}
    (h : Unfolds a b)
    (hAll : ∀ node ∈ a, node.2.IsFullPart) :
    ∀ node ∈ b, node.2.IsFullPart := by
  refine h.forall (P := fun _ node => node.IsFullPart) ?_ hAll
  rintro start node ⟨hRoot, hFull⟩ child hChild
  have hMem : child.2 ∈ node.children := by
    rw [← Node.map_placed start node.children]
    exact List.mem_map_of_mem hChild
  refine ⟨.inl (hRoot.isProper_child hMem), ?_⟩
  rcases hFull with ⟨leaf, rfl⟩ | hFull
  · cases hMem
  · exact Node.isFull_of_mem_children hRoot hFull hMem

namespace Parser

/- The tokens and the old tree ahead have nothing empty. -/
structure IsFull
    (parser : Parser) :
    Prop where
  stream : parser.stream.IsFull
  ahead : ∀ node ∈ parser.ahead, node.2.IsFullPart

variable {opened : IdSet} {parser after : Parser}

theorem not_isBracket_of_fits
    {room : Option Length}
    {node : Node}
    (h : fits room opened node = .ok true) :
    ¬ node.IsBracket := by
  rintro ⟨leaf, rfl⟩
  unfold fits at h
  split_ifs at h
  · cases h
  · cases h

/- No bracket is used again, and the tokens stay full. -/
theorem isFull_of_reuse?
    {found : Option Node}
    (hFull : parser.IsFull)
    (h : parser.reuse? opened = .ok (found, after)) :
    after.IsFull ∧
      ∀ node, found = some node → node.shape.IsFull := by
  rcases unfolds_reuse? h with ⟨offset, hUnfolds⟩
  have hAll := hUnfolds.isFullPart hFull.ahead
  rw [List.forall_mem_append] at hAll
  have hStream :
      after.stream.IsFull ∧
        ∀ node, found = some node → ¬ node.IsBracket := by
    unfold reuse? at h
    split at h
    · cases h
      exact ⟨hFull.stream, forall_of_absent⟩
    · dsimp only at h
      split_ifs at h
      · cases h
        exact ⟨hFull.stream, forall_of_absent⟩
      · rcases Checked.bind_eq_ok_iff.1 h with
          ⟨⟨node, left⟩, hRead, h⟩
        have hTest :=
          (NodeReader.unfolds_readLongestAt hRead).2
        cases node with
        | none =>
            cases h
            exact ⟨hFull.stream, forall_of_absent⟩
        | some node =>
            rcases Checked.bind_eq_ok_iff.1 h with
              ⟨stream, hSkip, h⟩
            cases h
            refine ⟨TokenStream.isFull_of_skip hFull.stream
              hSkip, ?_⟩
            rintro _ ⟨⟩
            exact not_isBracket_of_fits (hTest node rfl)
  refine ⟨⟨hStream.1, hAll.2⟩, ?_⟩
  rintro node rfl
  exact (hAll.1 (offset, node) (by simp)).2.resolve_left
    (hStream.2 node rfl)

theorem isFull_of_peek
    {token : Option Token}
    (hFull : parser.IsFull)
    (h : parser.peek = .ok (token, after)) :
    Token.NotEmpty token ∧ after.IsFull := by
  have hAhead := ahead_peek h
  rcases Checked.bind_eq_ok_iff.1 h with
    ⟨⟨next, stream⟩, hPeek, h⟩
  cases h
  rcases TokenStream.isFull_of_peek hFull.stream hPeek with
    ⟨hToken, hStream⟩
  exact ⟨hToken, hStream, hAhead ▸ hFull.ahead⟩

theorem isFull_of_read
    {token : Option Token}
    (hFull : parser.IsFull)
    (h : parser.read = .ok (token, after)) :
    Token.NotEmpty token ∧ after.IsFull := by
  have hAhead := ahead_read h
  rcases Checked.bind_eq_ok_iff.1 h with
    ⟨⟨next, stream⟩, hRead, h⟩
  cases h
  rcases TokenStream.isFull_of_read hFull.stream hRead with
    ⟨hToken, hStream⟩
  exact ⟨hToken, hStream, hAhead ▸ hFull.ahead⟩

theorem isFull_of_reads
    {token : Option Token}
    (hFull : parser.IsFull)
    (h : Reads opened parser token after) :
    Token.NotEmpty token ∧ after.IsFull := by
  rcases h with ⟨unused, seen, next, hReuse, hPeek, _, hRead⟩
  have hUnused := (isFull_of_reuse? hFull hReuse).1
  rcases (isFull_of_peek hUnused hPeek).2 with
    ⟨hStream, hAhead⟩
  have hCounted : seen.countConstructed.IsFull :=
    ⟨hStream, hAhead⟩
  exact isFull_of_read hCounted hRead

/- A closing bracket is the token that was looked at. -/
theorem isFull_of_readClosing
    {opening : Bracket}
    {id : Option Nat}
    {closing : Option Node}
    (hFull : parser.IsFull)
    (h :
      parser.readClosing opening id = .ok (closing, after)) :
    after.IsFull ∧
      ∀ sign, closing.map Node.sign = some sign →
        sign.length ≠ 0 := by
  rcases Checked.bind_eq_ok_iff.1 h with
    ⟨⟨next, seen⟩, hPeek, h⟩
  rcases isFull_of_peek hFull hPeek with ⟨hNext, hSeen⟩
  simp only at h
  split at h
  · split_ifs at h
    · rcases Checked.bind_eq_ok_iff.1 h with
        ⟨⟨last, left⟩, hRead, h⟩
      cases h
      refine ⟨(isFull_of_read hSeen hRead).2, ?_⟩
      rintro _ ⟨⟩
      exact hNext _ rfl
    · cases h
      exact ⟨hSeen, forall_of_absent⟩
  · cases h
    exact ⟨hSeen, forall_of_absent⟩

/- A leaf is not empty, and none but text has no ids. -/
theorem isFull_of_leafOf
    {level : Nat}
    {token : Option Token}
    {node : Node}
    (hToken : Token.NotEmpty token)
    (h : leafOf level token = some node) :
    node.shape.IsFull := by
  unfold leafOf at h
  split at h
  · cases h
    trivial
  · cases h
    exact ⟨⟨rfl, hToken _ rfl⟩, trivial⟩
  · split_ifs at h
    · cases h
      exact ⟨hToken _ rfl, trivial⟩
    · cases h
      exact ⟨⟨rfl, hToken _ rfl⟩, trivial⟩

/- The shape of a pair that is made of items. -/
theorem shape_of_pairOf
    {leaf : Bracket}
    {items : List Node}
    {child closing : Option Node}
    {node : Node}
    (hChild : parser.joinItems items = .ok child)
    (hNode :
      Node.pairOf (.bracket leaf) child closing = .ok node) :
    node.shape =
      .pair (Sign.bracket leaf) (Node.shapeOfAll items)
        (closing.map Node.sign) .nil := by
  rcases Node.eq_of_pairOf hNode with rfl
  have hItems := (regroups_joinItems hChild).shapeOfAll_eq
  rw [Node.shapeOfAll_toList] at hItems
  rw [Node.shape_pair, hItems]
  rfl

/-
  What a parse makes of full tokens and a full tree is full,
  and so is what it leaves.
-/
theorem isFull_of_makes
    {level : Nat}
    {items : List Node}
    (h : Makes opened level parser items after)
    (hFull : parser.IsFull) :
    (Node.shapeOfAll items).IsFull ∧ after.IsFull := by
  induction h with
  | bounded opened level parser => exact ⟨trivial, hFull⟩
  | stopped level hReuse hPeek _ =>
      exact ⟨trivial, (isFull_of_peek
        (isFull_of_reuse? hFull hReuse).1 hPeek).2⟩
  | reused hReuse _ ih =>
      rcases isFull_of_reuse? hFull hReuse with ⟨hNext, hNode⟩
      rcases ih hNext with ⟨hRest, hAfter⟩
      rw [Node.shapeOfAll_withItem, Forest.isFull_append]
      exact ⟨⟨hNode _ rfl, hRest⟩, hAfter⟩
  | leaf hRead hLeaf _ ih =>
      rcases isFull_of_reads hFull hRead with ⟨hToken, hNext⟩
      rcases ih hNext with ⟨hRest, hAfter⟩
      rw [Node.shapeOfAll_withItem, Forest.isFull_append]
      exact ⟨⟨isFull_of_leafOf hToken hLeaf, hRest⟩, hAfter⟩
  | pair hRead _ _ _ hChild hClosing hNode _ ihInside
      ihRest =>
      rcases isFull_of_reads hFull hRead with ⟨hToken, hNext⟩
      rcases ihInside hNext with ⟨hInside, hBehind⟩
      rcases isFull_of_readClosing hBehind hClosing with
        ⟨hClosed, hLast⟩
      rcases ihRest hClosed with ⟨hRest, hAfter⟩
      rw [Node.shapeOfAll_withItem, Forest.isFull_append,
        shape_of_pairOf hChild hNode]
      exact ⟨⟨⟨hToken _ rfl, hInside, hLast, trivial⟩, hRest⟩,
        hAfter⟩

end Parser

/- So is the tree of a whole parse. -/
theorem isFull_parseDocument
    {stream : TokenStream}
    {edits : List Edit}
    {old : Option Node}
    {root : Node}
    {stats : ParseStats}
    (hStream : stream.IsFull)
    (hOld :
      ∀ tree, old = some tree →
        tree.IsRoot ∧ tree.shape.IsFull)
    (h : parseDocument stream edits old = .ok (root, stats)) :
    root.shape.IsFull := by
  rcases exists_makes_of_parseDocument h with
    ⟨map, items, after, _, hMakes, hRegroups⟩
  have hAhead :
      ∀ node ∈ (Parser.ofStream stream map old).ahead,
        node.2.IsFullPart := by
    rw [Parser.ahead_ofStream]
    cases old with
    | none => simp
    | some tree =>
        rcases hOld tree rfl with ⟨hRoot, hFull⟩
        simpa using ⟨hRoot, .inr hFull⟩
  have hItems :=
    (Parser.isFull_of_makes hMakes ⟨hStream, hAhead⟩).1
  rw [← hRegroups.shapeOfAll_eq, Node.shapeOfAll,
    Node.shapeOfAll, Forest.append_nil] at hItems
  exact hItems

end Bracketry

------------------------------------------------------------
-- What Is Read Fits
------------------------------------------------------------

namespace Bracketry

namespace TokenStream

variable {stream after : TokenStream} {token : Option Token}

/- The stream moves behind what it reads, which fits. -/
theorem offset_passed
    {source : TokenSource}
    {next : Token}
    (h : stream.passed source next = .ok (token, after)) :
    token = some next ∧
      (stream.offset + next.length).Fits ∧
      after.offset = stream.offset + next.length := by
  rcases Checked.bind_eq_ok_iff.1 h with ⟨offset, hOffset, h⟩
  rcases Length.plus_eq_ok_iff.1 hOffset with ⟨hFits, rfl⟩
  cases h
  exact ⟨rfl, hFits, rfl⟩

theorem offset_read
    (h : stream.read = .ok (token, after)) :
    (token = none ∧ after.offset = stream.offset) ∨
      ∃ next,
        token = some next ∧
          (stream.offset + next.length).Fits ∧
          after.offset = stream.offset + next.length := by
  unfold read at h
  split at h
  · cases h
    exact .inl ⟨rfl, rfl⟩
  · exact .inr ⟨_, offset_passed h⟩
  · cases h
    exact .inl ⟨rfl, rfl⟩
  · exact .inr ⟨_, offset_passed h⟩
  · rcases Checked.bind_eq_ok_iff.1 h with ⟨⟨next, left⟩, _, h⟩
    cases next with
    | none =>
        cases h
        exact .inl ⟨rfl, rfl⟩
    | some next => exact .inr ⟨_, offset_passed h⟩

theorem offset_peek
    (h : stream.peek = .ok (token, after)) :
    after.offset = stream.offset := by
  unfold peek at h
  split at h
  · cases h
    rfl
  · cases h
    rfl
  · rcases Checked.bind_eq_ok_iff.1 h with ⟨⟨next, left⟩, _, h⟩
    cases h
    rfl

/- What was looked at is what is read. -/
theorem read_eq_of_peek
    {seen : TokenStream}
    {next : Option Token}
    (hPeek : stream.peek = .ok (next, seen))
    (hRead : seen.read = .ok (token, after)) :
    token = next := by
  have hLines :
      ∀ source reader offset,
        read ⟨.lines source reader (some next), offset⟩ =
            .ok (token, after) →
          token = next := by
    intro source reader offset hLines
    cases next with
    | none =>
        cases hLines
        rfl
    | some next => exact (offset_passed hLines).1
  unfold peek at hPeek
  split at hPeek
  · rename_i tokens length hSource
    cases hPeek
    rcases stream with ⟨source, offset⟩
    subst hSource
    cases tokens with
    | nil =>
        cases hRead
        rfl
    | cons first rest => exact (offset_passed hRead).1
  · rename_i source reader seen hSource
    cases hPeek
    rcases stream with ⟨_, offset⟩
    subst hSource
    exact hLines source reader offset hRead
  · rename_i source reader hSource
    rcases Checked.bind_eq_ok_iff.1 hPeek with
      ⟨⟨found, left⟩, _, hPeek⟩
    cases hPeek
    exact hLines source left stream.offset hRead

end TokenStream

namespace Parser

variable {opened : IdSet} {parser after : Parser}

/-
  A parser without an old tree has come from one place to
  another, and each stretch that it read fits.
-/
structure Passes
    (parser : Parser)
    (lengths : List Length)
    (after : Parser) :
    Prop where
  old : after.old = none
  offset :
    after.stream.offset = parser.stream.offset + lengths.sum
  fits : Length.FitBehind parser.stream.offset lengths

theorem Passes.trans
    {next : Parser}
    {a b : List Length}
    (h : parser.Passes a next)
    (hNext : next.Passes b after) :
    parser.Passes (a ++ b) after := by
  refine ⟨hNext.old, ?_, ?_⟩
  · rw [hNext.offset, h.offset, List.sum_append, add_assoc]
  · rw [Length.fitBehind_append, ← h.offset]
    exact ⟨h.fits, hNext.fits⟩

theorem passes_nil
    (hOld : after.old = none)
    (hOffset : after.stream.offset = parser.stream.offset) :
    parser.Passes [] after :=
  ⟨hOld, by rw [hOffset, List.sum_nil, add_zero], trivial⟩

theorem eq_of_reuse?_of_old
    {found : Option Node}
    (hOld : parser.old = none)
    (h : parser.reuse? opened = .ok (found, after)) :
    found = none ∧ after = parser := by
  unfold reuse? at h
  rw [hOld] at h
  cases h
  exact ⟨rfl, rfl⟩

theorem passes_peek
    {token : Option Token}
    (hOld : parser.old = none)
    (h : parser.peek = .ok (token, after)) :
    parser.Passes [] after := by
  rcases Checked.bind_eq_ok_iff.1 h with
    ⟨⟨next, stream⟩, hPeek, h⟩
  cases h
  exact passes_nil hOld (TokenStream.offset_peek hPeek)

theorem passes_read
    {token : Option Token}
    (hOld : parser.old = none)
    (h : parser.read = .ok (token, after)) :
    parser.Passes (token.toList.map Token.length) after := by
  rcases Checked.bind_eq_ok_iff.1 h with
    ⟨⟨next, stream⟩, hRead, h⟩
  cases h
  rcases TokenStream.offset_read hRead with
    ⟨rfl, hOffset⟩ | ⟨token, rfl, hFits, hOffset⟩
  · exact passes_nil hOld hOffset
  · exact ⟨hOld, by simpa using hOffset, hFits, trivial⟩

theorem passes_reads
    {token : Option Token}
    (hOld : parser.old = none)
    (h : Reads opened parser token after) :
    parser.Passes (token.toList.map Token.length) after := by
  rcases h with ⟨unused, seen, next, hReuse, hPeek, _, hRead⟩
  rcases eq_of_reuse?_of_old hOld hReuse with ⟨-, rfl⟩
  have hSeen := passes_peek hOld hPeek
  have hCounted : unused.Passes [] seen.countConstructed :=
    ⟨hSeen.old, hSeen.offset, hSeen.fits⟩
  exact hCounted.trans (passes_read hCounted.old hRead)

theorem read_eq_of_peek
    {seen : Parser}
    {token next : Option Token}
    (hPeek : parser.peek = .ok (next, seen))
    (hRead : seen.read = .ok (token, after)) :
    token = next := by
  rcases Checked.bind_eq_ok_iff.1 hPeek with
    ⟨⟨first, stream⟩, hFirst, hPeek⟩
  cases hPeek
  rcases Checked.bind_eq_ok_iff.1 hRead with
    ⟨⟨last, left⟩, hLast, hRead⟩
  cases hRead
  exact TokenStream.read_eq_of_peek hFirst hLast

/- The closing bracket that was looked at is passed. -/
theorem passes_readClosing
    {opening : Bracket}
    {id : Option Nat}
    {closing : Option Node}
    (hOld : parser.old = none)
    (h :
      parser.readClosing opening id = .ok (closing, after)) :
    parser.Passes
      ((closing.map Node.sign).toList.map Sign.length)
      after := by
  rcases Checked.bind_eq_ok_iff.1 h with
    ⟨⟨next, seen⟩, hPeek, h⟩
  have hSeen := passes_peek hOld hPeek
  simp only at h
  split at h
  · split_ifs at h
    · rcases Checked.bind_eq_ok_iff.1 h with
        ⟨⟨last, left⟩, hRead, h⟩
      cases h
      rcases read_eq_of_peek hPeek hRead with rfl
      exact hSeen.trans (passes_read hSeen.old hRead)
    · cases h
      exact hSeen
  · cases h
    exact hSeen

/- A leaf is as long as its token. -/
theorem lengths_leafOf
    {level : Nat}
    {token : Option Token}
    {node : Node}
    (h : leafOf level token = some node) :
    node.shape.lengths = token.toList.map Token.length := by
  unfold leafOf at h
  split at h
  · cases h
    rfl
  · cases h
    rfl
  · split_ifs at h
    · cases h
      rfl
    · cases h
      rfl

/- What is made from tokens alone is what was read. -/
theorem passes_of_makes
    {level : Nat}
    {items : List Node}
    (h : Makes opened level parser items after)
    (hOld : parser.old = none) :
    parser.Passes (Node.shapeOfAll items).lengths after := by
  induction h with
  | bounded opened level parser => exact passes_nil hOld rfl
  | stopped level hReuse hPeek _ =>
      rcases eq_of_reuse?_of_old hOld hReuse with ⟨-, rfl⟩
      exact passes_peek hOld hPeek
  | reused hReuse _ _ =>
      cases (eq_of_reuse?_of_old hOld hReuse).1
  | leaf hRead hLeaf _ ih =>
      have hNext := passes_reads hOld hRead
      rw [Node.shapeOfAll_withItem, Forest.lengths_append,
        lengths_leafOf hLeaf]
      exact hNext.trans (ih hNext.old)
  | pair hRead _ _ _ hChild hClosing hNode _ ihInside
      ihRest =>
      have hNext := passes_reads hOld hRead
      have hInside := hNext.trans (ihInside hNext.old)
      have hClosed :=
        hInside.trans (passes_readClosing hInside.old hClosing)
      rw [Node.shapeOfAll_withItem, Forest.lengths_append,
        shape_of_pairOf hChild hNode, Forest.lengths_pair,
        ← List.cons_append]
      exact hClosed.trans (ihRest hClosed.old)

end Parser

/- The leaves of a tree that is parsed from scratch fit. -/
theorem fitBehind_parseDocument
    {stream : TokenStream}
    {edits : List Edit}
    {root : Node}
    {stats : ParseStats}
    (h : parseDocument stream edits none = .ok (root, stats)) :
    Length.FitBehind stream.offset root.shape.lengths := by
  rcases exists_makes_of_parseDocument h with
    ⟨map, items, after, _, hMakes, hRegroups⟩
  have hItems := (Parser.passes_of_makes hMakes rfl).fits
  rw [← hRegroups.shapeOfAll_eq, Node.shapeOfAll,
    Node.shapeOfAll, Forest.append_nil] at hItems
  exact hItems

end Bracketry

------------------------------------------------------------
-- Built Trees
------------------------------------------------------------

namespace Bracketry

namespace Node

/-
  A parse makes the tree, from scratch or with parts of a
  tree that was made before; and its nodes may have keys.

  Places are counted in 32 bits.  All that is read is known
  to end at a place that fits; of a part that is used again,
  this is asked of the leaves inside it.
-/
inductive IsBuilt : Node → Prop where
  | ofText
    {edits : List Edit}
    {root : Node}
    {stats : ParseStats}
    (declaration : BracketDeclaration)
    (text : List Char)
    (hParse :
      parseDocument
          (TokenStream.ofText
            (TokenTable.ofDeclaration declaration) text)
          edits none =
        .ok (root, stats)) :
    IsBuilt root
  | ofLines
    {source : LineSource}
    {edits : List Edit}
    {old : Option Node}
    {root : Node}
    {stats : ParseStats}
    (declaration : BracketDeclaration)
    (hTable :
      source.table = TokenTable.ofDeclaration declaration)
    (hOld : ∀ tree, old = some tree → IsBuilt tree)
    (hParse :
      parseDocument (TokenStream.ofLines source) edits old =
        .ok (root, stats))
    (hFits :
      old.isSome = true →
        Length.FitBehind 0 (root.leaves.map length)) :
    IsBuilt root
  | keyed
    {root : Node}
    (next : Nat)
    (hRoot : IsBuilt root) :
    IsBuilt (root.giveKeys next).1

/- A text that is parsed, and a test that its tree passes. -/
theorem exists_isBuilt
    {declaration : BracketDeclaration}
    {text : List Char}
    (test : Node → Bool)
    (h :
      (parseDocument
        (TokenStream.ofText
          (TokenTable.ofDeclaration declaration) text)
        [] none).toOption.any (test ·.1) = true) :
    ∃ root stats,
      parseDocument
          (TokenStream.ofText
            (TokenTable.ofDeclaration declaration) text)
          [] none =
        .ok (root, stats) ∧
        root.IsBuilt ∧ test root = true := by
  cases hParse :
    parseDocument
      (TokenStream.ofText
        (TokenTable.ofDeclaration declaration) text)
      [] none with
  | error fault =>
      rw [hParse] at h
      cases h
  | ok result =>
      rcases result with ⟨root, stats⟩
      rw [hParse] at h
      exact ⟨root, stats, rfl,
        .ofText declaration text hParse, h⟩

/- What every built tree is. -/
structure IsSound
    (root : Node) :
    Prop where
  isRoot : root.IsRoot
  isFull : root.shape.IsFull
  fits : Length.FitBehind 0 root.shape.lengths

theorem IsSound.giveKeys
    {root : Node}
    (next : Nat)
    (h : root.IsSound) :
    (root.giveKeys next).1.IsSound := by
  have hShape := (isRekeyed_giveKeys root next).shape
  refine ⟨isRoot_giveKeys next h.isRoot, ?_, ?_⟩
  · rw [hShape]
    exact h.isFull
  · rw [hShape]
    exact h.fits

/- What is parsed with a sound tree or without is sound. -/
theorem isSound_parseDocument
    {stream : TokenStream}
    {edits : List Edit}
    {old : Option Node}
    {root : Node}
    {stats : ParseStats}
    (hReady : stream.IsReady)
    (hStream : stream.IsFull)
    (hSkips : old.isSome = true → stream.canSkip = true)
    (hOld : ∀ tree, old = some tree → tree.IsSound)
    (hParse :
      parseDocument stream edits old = .ok (root, stats))
    (hFits :
      old.isSome = true →
        Length.FitBehind 0 (root.leaves.map length))
    (hOffset : stream.offset = 0) :
    root.IsSound := by
  have hEnds :
      Checked.Ends (fun _ => True)
        (fun result => result.1.IsRoot)
        (parseDocument stream edits old) :=
    ends_parseDocument trivial trivial hReady hSkips
      fun tree hTree => (hOld tree hTree).isRoot
  have hRoot : root.IsRoot := hEnds.of_ok hParse
  have hFull :=
    isFull_parseDocument hStream
      (fun tree hTree =>
        ⟨(hOld tree hTree).isRoot, (hOld tree hTree).isFull⟩)
      hParse
  refine ⟨hRoot, hFull, ?_⟩
  cases old with
  | none =>
      rw [← hOffset]
      exact fitBehind_parseDocument hParse
  | some tree =>
      rw [← lengths_shape_of_isRoot hRoot]
      exact hFits rfl

theorem IsBuilt.isSound
    {root : Node}
    (h : root.IsBuilt) :
    root.IsSound := by
  induction h with
  | ofText declaration text hParse =>
      have hSolid :=
        TokenTable.isSolid_ofDeclaration declaration
      refine isSound_parseDocument ?_
        (TokenStream.isFull_ofText hSolid text) ?_ ?_ hParse
        ?_ rfl
      · trivial
      · rintro ⟨⟩
      · rintro _ ⟨⟩
      · rintro ⟨⟩
  | @ofLines source _ _ _ _ declaration hTable _ hParse hFits
      hOld =>
      have hSolid : source.table.IsSolid := by
        rw [hTable]
        exact TokenTable.isSolid_ofDeclaration declaration
      exact isSound_parseDocument (by rintro _ ⟨⟩)
        (TokenStream.isFull_ofLines hSolid) (fun _ => rfl)
        hOld hParse hFits rfl
  | keyed next _ ih => exact ih.giveKeys next

/-
  A tree that lies at a place: brackets stand in pairs,
  no leaf is empty, parts fill what they are part of, and
  all ends at places that fit.
-/
inductive LiesAt : Position → Node → Prop where
  | text
    {start : Position}
    {length : Length}
    (key : Option Nat)
    (hLength : length ≠ 0)
    (hStop : (start + length).Fits) :
    LiesAt start (.text key length)
  | stray
    {start : Position}
    {length : Length}
    (key : Option Nat)
    (ids : IdSet)
    (hLength : length ≠ 0)
    (hStop : (start + length).Fits) :
    LiesAt start (.invalid key ids length)
  | pair
    {start : Position}
    {length : Length}
    {opener : Bracket}
    {child : Option Node}
    {closer : Option Bracket}
    (key : Option Nat)
    (missing : IdSet)
    (hOpener : opener.length ≠ 0)
    (hMiddle : (start + opener.length).Fits)
    (hChild :
      ∀ part, child = some part →
        LiesAt (start + opener.length) part)
    (hCloser : ∀ leaf, closer = some leaf → leaf.length ≠ 0)
    (hLength :
      length =
        opener.length +
          (partLength child +
            partLength (closer.map .bracket)))
    (hStop : (start + length).Fits) :
    LiesAt start
      (.pair key length missing (.bracket opener) child
        (closer.map .bracket))
  | list
    {start : Position}
    {length : Length}
    {items : List Node}
    (key : Option Nat)
    (height : Nat)
    (missing : IdSet)
    (hSome : 2 ≤ items.length)
    (hItems : ∀ row ∈ placed start items, LiesAt row.1 row.2)
    (hLength : length = (items.map Node.length).sum)
    (hStop : (start + length).Fits) :
    LiesAt start (.list key height length missing items)

theorem LiesAt.stop
    {start : Position}
    {node : Node}
    (h : LiesAt start node) :
    (start + node.length).Fits := by
  cases h <;> assumption

theorem LiesAt.ne_zero
    {start : Position}
    {node : Node}
    (h : LiesAt start node) :
    node.length ≠ 0 := by
  induction h with
  | text key hLength hStop => exact hLength
  | stray key ids hLength hStop => exact hLength
  | pair key missing hOpener hMiddle hChild hCloser hLength
      hStop ih =>
      rw [Node.length, hLength]
      exact Length.add_ne_zero _ hOpener
  | @list start length items key height missing hSome hItems
      hLength hStop ih =>
      cases items with
      | nil => cases hSome
      | cons first rest =>
          rw [placed, List.forall_mem_cons] at ih
          rw [Node.length, hLength, List.map_cons,
            List.sum_cons]
          exact Length.add_ne_zero _ ih.1

/- The parts of a pair lie behind each other. -/
theorem liesAt_pair
    {start : Position}
    {key : Option Nat}
    {length : Length}
    {missing : IdSet}
    {opening : Node}
    {child closing : Option Node}
    (hStart : start.Fits)
    (hProper :
      (Node.pair key length missing opening child
        closing).IsProper)
    (hFull :
      (Node.pair key length missing opening child
        closing).shape.IsFull)
    (hFits :
      Length.FitBehind start
        (Node.pair key length missing opening child
          closing).shape.lengths)
    (hChild :
      ∀ part start, child = some part → start.Fits →
        part.IsProper → part.shape.IsFull →
          Length.FitBehind start part.shape.lengths →
            LiesAt start part) :
    LiesAt start
      (.pair key length missing opening child closing) := by
  have hStop := hFits.stop hStart
  rw [← length_eq_lengths hProper, Node.length] at hStop
  rcases isProper_pair.1 hProper with
    ⟨⟨opener, rfl⟩, hClosing, hLength, _, hInside⟩
  rw [shape_pair] at hFull hFits
  rw [Forest.lengths_pair, Length.FitBehind,
    Length.fitBehind_append] at hFits
  rcases hFull with ⟨hOpener, hFullInside, hLast, _⟩
  rcases hFits with ⟨hMiddle, hFitsInside, _⟩
  rcases exists_closer hClosing with ⟨closer, rfl⟩
  refine .pair key missing hOpener hMiddle ?_ ?_ hLength hStop
  · rintro part rfl
    exact hChild part _ rfl hMiddle (hInside part rfl)
      hFullInside hFitsInside
  · rintro leaf rfl
    exact hLast _ rfl

/- A proper tree that is full and fits lies at its place. -/
theorem liesAt_of_isProper
    {start : Position}
    {node : Node}
    (hStart : start.Fits)
    (hProper : node.IsProper)
    (hFull : node.shape.IsFull)
    (hFits : Length.FitBehind start node.shape.lengths) :
    LiesAt start node := by
  induction node using Node.induction
    generalizing start with
  | text key length => exact .text key hFull.1.2 hFits.1
  | bracket leaf => cases hFull.1.1
  | invalid key ids length => exact .stray key ids hFull.1 hFits.1
  | pair key length missing opening child closing ih =>
      exact liesAt_pair hStart hProper hFull hFits
        fun part start hPart hStart hProper hFull hFits =>
          ih part hPart hStart hProper hFull hFits
  | list key height length missing items ih =>
      have hStop := hFits.stop hStart
      rw [← length_eq_lengths hProper, Node.length] at hStop
      have hItems := isProper_item hProper
      rcases hProper with ⟨hCount, hLength, -⟩
      refine .list key height missing (by omega) ?_ hLength
        hStop
      clear hCount hLength hStop
      rw [shape] at hFull hFits
      induction items generalizing start with
      | nil => exact List.forall_mem_nil _
      | cons item rest ihRest =>
          rw [List.forall_mem_cons] at ih hItems
          rw [shapeOfAll, Forest.lengths_append,
            Length.fitBehind_append] at hFits
          rw [shapeOfAll, Forest.isFull_append] at hFull
          have hItem :=
            ih.1 hStart hItems.1.2 hFull.1 hFits.1
          rw [placed, List.forall_mem_cons]
          refine ⟨hItem, ?_⟩
          have hRest := hFits.2
          rw [← length_eq_lengths hItems.1.2] at hRest
          exact ihRest ih.2 hItem.stop hFull.2 hRest hItems.2

/- A built tree lies at the start, unless it is empty. -/
theorem IsBuilt.liesAt
    {root : Node}
    (h : root.IsBuilt) :
    LiesAt 0 root ∨
      ∃ key, root = .list key 0 0 IdSet.empty [] := by
  rcases h.isSound with ⟨hRoot, hFull, hFits⟩
  refine hRoot.imp_left fun hProper => ?_
  exact liesAt_of_isProper Length.fits_zero hProper hFull hFits

end Node

end Bracketry
