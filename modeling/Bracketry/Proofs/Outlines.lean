import Bracketry.Proofs.Matching
import Bracketry.Proofs.Walking
import Bracketry.Tree.Outline

/-
  Outlines and brackets.

  The outline of a tree is that of the forest that it shows,
  with the places of its tokens.  Text does not count in it.
  So two trees of matched forests that are equally long have
  one outline, if their brackets are the same and stand at
  the same places.

  Key definitions include:
    * `Forest.entries`

  Main declarations:
    * `Node.entries_eq`
    * `Node.outline_of_brackets`
-/

------------------------------------------------------------
-- Outlines of Forests
------------------------------------------------------------

namespace Bracketry

namespace Placed

/- Where a token ends. -/
def stop
    (placed : Placed) :
    Position :=
  placed.start + placed.token.length

/- How the bracket of a pair is shown. -/
def mark
    (placed : Placed) :
    Mark :=
  match placed.token with
  | .text _ => .text
  | .bracket leaf _ => .bracket leaf.kind.literal

/- The entry of the bracket of a pair. -/
def entry
    (depth : Nat)
    (placed : Placed) :
    Entry :=
  ⟨depth, placed.mark, ⟨placed.start, placed.stop⟩⟩

end Placed

namespace Forest

/-
  The entries of a forest up to a place.  A pair that is not
  closed ends where its forest does.
-/
def entries
    (depth : Nat)
    (stop : Position) :
    Forest Placed → List Entry
  | .nil => []
  | .leaf _ rest => rest.entries depth stop
  | .stray t rest =>
      ⟨depth, .invalid, ⟨t.start, t.stop⟩⟩ ::
        rest.entries depth stop
  | .pair opening inside closing rest =>
      let innerStop := (closing.map Placed.start).getD stop
      let outerStop := (closing.map Placed.stop).getD stop
      ⟨depth, .pair closing.isSome,
          ⟨opening.start, outerStop⟩⟩ ::
        opening.entry (depth + 1) ::
          (inside.entries (depth + 1) innerStop ++
            (closing.toList.map (Placed.entry (depth + 1)) ++
              rest.entries depth stop))

variable {depth : Nat} {stop : Position}

/- Text has no entry. -/
theorem entries_dropText
    (forest : Forest Placed) :
    forest.dropText.entries depth stop =
      forest.entries depth stop := by
  induction forest generalizing depth stop with
  | nil => rfl
  | leaf t rest ih =>
      rw [dropText]
      split_ifs
      · exact ih
      · exact ih
  | stray t rest ih => rw [dropText, entries, entries, ih]
  | pair opening inside closing rest ihInside ih =>
      rw [dropText, entries, entries, ih, ihInside]

/- Only a pair that is not closed counts where it ends. -/
theorem entries_of_isClosed
    (other : Position)
    {forest : Forest Placed}
    (h : forest.IsClosed) :
    forest.entries depth stop =
      forest.entries depth other := by
  induction forest with
  | nil => rfl
  | leaf t rest ih => exact ih h
  | stray t rest ih => rw [entries, entries, ih h]
  | pair opening inside closing rest _ ih =>
      cases closing with
      | none => cases h.1
      | some t =>
          rw [entries, entries, ih h.2]
          rfl

theorem entries_append
    (a b : Forest Placed) :
    (a ++ b).entries depth stop =
      a.entries depth stop ++ b.entries depth stop := by
  induction a with
  | nil => rfl
  | leaf t rest ih => exact ih
  | stray t rest ih => simp [entries, ih]
  | pair opening inside closing rest _ ih =>
      simp [entries, ih]

theorem place_append
    (start : Position)
    (a b : Forest Token) :
    (a ++ b).place start =
      a.place start ++ b.place (start + a.total) := by
  induction a generalizing start with
  | nil => simp [place, total, leaves]
  | leaf t rest ih =>
      simp [place, ih, total, leaves, add_assoc]
  | stray t rest ih =>
      simp [place, ih, total, leaves, add_assoc]
  | pair opening inside closing rest _ ih =>
      simp [place, ih, total, leaves, add_assoc]

theorem total_append
    (a b : Forest Token) :
    (a ++ b).total = a.total + b.total := by
  simp [total]

theorem isClosed_place
    {start : Position}
    {forest : Forest Token} :
    (forest.place start).IsClosed ↔ forest.IsClosed := by
  induction forest generalizing start with
  | nil => rfl
  | leaf t rest ih => exact ih
  | stray t rest ih => exact ih
  | pair opening inside closing rest _ ih =>
      simp [place, IsClosed, ih]

/-
  The entries of matched forests one behind the other.  The
  first one is closed, unless it is the last.
-/
theorem entries_place_append
    {a b : Forest Token}
    (start : Position)
    (hMatched : (a ++ b).IsMatched) :
    ((a ++ b).place start).entries depth
        (start + (a ++ b).total) =
      (a.place start).entries depth (start + a.total) ++
        (b.place (start + a.total)).entries depth
          (start + a.total + b.total) := by
  rw [place_append, entries_append, total_append, add_assoc]
  congr 1
  by_cases hNil : b = .nil
  · subst hNil
    rw [show (Forest.nil : Forest Token).total = 0 from rfl,
      add_zero]
  · exact entries_of_isClosed _
      (isClosed_place.2 (isClosed_of_append hMatched hNil))

end Forest

end Bracketry

------------------------------------------------------------
-- Outlines of Trees
------------------------------------------------------------

namespace Bracketry

namespace Node

/- The entry of a bracket of a pair. -/
theorem entries_of_sign
    {node : Node}
    {token : Token}
    {offset : Position}
    (depth : Nat)
    (hNode : node.IsBracket)
    (hSign : token.sign = node.sign)
    (hFits : (offset + token.length).Fits) :
    node.length = token.length ∧
      node.entries .brackets offset depth =
        .ok [Placed.entry depth ⟨offset, token⟩] := by
  rcases hNode with ⟨leaf, rfl⟩
  cases token with
  | text length =>
      have hKind := congrArg Sign.kind hSign
      cases hKind
  | bracket other id =>
      injection hSign with hLength _ hKind
      have hSame : leaf.kind = other.kind :=
        (Option.some.inj hKind).symm
      rw [Token.length, hLength] at hFits
      refine ⟨hLength.symm, ?_⟩
      simp [entries, ownEntry, Node.length,
        Length.plus_eq_ok hFits, ListingRule.brackets, mark,
        bind, Except.bind, pure, Except.pure, Placed.entry,
        Placed.mark, Placed.stop, Token.length, hSame,
        hLength]

/- The entries of a part that may be absent, and its end. -/
def partEntries
    (rule : ListingRule)
    (offset : Position)
    (depth : Nat) :
    Option Node → Checked (List Entry × Position)
  | none => .ok ([], offset)
  | some part => do
      let inner ← entries rule offset depth part
      let stop ← offset.plus part.length
      return (inner, stop)

theorem partEntries_some
    {rule : ListingRule}
    {offset stop : Position}
    {depth : Nat}
    {part : Node}
    {inner : List Entry} :
    partEntries rule offset depth (some part) =
        .ok (inner, stop) ↔
      entries rule offset depth part = .ok inner ∧
        offset.plus part.length = .ok stop := by
  cases hInner : entries rule offset depth part with
  | error fault => simp [partEntries, hInner, bind, Except.bind]
  | ok found =>
      cases hStop : offset.plus part.length <;>
        simp [partEntries, hInner, hStop, bind, Except.bind,
          pure, Except.pure]

/- A pair is listed with its parts, one after the other. -/
theorem entries_pair
    {rule : ListingRule}
    {offset middle last stop : Position}
    {depth : Nat}
    {key : Option Nat}
    {length : Length}
    {missing : IdSet}
    {opening : Node}
    {child closing : Option Node}
    {first inside behind : List Entry}
    (hFits : (offset + length).Fits)
    (hShown : rule.shows (.pair closing.isSome) = true)
    (hFirst :
      partEntries rule offset (depth + 1) (some opening) =
        .ok (first, middle))
    (hInside :
      partEntries rule middle (depth + 1) child =
        .ok (inside, last))
    (hBehind :
      partEntries rule last (depth + 1) closing =
        .ok (behind, stop)) :
    entries rule offset depth
        (.pair key length missing opening child closing) =
      .ok (⟨depth, .pair closing.isSome,
        ⟨offset, offset + length⟩⟩ ::
          (first ++ inside ++ behind)) := by
  have hOwn :
      ownEntry rule offset depth
          (.pair key length missing opening child closing) =
        .ok [⟨depth, .pair closing.isSome,
          ⟨offset, offset + length⟩⟩] := by
    simp [ownEntry, Node.length, Length.plus_eq_ok hFits,
      mark, hShown, bind, Except.bind, pure, Except.pure]
  have hDepth :
      innerDepth rule depth
          (.pair key length missing opening child closing) =
        depth + 1 :=
    if_pos hShown
  rcases partEntries_some.1 hFirst with ⟨hOpening, hMiddle⟩
  unfold entries
  simp only [hOwn, hDepth, hOpening, hMiddle, bind,
    Except.bind, pure, Except.pure]
  cases child with
  | none =>
      rcases Prod.mk.inj (Except.ok.inj hInside) with ⟨rfl, rfl⟩
      cases closing with
      | none =>
          rcases Prod.mk.inj (Except.ok.inj hBehind) with
            ⟨rfl, _⟩
          simp
      | some node =>
          rcases partEntries_some.1 hBehind with ⟨hNode, hStop⟩
          simp [hNode, hStop]
  | some inner =>
      rcases partEntries_some.1 hInside with ⟨hInner, hLast⟩
      cases closing with
      | none =>
          rcases Prod.mk.inj (Except.ok.inj hBehind) with
            ⟨rfl, _⟩
          simp [hInner, hLast]
      | some node =>
          rcases partEntries_some.1 hBehind with ⟨hNode, hStop⟩
          simp [hInner, hLast, hNode, hStop]

/- The entry of a closing bracket that may be absent. -/
theorem partEntries_of_sign
    {offset : Position}
    (closing : Option Node)
    (token : Option Token)
    (depth : Nat)
    (hClosing :
      ∀ node, closing = some node → node.IsBracket)
    (hSign : token.map Token.sign = closing.map sign)
    (hFits : (offset + Token.total token.toList).Fits) :
    partEntries .brackets offset depth closing =
      .ok ((token.map (Placed.mk offset)).toList.map
          (Placed.entry depth),
        offset + Token.total token.toList) := by
  cases token with
  | none =>
      rcases Option.map_eq_none_iff.1 hSign.symm with rfl
      rw [partEntries, Option.toList_none, Token.total_nil,
        add_zero]
      rfl
  | some t =>
      rcases Option.map_eq_some_iff.1 hSign.symm with
        ⟨node, rfl, hNode⟩
      rw [Option.toList_some, Token.total_cons,
        Token.total_nil, add_zero] at hFits ⊢
      rcases entries_of_sign depth (hClosing node rfl)
          hNode.symm hFits with
        ⟨hLength, hEntries⟩
      rw [partEntries_some]
      refine ⟨hEntries, ?_⟩
      rw [hLength, Length.plus_eq_ok hFits]

/- Trees have the entries of their forests, in order. -/
theorem entriesOfAll_eq
    {items : List Node}
    {forest : Forest Token}
    {offset : Position}
    (depth : Nat)
    (hEach :
      ∀ item ∈ items,
        ∀ {forest : Forest Token} {offset : Position}
          (depth : Nat),
          item.IsProper → forest.shape = item.shape →
            forest.IsMatched →
            Token.FitFrom offset forest.leaves →
              item.entries .brackets offset depth =
                .ok ((forest.place offset).entries depth
                  (offset + forest.total)))
    (hProper : ∀ item ∈ items, item.IsProper)
    (hShape : forest.shape = shapeOfAll items)
    (hMatched : forest.IsMatched)
    (hFits : Token.FitFrom offset forest.leaves) :
    entriesOfAll .brackets offset depth items =
      .ok ((forest.place offset).entries depth
        (offset + forest.total), offset + forest.total) := by
  induction items generalizing forest offset with
  | nil =>
      rcases Forest.shape_eq_nil.1 hShape with rfl
      rw [show (Forest.nil : Forest Token).total = 0 from rfl,
        add_zero]
      rfl
  | cons item rest ih =>
      rw [List.forall_mem_cons] at hEach hProper
      rcases Forest.exists_of_shape_append hShape with
        ⟨first, others, rfl, hFirst, hOthers⟩
      rw [Forest.leaves_append] at hFits
      have hItem :=
        hEach.1 depth hProper.1 hFirst
          (Forest.isMatched_of_append_left hMatched) hFits.left
      have hRest :=
        ih hEach.2 hProper.2 hOthers
          (Forest.isMatched_of_append_right hMatched)
          hFits.right
      have hNext : (offset + item.length).Fits := by
        rw [length_eq_total hProper.1 hFirst.symm]
        exact hFits.left.stop
      rw [entriesOfAll, hItem, Length.plus_eq_ok hNext,
        length_eq_total hProper.1 hFirst.symm,
        Forest.entries_place_append offset hMatched,
        Forest.total_append, ← add_assoc]
      simp only [bind, Except.bind]
      rw [Forest.total, hRest]
      rfl

/- The entries of what is inside a pair, and where it ends. -/
theorem partEntries_of_shape
    {child : Option Node}
    {inside : Forest Token}
    {offset : Position}
    {depth : Nat}
    (hChild : ∀ node, child = some node → node.IsProper)
    (hShape : inside.shape = partShape child)
    (hFits : Token.FitFrom offset inside.leaves)
    (hEach :
      ∀ node,
        child = some node → inside.shape = node.shape →
          node.entries .brackets offset depth =
            .ok ((inside.place offset).entries depth
              (offset + inside.total))) :
    partEntries .brackets offset depth child =
      .ok ((inside.place offset).entries depth
        (offset + inside.total), offset + inside.total) := by
  cases child with
  | none =>
      rcases Forest.shape_eq_nil.1 hShape with rfl
      rfl
  | some node =>
      have hTotal :=
        length_eq_total (hChild node rfl) hShape.symm
      have hStop := hFits.stop
      rw [← Forest.total] at hStop
      rw [partEntries_some]
      refine ⟨hEach node rfl hShape, ?_⟩
      rw [hTotal, Length.plus_eq_ok hStop]

/- The entries of a forest that is a single pair. -/
theorem entries_place_pair
    {o : Token}
    {inside : Forest Token}
    {c : Option Token}
    {offset : Position}
    {depth : Nat}
    {length : Length}
    (hTotal :
      length = (Forest.pair o inside c .nil).total) :
    ((Forest.pair o inside c .nil).place offset).entries depth
        (offset + length) =
      ⟨depth, .pair c.isSome, ⟨offset, offset + length⟩⟩ ::
        ([Placed.entry (depth + 1) ⟨offset, o⟩] ++
          (inside.place (offset + Token.total [o])).entries
            (depth + 1)
            (offset + Token.total [o] + inside.total) ++
          (c.map (Placed.mk
            (offset + Token.total [o] +
              inside.total))).toList.map
            (Placed.entry (depth + 1))) := by
  subst hTotal
  cases c <;>
    simp [Forest.place, Forest.entries, Forest.total,
      Forest.leaves, Placed.stop, add_assoc]

/- The entries of a tree are those of its forest. -/
theorem entries_eq
    {node : Node}
    {forest : Forest Token}
    {offset : Position}
    (depth : Nat)
    (hProper : node.IsProper)
    (hShape : forest.shape = node.shape)
    (hMatched : forest.IsMatched)
    (hFits : Token.FitFrom offset forest.leaves) :
    node.entries .brackets offset depth =
      .ok ((forest.place offset).entries depth
        (offset + forest.total)) := by
  induction node using Node.induction
    generalizing forest offset depth with
  | text key length =>
      rcases Forest.exists_of_shape_eq_leaf hShape with
        ⟨t, rfl, hSign⟩
      have hStop := hFits.stop
      injection hSign with hLength
      rw [Forest.leaves, Forest.leaves, Token.total_cons,
        Token.total_nil, add_zero, hLength] at hStop
      simp [entries, ownEntry, Node.length,
        Length.plus_eq_ok hStop, ListingRule.brackets, mark,
        bind, Except.bind, pure, Except.pure, Forest.entries,
        Forest.place]
  | bracket leaf =>
      rcases Forest.exists_of_shape_eq_leaf hShape with
        ⟨t, rfl, hSign⟩
      have hKind := congrArg Sign.kind hSign
      cases hKind
  | invalid key ids length =>
      rcases Forest.exists_of_shape_eq_stray hShape with
        ⟨t, rfl, hSign⟩
      have hStop := hFits.stop
      injection hSign with hLength
      rw [Forest.leaves, Forest.leaves, Token.total_cons,
        Token.total_nil, add_zero, hLength] at hStop
      simp [entries, ownEntry, Node.length,
        Length.plus_eq_ok hStop, ListingRule.brackets, mark,
        bind, Except.bind, pure, Except.pure, Forest.entries,
        Forest.place, Placed.stop, hLength]
  | pair key length missing opening child closing ih =>
      have hTotal := length_eq_total hProper hShape.symm
      rcases isProper_pair.1 hProper with
        ⟨hOpening, hClosing, _, _, hChild⟩
      rw [shape_pair] at hShape
      rcases Forest.exists_of_shape_eq_pair hShape with
        ⟨o, i, c, rfl, hSign, hInside, hLast⟩
      have hStop := hFits.stop
      rw [← Forest.total, ← hTotal, Node.length] at hStop
      have hAll :
          Token.FitFrom offset
            ([o] ++ (i.leaves ++ c.toList)) := by
        rw [Forest.leaves, Forest.leaves, List.append_nil]
          at hFits
        exact hFits
      have hRest := hAll.right
      have hFirst :=
        partEntries_of_sign (some opening) (some o)
          (depth + 1) (by rintro _ ⟨⟩; exact hOpening)
          (congrArg some hSign) hAll.left.stop
      have hChildEntries :=
        partEntries_of_shape hChild hInside hRest.left
          fun node hSome hNode =>
            ih node hSome (depth + 1) (hChild node hSome) hNode
              hMatched.2.1 hRest.left
      have hBehind :=
        partEntries_of_sign closing c (depth + 1) hClosing
          hLast hRest.right.stop
      have hSome : closing.isSome = c.isSome := by
        have hMap := congrArg Option.isSome hLast
        rw [Option.isSome_map, Option.isSome_map] at hMap
        exact hMap.symm
      rw [entries_pair hStop rfl hFirst hChildEntries hBehind,
        ← hTotal, Node.length, hSome]
      exact congrArg Except.ok (entries_place_pair hTotal).symm
  | list key height length missing items ih =>
      have hTotal := length_eq_total hProper hShape.symm
      have hStop := hFits.stop
      rw [← Forest.total, ← hTotal, Node.length] at hStop
      have hItems :=
        entriesOfAll_eq depth ih
          (fun item hItem =>
            (isProper_item hProper item hItem).2)
          hShape hMatched hFits
      have hOwn :
          ownEntry .brackets offset depth
              (.list key height length missing items) =
            .ok [] := by
        rw [ownEntry, Node.length, Length.plus_eq_ok hStop]
        rfl
      have hDepth :
          innerDepth .brackets depth
              (.list key height length missing items) =
            depth := rfl
      rw [entries, hOwn, hDepth, hItems]
      rfl

/- The outline of a whole tree is that of its forest. -/
theorem outline_eq
    {root : Node}
    {forest : Forest Token}
    (hRoot : root.IsRoot)
    (hShape : forest.shape = root.shape)
    (hMatched : forest.IsMatched)
    (hFits : Token.AllFit forest.leaves) :
    root.outline =
      .ok ((forest.place 0).entries 0 forest.total) := by
  have hFrom := Token.fitFrom_zero.2 hFits
  rw [outline, ← zero_add forest.total]
  rcases hRoot with hProper | ⟨key, rfl⟩
  · exact entries_eq 0 hProper hShape hMatched hFrom
  · rcases Forest.shape_eq_nil.1 hShape with rfl
    rfl

/-
  The brackets of a matched forest and their places tell the
  forest up to text, if none of them is too deep.
-/
theorem dropText_place
    {forest : Forest Token}
    {brackets : List Placed}
    (hMatched : forest.IsMatched)
    (hHides :
      forest.Nests (Parser.maxNestingLevel < ·)
        (fun _ => True) 0)
    (hBrackets :
      Placed.brackets (Placed.row 0 forest.leaves) =
        brackets)
    (hRead : (Matcher.read brackets).IsShallow) :
    (forest.place 0).dropText = Matcher.read brackets := by
  have hDrop :
      (Matcher.read (forest.place 0).leaves).dropText =
        Matcher.read brackets := by
    rw [Matcher.dropText_read, Forest.leaves_place,
      ← hBrackets]
    rfl
  rw [← hDrop, Forest.isShallow_dropText] at hRead
  have hSame :=
    Matcher.read_leaves_of_isShallow
      (Forest.isMatched_place hMatched)
      (Forest.nests_place.2 hHides) hRead
  rwa [hSame] at hDrop

/- Where the brackets are not too deep, no bracket is. -/
theorem isKept_of_brackets
    {forest : Forest Token}
    {brackets : List Placed}
    (hMatched : forest.IsMatched)
    (hHides :
      forest.Nests (Parser.maxNestingLevel < ·)
        (fun _ => True) 0)
    (hBrackets :
      Placed.brackets (Placed.row 0 forest.leaves) =
        brackets)
    (hRead : (Matcher.read brackets).IsShallow) :
    forest.IsKept := by
  have hSame := dropText_place hMatched hHides hBrackets hRead
  rw [← hSame, Forest.isShallow_dropText,
    Forest.isShallow_place] at hRead
  exact ⟨hMatched, hRead⟩

/- So they tell the outline of its tree. -/
theorem outline_of_brackets
    {root : Node}
    {forest : Forest Token}
    {brackets : List Placed}
    (hRoot : root.IsRoot)
    (hShape : forest.shape = root.shape)
    (hMatched : forest.IsMatched)
    (hShallow : forest.IsShallow)
    (hFits : Token.AllFit forest.leaves)
    (hBrackets :
      Placed.brackets (Placed.row 0 forest.leaves) =
        brackets)
    (hRead : (Matcher.read brackets).IsShallow) :
    root.outline =
      .ok ((Matcher.read brackets).entries 0
        forest.total) := by
  have hHides :
      forest.Nests (Parser.maxNestingLevel < ·)
        (fun _ => True) 0 :=
    Forest.nests_of_isShallow (fun _ => trivial) hShallow
  rw [outline_eq hRoot hShape hMatched hFits,
    ← dropText_place hMatched hHides hBrackets hRead,
    Forest.entries_dropText]

end Node

end Bracketry
