import Bracketry.Proofs.Ancestry

/-
  The keys of the lists of a tree.

  What is remembered for a list is found under its key.  No
  two lists of one tree have the same key: a parse takes
  each list of the old tree at most once, lists that it
  makes have none yet, and keys are counted on from tree to
  tree.

  Key definitions include:
    * `Node.listKeys`
    * `Node.IsKeyed`, `Index.IsKeyed`

  Main declarations:
    * `Parser.listKeys_of_makes`
    * `Node.IsKeyed.giveKeys`
    * `Index.ComesFrom.isKeyed`
-/

------------------------------------------------------------
-- Keys of Lists
------------------------------------------------------------

namespace Bracketry

namespace Node

mutual

/- The keys of the lists in a node, from left to right. -/
def listKeys : Node → List Nat
  | .pair _ _ _ opening child closing =>
      opening.listKeys ++
        ((match child with
          | some node => node.listKeys
          | none => []) ++
        (match closing with
          | some node => node.listKeys
          | none => []))
  | .list key _ _ _ items => key.toList ++ listKeysOfAll items
  | _ => []

/- The keys of the lists in several nodes. -/
def listKeysOfAll : List Node → List Nat
  | [] => []
  | item :: rest => item.listKeys ++ listKeysOfAll rest

end

theorem listKeys_pair
    (key : Option Nat)
    (length : Length)
    (missing : IdSet)
    (opening : Node)
    (child closing : Option Node) :
    (Node.pair key length missing opening child
      closing).listKeys =
      opening.listKeys ++
        (listKeysOfAll child.toList ++
          listKeysOfAll closing.toList) := by
  cases child <;> cases closing <;>
    simp [listKeys, listKeysOfAll]

theorem listKeysOfAll_append
    (a b : List Node) :
    listKeysOfAll (a ++ b) =
      listKeysOfAll a ++ listKeysOfAll b := by
  induction a with
  | nil => rfl
  | cons item rest ih => simp [listKeysOfAll, ih]

/- The parts of a node have some of its keys. -/
theorem sublist_listKeys_children
    (node : Node) :
    (listKeysOfAll node.children).Sublist node.listKeys := by
  cases node with
  | text key length => exact .refl []
  | bracket leaf => exact .refl []
  | invalid key ids length => exact .refl []
  | pair key length missing opening child closing =>
      rw [listKeys_pair, children, listKeysOfAll,
        listKeysOfAll_append]
  | list key height length missing items =>
      exact List.sublist_append_right _ _

/- Regrouping makes lists without keys, and opens others. -/
theorem Regroups.sublist_listKeys
    {a b : List Node}
    (h : Regroups a b) :
    (listKeysOfAll b).Sublist (listKeysOfAll a) := by
  induction h with
  | refl nodes => exact .refl _
  | opened key height length missing items =>
      have hOne :
          listKeysOfAll [.list key height length missing items] =
            key.toList ++ listKeysOfAll items := by
        simp [listKeysOfAll, listKeys]
      rw [hOne]
      exact List.sublist_append_right _ _
  | grouped height missing hLength =>
      simp [listKeysOfAll, listKeys]
  | append _ _ ihLeft ihRight =>
      rw [listKeysOfAll_append, listKeysOfAll_append]
      exact ihLeft.append ihRight
  | trans _ _ ihFirst ihNext => exact ihNext.trans ihFirst

end Node

/- The keys of the lists of nodes with their places. -/
def NodeReader.keysOf
    (nodes : List (Position × Node)) :
    List Nat :=
  Node.listKeysOfAll (nodes.map Prod.snd)

/- Nodes that come out of others bring each key once. -/
theorem NodeReader.Unfolds.sublist_keysOf
    {a b : List (Position × Node)}
    (h : Unfolds a b) :
    (keysOf b).Sublist (keysOf a) := by
  induction h with
  | refl nodes => exact .refl _
  | drop head _ ih =>
      exact ih.trans (List.sublist_append_right _ _)
  | @enter rest last start node _ ih =>
      refine ih.trans ?_
      rw [keysOf, List.map_append, Node.map_placed,
        Node.listKeysOfAll_append]
      exact node.sublist_listKeys_children.append (.refl _)

end Bracketry

------------------------------------------------------------
-- Keys of What Is Parsed
------------------------------------------------------------

namespace Bracketry

namespace Parser

theorem listKeys_leafOf
    {level : Nat}
    {token : Option Token}
    {node : Node}
    (h : leafOf level token = some node) :
    node.listKeys = [] := by
  rcases leafOf_cases h with
    rfl | ⟨length, rfl⟩ | ⟨ids, length, rfl⟩ <;> rfl

theorem listKeys_pairOf
    {leaf : Bracket}
    {child closing : Option Node}
    {node : Node}
    (hClosing :
      ∀ last, closing = some last → last.IsBracket)
    (h : Node.pairOf (.bracket leaf) child closing = .ok node) :
    node.listKeys = Node.listKeysOfAll child.toList := by
  rcases Node.eq_of_pairOf h with rfl
  have hLast : Node.listKeysOfAll closing.toList = [] := by
    cases closing with
    | none => rfl
    | some last =>
        rcases hClosing last rfl with ⟨bracket, rfl⟩
        rfl
  have hLeaf : (Node.bracket leaf).listKeys = [] := rfl
  rw [Node.listKeys_pair, hLast, hLeaf, List.nil_append,
    List.append_nil]

theorem sublist_withItem
    (node : Node)
    (rest : List Node) :
    (Node.listKeysOfAll (withItem node rest)).Sublist
      (node.listKeys ++ Node.listKeysOfAll rest) := by
  rw [withItem]
  split_ifs
  · exact List.sublist_append_right _ _
  · exact .refl _

/-
  The keys in the items, and those that are still ahead, are
  among the keys that were ahead.
-/
theorem listKeys_of_makes
    {opened : IdSet}
    {level : Nat}
    {parser after : Parser}
    {items : List Node}
    (h : Makes opened level parser items after) :
    (Node.listKeysOfAll items ++
        NodeReader.keysOf after.ahead).Sublist
      (NodeReader.keysOf parser.ahead) := by
  have hItem :
      ∀ (node : Node) {rest : List Node} {keys others},
        (Node.listKeysOfAll rest ++ keys).Sublist others →
          (Node.listKeysOfAll (withItem node rest) ++
            keys).Sublist (node.listKeys ++ others) := by
    intro node rest keys others hRest
    have hAll := hRest.append_left node.listKeys
    rw [← List.append_assoc] at hAll
    exact ((sublist_withItem node rest).append_right keys).trans
      hAll
  induction h with
  | bounded opened level parser => exact .refl _
  | stopped level hReuse hPeek _ =>
      rcases unfolds_reuse? hReuse with ⟨_, hUnfolds⟩
      rw [ahead_peek hPeek]
      exact hUnfolds.sublist_keysOf
  | reused hReuse _ ih =>
      rcases unfolds_reuse? hReuse with ⟨_, hUnfolds⟩
      exact (hItem _ ih).trans hUnfolds.sublist_keysOf
  | @leaf _ _ _ _ _ _ node _ hRead hLeaf _ ih =>
      have hUnfolds := unfolds_of_reads hRead
      have hRest := hItem node ih
      rw [listKeys_leafOf hLeaf, List.nil_append] at hRest
      exact hRest.trans hUnfolds.sublist_keysOf
  | @pair _ _ _ _ _ _ _ _ _ _ _ _ _ node hRead _ _ _ hChild
      hClosing hNode _ ihInside ihRest =>
      have hUnfolds := unfolds_of_reads hRead
      have hRest := hItem node ihRest
      rw [listKeys_pairOf (isBracket_of_readClosing hClosing)
        hNode, ahead_readClosing hClosing] at hRest
      have hInside :=
        ((regroups_joinItems hChild).sublist_listKeys.append_right
          _).trans ihInside
      exact (hRest.trans hInside).trans hUnfolds.sublist_keysOf

end Parser

/- A tree that was parsed has keys of the old tree. -/
theorem listKeys_parseDocument
    {stream : TokenStream}
    {edits : List Edit}
    {old : Option Node}
    {root : Node}
    {stats : ParseStats}
    (h : parseDocument stream edits old = .ok (root, stats)) :
    root.listKeys.Sublist (Node.listKeysOfAll old.toList) := by
  rcases exists_makes_of_parseDocument h with
    ⟨map, items, after, _, hMakes, hRegroups⟩
  have hItems := Parser.listKeys_of_makes hMakes
  have hKeys :
      NodeReader.keysOf
          (Parser.ofStream stream map old).ahead =
        Node.listKeysOfAll old.toList := by
    rw [Parser.ahead_ofStream]
    cases old <;> rfl
  have hRoot := hRegroups.sublist_listKeys
  rw [Node.listKeysOfAll, Node.listKeysOfAll, List.append_nil]
    at hRoot
  rw [← hKeys]
  exact hRoot.trans
    ((List.sublist_append_left _ _).trans hItems)

end Bracketry

------------------------------------------------------------
-- Trees with Keys
------------------------------------------------------------

namespace Bracketry

namespace Node

/- Every list has a key of its own, or none, below a count. -/
structure IsKeyed
    (next : Nat)
    (node : Node) :
    Prop where
  nodup : node.listKeys.Nodup
  lt : ∀ key ∈ node.listKeys, key < next

/-
  Some keys are kept, and new ones are counted on from one
  number up to another.
-/
structure CountsOn
    (old new : List Nat)
    (first last : Nat) :
    Prop where
  le : first ≤ last
  nodup : new.Nodup
  mem :
    ∀ key ∈ new, key ∈ old ∨ first ≤ key ∧ key < last

theorem CountsOn.append
    {a b c d : List Nat}
    {first middle last : Nat}
    (hOld : (a ++ c).Nodup)
    (hBelow : ∀ key ∈ a ++ c, key < first)
    (hLeft : CountsOn a b first middle)
    (hRight : CountsOn c d middle last) :
    CountsOn (a ++ c) (b ++ d) first last := by
  refine ⟨Nat.le_trans hLeft.le hRight.le, ?_, ?_⟩
  · refine List.nodup_append.2
      ⟨hLeft.nodup, hRight.nodup, ?_⟩
    rintro key hKey _ hOther rfl
    have hApart := (List.nodup_append.1 hOld).2.2
    have hLe := hLeft.le
    rcases hLeft.mem key hKey with hA | hA
    · have hSmall := hBelow key (by simp [hA])
      rcases hRight.mem key hOther with hC | hC
      · exact hApart key hA key hC rfl
      · omega
    · rcases hRight.mem key hOther with hC | hC
      · have hSmall := hBelow key (by simp [hC])
        omega
      · omega
  · intro key hKey
    have hLe := hLeft.le
    have hMore := hRight.le
    rcases List.mem_append.1 hKey with hKey | hKey
    · rcases hLeft.mem key hKey with hOldKey | hNew
      · exact .inl (List.mem_append_left c hOldKey)
      · exact .inr ⟨hNew.1, by omega⟩
    · rcases hRight.mem key hKey with hOldKey | hNew
      · exact .inl (List.mem_append_right a hOldKey)
      · exact .inr ⟨by omega, hNew.2⟩

/- A key that is counted on first is a new one. -/
theorem CountsOn.cons
    {old new : List Nat}
    {first last : Nat}
    (hBelow : ∀ key ∈ old, key < first)
    (h : CountsOn old new (first + 1) last) :
    CountsOn old (first :: new) first last := by
  have hLe := h.le
  refine ⟨by omega, List.nodup_cons.2 ⟨?_, h.nodup⟩, ?_⟩
  · intro hKey
    rcases h.mem first hKey with hOld | hNew
    · have hSmall := hBelow first hOld
      omega
    · omega
  · rw [List.forall_mem_cons]
    refine ⟨.inr ⟨Nat.le_refl _, by omega⟩, ?_⟩
    intro key hKey
    exact (h.mem key hKey).imp id fun hNew =>
      ⟨by omega, hNew.2⟩

theorem CountsOn.refl
    {old : List Nat}
    {first last : Nat}
    (hLe : first ≤ last)
    (hNodup : old.Nodup) :
    CountsOn old old first last :=
  ⟨hLe, hNodup, fun _ hKey => .inl hKey⟩

/- The count starts where no key of the old ones is left. -/
theorem CountsOn.weaken
    {old new : List Nat}
    {first start last : Nat}
    (hLe : first ≤ start)
    (h : CountsOn old new start last) :
    CountsOn old new first last :=
  ⟨Nat.le_trans hLe h.le, h.nodup, fun key hKey =>
    (h.mem key hKey).imp id fun hNew =>
      ⟨Nat.le_trans hLe hNew.1, hNew.2⟩⟩

/- Nodes are given new keys if each of them is. -/
theorem countsOn_giveAllKeys
    {items : List Node}
    {start : Nat}
    (hItem :
      ∀ item ∈ items, ∀ {next},
        item.listKeys.Nodup →
          (∀ key ∈ item.listKeys, key < next) →
            CountsOn item.listKeys
              (giveKeys next item).1.listKeys next
              (giveKeys next item).2)
    (hNodup : (listKeysOfAll items).Nodup)
    (hBelow : ∀ key ∈ listKeysOfAll items, key < start) :
    CountsOn (listKeysOfAll items)
      (listKeysOfAll (giveAllKeys start items).1) start
      (giveAllKeys start items).2 := by
  induction items generalizing start with
  | nil => exact .refl (Nat.le_refl start) hNodup
  | cons first rest ih =>
      rw [List.forall_mem_cons] at hItem
      rw [listKeysOfAll] at hBelow hNodup
      have hFirst :=
        hItem.1 (List.nodup_append.1 hNodup).1
          fun key hKey =>
            hBelow key (List.mem_append_left _ hKey)
      refine .append hNodup hBelow hFirst
        (ih hItem.2 (List.nodup_append.1 hNodup).2.1 ?_)
      intro key hKey
      exact Nat.lt_of_lt_of_le
        (hBelow key (List.mem_append_right _ hKey)) hFirst.le

/- A pair is given new keys if what is inside it is. -/
theorem CountsOn.pair
    {opening child node : Node}
    {closing : Option Node}
    {key newKey : Option Nat}
    {length : Length}
    {missing : IdSet}
    {next last : Nat}
    (hNodup :
      (Node.pair key length missing opening (some child)
        closing).listKeys.Nodup)
    (hBelow :
      ∀ old ∈
          (Node.pair key length missing opening (some child)
            closing).listKeys,
        old < next)
    (hChild :
      child.listKeys.Nodup →
        (∀ old ∈ child.listKeys, old < next) →
          CountsOn child.listKeys node.listKeys next last) :
    CountsOn
      (Node.pair key length missing opening (some child)
        closing).listKeys
      (Node.pair newKey length missing opening (some node)
        closing).listKeys
      next last := by
  have hOne :
      ∀ node : Node,
        listKeysOfAll (some node).toList = node.listKeys := by
    simp [listKeysOfAll]
  rw [listKeys_pair, hOne] at hNodup hBelow
  rw [listKeys_pair, listKeys_pair, hOne, hOne]
  have hOpening := (List.nodup_append.1 hNodup).1
  have hRest := (List.nodup_append.1 hNodup).2.1
  have hInside := (List.nodup_append.1 hRest).1
  have hClosing := (List.nodup_append.1 hRest).2.1
  refine .append hNodup hBelow
    (.refl (Nat.le_refl next) hOpening) ?_
  refine .append hRest ?_ (hChild hInside ?_)
    (.refl (Nat.le_refl last) hClosing)
  · intro old hOld
    exact hBelow old (List.mem_append_right _ hOld)
  · intro old hOld
    exact hBelow old (by simp [hOld])

/- Keys that are given to a tree are new ones. -/
theorem countsOn_giveKeys
    {node : Node}
    {next : Nat}
    (hNodup : node.listKeys.Nodup)
    (hBelow : ∀ key ∈ node.listKeys, key < next) :
    CountsOn node.listKeys (giveKeys next node).1.listKeys
      next (giveKeys next node).2 := by
  induction node using Node.induction
    generalizing next with
  | text key length =>
      cases key
      · exact .refl (Nat.le_succ next) hNodup
      · exact .refl (Nat.le_refl next) hNodup
  | bracket leaf => exact .refl (Nat.le_refl next) hNodup
  | invalid key ids length =>
      cases key
      · exact .refl (Nat.le_succ next) hNodup
      · exact .refl (Nat.le_refl next) hNodup
  | pair key length missing opening child closing ih =>
      cases key with
      | some old => exact .refl (Nat.le_refl next) hNodup
      | none =>
          cases child with
          | none =>
              rw [listKeys_pair] at hNodup
              rw [giveKeys, listKeys_pair, listKeys_pair]
              exact .refl (Nat.le_succ next) hNodup
          | some node =>
              refine .pair hNodup hBelow fun hInside hLess => ?_
              exact (ih node rfl hInside fun key hKey =>
                Nat.lt_succ_of_lt (hLess key hKey)).weaken
                  (Nat.le_succ next)
  | list key height length missing items ih =>
      cases key with
      | some old => exact .refl (Nat.le_refl next) hNodup
      | none =>
          have hItems :=
            countsOn_giveAllKeys ih hNodup fun key hKey =>
              Nat.lt_succ_of_lt (hBelow key hKey)
          exact hItems.cons hBelow

/- A tree whose keys are counted on is keyed. -/
theorem IsKeyed.giveKeys
    {node : Node}
    {next : Nat}
    (h : node.IsKeyed next) :
    (giveKeys next node).1.IsKeyed (giveKeys next node).2 := by
  have hNew := countsOn_giveKeys h.nodup h.lt
  refine ⟨hNew.nodup, fun key hKey => ?_⟩
  rcases hNew.mem key hKey with hOld | hNew'
  · exact Nat.lt_of_lt_of_le (h.lt key hOld) hNew.le
  · exact hNew'.2

theorem IsKeyed.mono
    {node : Node}
    {next last : Nat}
    (hLe : next ≤ last)
    (h : node.IsKeyed next) :
    node.IsKeyed last :=
  ⟨h.nodup, fun key hKey =>
    Nat.lt_of_lt_of_le (h.lt key hKey) hLe⟩

theorem IsKeyed.sublist
    {node other : Node}
    {next : Nat}
    (hKeys : other.listKeys.Sublist node.listKeys)
    (h : node.IsKeyed next) :
    other.IsKeyed next :=
  ⟨h.nodup.sublist hKeys, fun key hKey =>
    h.lt key (hKeys.subset hKey)⟩

end Node

end Bracketry

------------------------------------------------------------
-- Indexes with Keys
------------------------------------------------------------

namespace Bracketry

namespace Index

/- Both trees are keyed, below the next key. -/
def IsKeyed
    (index : Index) :
    Prop :=
  ∀ root, index.HasTree root → root.IsKeyed index.nextKey

theorem listKeys_parse
    {table : TokenTable}
    {content : Content}
    {spans : Option SpanTable}
    {job : ParseJob}
    {root : Node}
    {stats : ParseStats}
    (h : parse table content spans job = .ok (root, stats)) :
    root.listKeys.Sublist
      (Node.listKeysOfAll job.old.toList) := by
  unfold parse at h
  split at h
  · exact (listKeys_parseDocument h).trans
      (List.nil_sublist _)
  · exact listKeys_parseDocument h

/- A tree that is parsed has the keys of the old tree. -/
theorem isKeyed_parse
    {table : TokenTable}
    {content : Content}
    {spans : Option SpanTable}
    {job : ParseJob}
    {made : Node}
    {stats : ParseStats}
    {next : Nat}
    (hOld :
      ∀ tree, job.old = some tree → tree.IsKeyed next)
    (h : parse table content spans job = .ok (made, stats)) :
    made.IsKeyed next := by
  have hKeys := listKeys_parse h
  cases hJob : job.old with
  | none =>
      rw [hJob] at hKeys
      have hNone : made.listKeys = [] :=
        List.eq_nil_of_sublist_nil hKeys
      exact ⟨by simp [hNone], by simp [hNone]⟩
  | some tree =>
      have hOne :
          Node.listKeysOfAll (some tree).toList =
            tree.listKeys := by
        simp [Node.listKeysOfAll]
      rw [hJob, hOne] at hKeys
      exact (hOld tree hJob).sublist hKeys

/- What comes from an index with keys has keys. -/
theorem ComesFrom.isKeyed
    {index after : Index}
    (hFrom : index.ComesFrom after)
    (h : index.IsKeyed) :
    after.IsKeyed := by
  intro root hRoot
  rcases hFrom.trees root hRoot with hOld | hNew
  · exact (h root hOld).mono hFrom.nextKey
  · rcases hNew with
      ⟨content, spans, job, made, stats, next, hOld, hParse,
        rfl, hNext, hLast⟩
    have hMade : made.IsKeyed next :=
      isKeyed_parse
        (fun tree hTree =>
          (h tree (hOld tree hTree)).mono hNext) hParse
    exact hMade.giveKeys.mono hLast

theorem isKeyed_empty
    (table : TokenTable) :
    (empty table).IsKeyed := by
  rintro root (hRoot | hRoot) <;> cases hRoot

end Index

end Bracketry
