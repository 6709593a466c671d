import Bracketry.Proofs.Keys
import Bracketry.Proofs.Nesting
import Bracketry.Index.Query
import Mathlib.Data.List.Nodup

/-
  What is remembered of indentations.

  While no pair is cut off, what a query computes for a node
  is a function of the node, its place and what had been
  remembered at some time before: what was remembered since
  then are values of that function.  So two walks that start
  with memories of the same time visit the same records.

  Key definitions include:
    * `Node.recalled`, `Node.keyedValues`
    * `IndentationCache.IsSound`
    * `Checked.Agree`, `Node.AllowsWalks`

  Main declarations:
    * `Node.recalls_indentationAt`
    * `Node.agree_walkPairs`
    * `Node.allowsWalks_root`
-/

------------------------------------------------------------
-- Values without a Depth
------------------------------------------------------------

namespace Bracketry

namespace Node

mutual

/-
  The least indentation of a node at an offset, however deep
  its pairs are.  What is remembered is taken as it is.
-/
def recalled
    (content : Content)
    (base : IndentationCache)
    (offset : Position) :
    Node → Checked Nat
  | .text _ length => textIndentation content offset length
  | .bracket _ => .ok noIndentation
  | .invalid _ _ _ => .ok noIndentation
  | .pair _ _ _ opening child _ =>
      match child with
      | none => .ok noIndentation
      | some node => do
          let start ← offset.plus opening.length
          recalled content base start node
  | .list key _ _ _ items =>
      match base.get? key with
      | some value => .ok value
      | none => recalledOfAll content base offset items

/- The least indentation of nodes one behind the other. -/
def recalledOfAll
    (content : Content)
    (base : IndentationCache)
    (offset : Position) :
    List Node → Checked Nat
  | [] => .ok noIndentation
  | item :: rest => do
      let first ← recalled content base offset item
      let next ← offset.plus item.length
      let others ← recalledOfAll content base next rest
      return min first others

end

mutual

/- The keys of the lists in a node, with their values. -/
def keyedValues
    (content : Content)
    (base : IndentationCache)
    (offset : Position) :
    Node → List (Nat × Checked Nat)
  | .pair _ _ _ opening child _ =>
      match child with
      | none => []
      | some node =>
          keyedValues content base (offset + opening.length)
            node
  | .list key height length missing items =>
      key.toList.map
          (·, recalled content base offset
            (.list key height length missing items)) ++
        keyedValuesOfAll content base offset items
  | _ => []

/- The keys and values of the lists in several nodes. -/
def keyedValuesOfAll
    (content : Content)
    (base : IndentationCache)
    (offset : Position) :
    List Node → List (Nat × Checked Nat)
  | [] => []
  | item :: rest =>
      keyedValues content base offset item ++
        keyedValuesOfAll content base (offset + item.length)
          rest

end

variable {content : Content} {base : IndentationCache}

/- The values belong to keys of lists of the node. -/
theorem sublist_keyedValues
    (offset : Position)
    (node : Node) :
    ((keyedValues content base offset node).map
      Prod.fst).Sublist node.listKeys := by
  induction node using Node.induction
    generalizing offset with
  | text key length => exact .refl []
  | bracket leaf => exact .refl []
  | invalid key ids length => exact .refl []
  | pair key length missing opening child closing ih =>
      rw [listKeys_pair]
      cases child with
      | none => exact List.nil_sublist _
      | some node =>
          have hOne :
              listKeysOfAll (some node).toList =
                node.listKeys := by
            simp [listKeysOfAll]
          rw [hOne]
          exact (ih node rfl _).trans
            ((List.sublist_append_left _ _).trans
              (List.sublist_append_right _ _))
  | list key height length missing items ih =>
      have hItems :
          ∀ offset,
            ((keyedValuesOfAll content base offset items).map
              Prod.fst).Sublist (listKeysOfAll items) := by
        induction items with
        | nil => exact fun _ => .refl []
        | cons first rest ihRest =>
            rw [List.forall_mem_cons] at ih
            intro offset
            rw [keyedValuesOfAll, List.map_append]
            exact (ih.1 _).append (ihRest ih.2 _)
      rw [keyedValues, List.map_append, listKeys]
      refine List.Sublist.append ?_ (hItems offset)
      rw [List.map_map]
      cases key <;> exact .refl _

end Node

end Bracketry

------------------------------------------------------------
-- Sound Memories
------------------------------------------------------------

namespace Bracketry

namespace IndentationCache

theorem get?_set
    (cache : IndentationCache)
    (key other value : Nat) :
    (cache.set (some key) value).get? (some other) =
      if other = key then some value
      else cache.get? (some other) := by
  simp only [set, get?, List.lookup_cons]
  by_cases hKey : other = key
  · simp [hKey]
  · simp [hKey, beq_false_of_ne hKey]

/- No key is known with two values. -/
def IsFunctional
    (known : List (Nat × Checked Nat)) :
    Prop :=
  ∀ key a b, (key, a) ∈ known → (key, b) ∈ known → a = b

/-
  What is remembered for a key that is known is its value,
  and nothing was forgotten since some time before.
-/
structure IsSound
    (cache : IndentationCache)
    (known : List (Nat × Checked Nat))
    (base : IndentationCache) :
    Prop where
  sound :
    ∀ key value, cache.get? (some key) = some value →
      ∀ found, (key, found) ∈ known → found = .ok value
  keeps :
    ∀ key value, base.get? (some key) = some value →
      cache.get? (some key) = some value

variable {known : List (Nat × Checked Nat)}
variable {base cache : IndentationCache}

/- A value that is known can be remembered. -/
theorem IsSound.set
    {key value : Nat}
    (hKnown : IsFunctional known)
    (hValue : (key, .ok value) ∈ known)
    (hNew : base.get? (some key) = none)
    (h : cache.IsSound known base) :
    (cache.set (some key) value).IsSound known base := by
  refine ⟨?_, ?_⟩
  · intro other found hFound
    rw [get?_set] at hFound
    split_ifs at hFound with hKey
    · rcases Option.some.inj hFound with rfl
      subst hKey
      exact fun result hResult =>
        hKnown other result _ hResult hValue
    · exact h.sound other found hFound
  · intro other found hFound
    rw [get?_set]
    split_ifs with hKey
    · subst hKey
      rw [hFound] at hNew
      cases hNew
    · exact h.keeps other found hFound

end IndentationCache

namespace Node

/- Keys that are counted on are known with one value. -/
theorem isFunctional_keyedValues
    {content : Content}
    {base : IndentationCache}
    {next : Nat}
    {node : Node}
    (offset : Position)
    (h : node.IsKeyed next) :
    IndentationCache.IsFunctional
      (keyedValues content base offset node) := by
  have hNodup :
      ((keyedValues content base offset node).map
        Prod.fst).Nodup :=
    h.nodup.sublist (sublist_keyedValues offset node)
  intro key a b hA hB
  have hInj := List.inj_on_of_nodup_map hNodup hA hB rfl
  exact (Prod.mk.inj hInj).2

end Node

end Bracketry

------------------------------------------------------------
-- Computing with a Memory
------------------------------------------------------------

namespace Bracketry

namespace Node

/-
  A result is complete and has a value, with a memory that
  is still sound; or it has the fault that the value has.
-/
def Recalls
    (known : List (Nat × Checked Nat))
    (base : IndentationCache)
    (value : Checked Nat)
    (result : Checked (Indentation × IndentationCache)) :
    Prop :=
  (∃ fault, value = .error fault ∧ result = .error fault) ∨
    ∃ least after,
      value = .ok least ∧
        result = .ok (⟨least, true⟩, after) ∧
        after.IsSound known base

variable {known : List (Nat × Checked Nat)}
variable {content : Content} {base : IndentationCache}

/- The same for nodes one behind the other. -/
theorem recalls_indentationOfAll
    {cache : IndentationCache}
    {offset : Position}
    {depth : Nat}
    {items : List Node}
    (hItems :
      ∀ item ∈ items, ∀ offset cache,
        (∀ entry ∈ keyedValues content base offset item,
          entry ∈ known) →
        cache.IsSound known base →
          Recalls known base
            (recalled content base offset item)
            (indentationAt content offset depth cache item))
    (hKnown :
      ∀ entry ∈ keyedValuesOfAll content base offset items,
        entry ∈ known)
    (hCache : cache.IsSound known base) :
    Recalls known base
      (recalledOfAll content base offset items)
      (indentationOfAll content offset depth cache items) := by
  induction items generalizing offset cache with
  | nil => exact .inr ⟨_, cache, rfl, rfl, hCache⟩
  | cons item rest ih =>
      rw [List.forall_mem_cons] at hItems
      rw [keyedValuesOfAll, List.forall_mem_append] at hKnown
      rw [recalledOfAll, indentationOfAll]
      rcases hItems.1 offset cache hKnown.1 hCache with
        ⟨fault, hValue, hResult⟩ |
          ⟨least, after, hValue, hResult, hAfter⟩
      · rw [hValue, hResult]
        exact .inl ⟨fault, rfl, rfl⟩
      · rw [hValue, hResult]
        cases hNext : offset.plus item.length with
        | error fault =>
            refine .inl ⟨fault, ?_, ?_⟩ <;>
              simp [bind, Except.bind]
        | ok next =>
            rcases Length.plus_eq_ok_iff.1 hNext with ⟨_, rfl⟩
            rcases ih hItems.2 hKnown.2 hAfter with
              ⟨fault, hOthers, hRest⟩ |
                ⟨others, last, hOthers, hRest, hLast⟩
            · refine .inl ⟨fault, ?_, ?_⟩ <;>
                simp [bind, Except.bind, hOthers, hRest]
            · refine .inr ⟨min least others, last, ?_, ?_,
                hLast⟩ <;>
                simp [bind, Except.bind, pure, Except.pure,
                  hOthers, hRest, Indentation.least]

/-
  A query has the value of a list that it remembers, and else
  computes it from the items and remembers it.
-/
theorem recalls_indentationOfList
    {cache : IndentationCache}
    {depth height : Nat}
    {key : Option Nat}
    {length : Length}
    {missing : IdSet}
    {items : List Node}
    {offset : Position}
    (hFunctional : IndentationCache.IsFunctional known)
    (hKnown :
      ∀ entry ∈
          keyedValues content base offset
            (.list key height length missing items),
        entry ∈ known)
    (hCache : cache.IsSound known base)
    (hItems :
      Recalls known base
        (recalledOfAll content base offset items)
        (indentationOfAll content offset depth cache items)) :
    Recalls known base
      (recalled content base offset
        (.list key height length missing items))
      (indentationAt content offset depth cache
        (.list key height length missing items)) := by
  rw [keyedValues, List.forall_mem_append] at hKnown
  have hComputed :
      base.get? key = none → cache.get? key = none →
        Recalls known base
          (recalled content base offset
            (.list key height length missing items))
          (indentationAt content offset depth cache
            (.list key height length missing items)) := by
    intro hBase hNew
    rw [recalled, hBase] at hKnown ⊢
    rw [indentationAt, hNew]
    rcases hItems with
      ⟨fault, hValue, hResult⟩ |
        ⟨least, after, hValue, hResult, hAfter⟩
    · simp only [hValue, hResult]
      exact .inl ⟨fault, rfl, rfl⟩
    · simp only [hValue] at hKnown
      simp only [hValue, hResult]
      refine .inr ⟨least, after.set key least, rfl, rfl, ?_⟩
      cases key with
      | none => exact hAfter
      | some key =>
          exact hAfter.set hFunctional (hKnown.1 _ (by simp))
            hBase
  cases key with
  | none => exact hComputed rfl rfl
  | some key =>
      cases hFound : cache.get? (some key) with
      | none =>
          refine hComputed ?_ hFound
          cases hBase : base.get? (some key) with
          | none => rfl
          | some value =>
              rw [hCache.keeps key value hBase] at hFound
              cases hFound
      | some value =>
          have hValue :
              recalled content base offset
                  (.list (some key) height length missing
                    items) = .ok value :=
            hCache.sound key value hFound _
              (hKnown.1 _ (by simp))
          refine .inr ⟨value, cache, hValue, ?_, hCache⟩
          rw [indentationAt, hFound]

/-
  A query that cuts no pair off computes the values of a
  node, whatever sound memory it starts with.
-/
theorem recalls_indentationAt
    {cache : IndentationCache}
    {depth : Nat}
    {node : Node}
    (offset : Position)
    (hFunctional : IndentationCache.IsFunctional known)
    (hDepth : depth + node.nesting ≤ maxQueryDepth + 1)
    (hKnown :
      ∀ entry ∈ keyedValues content base offset node,
        entry ∈ known)
    (hCache : cache.IsSound known base) :
    Recalls known base (recalled content base offset node)
      (indentationAt content offset depth cache node) := by
  induction node using Node.induction
    generalizing offset depth cache with
  | text key length =>
      rw [recalled, indentationAt]
      cases hText : textIndentation content offset length with
      | error fault => exact .inl ⟨fault, rfl, rfl⟩
      | ok value => exact .inr ⟨value, cache, rfl, rfl, hCache⟩
  | bracket leaf => exact .inr ⟨_, cache, rfl, rfl, hCache⟩
  | invalid key ids length =>
      exact .inr ⟨_, cache, rfl, rfl, hCache⟩
  | pair key length missing opening child closing ih =>
      rw [nesting_pair] at hDepth
      have hShallow : ¬ maxQueryDepth < depth := by omega
      cases child with
      | none =>
          rw [recalled, indentationAt, if_neg hShallow]
          exact .inr ⟨_, cache, rfl, rfl, hCache⟩
      | some node =>
          rw [partNesting] at hDepth
          rw [recalled, indentationAt, if_neg hShallow]
          cases hStart : offset.plus opening.length with
          | error fault => exact .inl ⟨fault, rfl, rfl⟩
          | ok start =>
              rcases Length.plus_eq_ok_iff.1 hStart with
                ⟨_, rfl⟩
              exact ih node rfl _ (by omega) hKnown hCache
  | list key height length missing items ih =>
      rw [nesting] at hDepth
      refine recalls_indentationOfList hFunctional hKnown
        hCache ?_
      rw [keyedValues, List.forall_mem_append] at hKnown
      refine recalls_indentationOfAll ?_ hKnown.2 hCache
      intro item hItem start before hEntries hSound
      have hLe :=
        nestingOfAll_le_iff.1 (Nat.le_refl _) item hItem
      exact ih item hItem start (by omega) hEntries hSound

/- A memory is sound for what was computed with it. -/
theorem isSound_keyedValues
    (content : Content)
    (base : IndentationCache)
    (offset : Position)
    (node : Node) :
    base.IsSound (keyedValues content base offset node) base := by
  refine ⟨?_, fun _ _ h => h⟩
  intro key value hFound found hKnown
  induction node using Node.induction
    generalizing offset with
  | text key length => cases hKnown
  | bracket leaf => cases hKnown
  | invalid key ids length => cases hKnown
  | pair key length missing opening child closing ih =>
      cases child with
      | none => cases hKnown
      | some node => exact ih node rfl _ hKnown
  | list listKey height length missing items ih =>
      rw [keyedValues, List.mem_append] at hKnown
      rcases hKnown with hHere | hItems
      · rcases List.mem_map.1 hHere with ⟨other, hOther, hEntry⟩
        rcases Prod.mk.inj hEntry with ⟨rfl, rfl⟩
        rcases Option.mem_toList.1 hOther with rfl
        rw [recalled, hFound]
      · induction items generalizing offset with
        | nil => cases hItems
        | cons first rest ihRest =>
            rw [List.forall_mem_cons] at ih
            rw [keyedValuesOfAll, List.mem_append] at hItems
            rcases hItems with hFirst | hRest
            · exact ih.1 _ hFirst
            · exact ihRest ih.2 _ hRest

end Node

end Bracketry

------------------------------------------------------------
-- Computations That Agree
------------------------------------------------------------

namespace Bracketry

namespace Checked

variable {α β : Type}

/- Two computations have the same fault, or like results. -/
def Agree
    (Alike : α → α → Prop)
    (a b : Checked α) :
    Prop :=
  (∃ fault, a = .error fault ∧ b = .error fault) ∨
    ∃ x y, a = .ok x ∧ b = .ok y ∧ Alike x y

variable {Alike : α → α → Prop} {LikeNext : β → β → Prop}

theorem Agree.refl
    (a : Checked α) :
    Agree Eq a a := by
  cases a with
  | error fault => exact .inl ⟨fault, rfl, rfl⟩
  | ok value => exact .inr ⟨value, value, rfl, rfl, rfl⟩

theorem Agree.ok
    {x y : α}
    (h : Alike x y) :
    Agree Alike (.ok x) (.ok y) :=
  .inr ⟨x, y, rfl, rfl, h⟩

theorem Agree.bind
    {a b : Checked α}
    {f g : α → Checked β}
    (h : Agree Alike a b)
    (hNext :
      ∀ x y, a = .ok x → b = .ok y → Alike x y →
        Agree LikeNext (f x) (g y)) :
    Agree LikeNext (a >>= f) (b >>= g) := by
  rcases h with
    ⟨fault, rfl, rfl⟩ | ⟨x, y, hX, hY, hAlike⟩
  · exact .inl ⟨fault, rfl, rfl⟩
  · subst hX hY
    exact hNext x y rfl rfl hAlike

/- Computations that agree have the same part, or fault. -/
theorem Agree.map_eq
    {a b : Checked α}
    {f : α → β}
    (hSame : ∀ x y, Alike x y → f x = f y)
    (h : Agree Alike a b) :
    a.map f = b.map f := by
  rcases h with
    ⟨fault, rfl, rfl⟩ | ⟨x, y, rfl, rfl, hAlike⟩
  · rfl
  · exact congrArg Except.ok (hSame x y hAlike)

end Checked

end Bracketry

------------------------------------------------------------
-- Walks with a Memory
------------------------------------------------------------

namespace Bracketry

namespace Node

variable {σ : Type}

/- The same answer, and memories that are both good. -/
def AlikeInside
    (Good : IndentationCache → Prop)
    (a b : Option Nat × IndentationCache) :
    Prop :=
  a.1 = b.1 ∧ Good a.2 ∧ Good b.2

/- Walks that went alike, with memories that are both good. -/
def AlikeWalks
    (Good : IndentationCache → Prop)
    (a b : PairWalk σ) :
    Prop :=
  a.state = b.state ∧ Good a.cache ∧ Good b.cache

/- Walks that went alike, and go on or have ended. -/
def AlikeFlows
    (Good : IndentationCache → Prop)
    (a b : Flow (PairWalk σ)) :
    Prop :=
  AlikeWalks Good a.state b.state ∧ a.goesOn = b.goesOn

/-
  Nodes on which walks agree: the inside of a pair has the
  same answer for all good memories, and the parts of a node
  are again such nodes.
-/
structure AllowsWalks
    (content : Option Content)
    (Good : IndentationCache → Prop)
    (Fits : Position → Node → Prop) :
    Prop where
  inside :
    ∀ {start key length missing opening child closing a b},
      Fits start
        (.pair key length missing opening child closing) →
        Good a → Good b →
          Checked.Agree (AlikeInside Good)
            (insideIndentation content start a
              (.pair key length missing opening child closing))
            (insideIndentation content start b
              (.pair key length missing opening child closing))
  child :
    ∀ {start key length missing opening child closing},
      Fits start
        (.pair key length missing opening (some child)
          closing) →
        Fits (start + opening.length) child
  items :
    ∀ {start key height length missing items},
      Fits start (.list key height length missing items) →
        ∀ item ∈ placed start items, Fits item.1 item.2

variable {Good : IndentationCache → Prop}
variable {Fits : Position → Node → Prop}
variable {query : PairQuery} {visit : Visitor PairInfo σ}

theorem agree_andThen
    {a b : Flow (PairWalk σ)}
    {f g : PairWalk σ → Checked (Flow (PairWalk σ))}
    (h : AlikeFlows Good a b)
    (hNext :
      ∀ x y, AlikeWalks Good x y →
        Checked.Agree (AlikeFlows Good) (f x) (g y)) :
    Checked.Agree (AlikeFlows Good) (a.andThen f)
      (b.andThen g) := by
  rw [Flow.andThen, Flow.andThen, h.2]
  split_ifs
  · exact hNext _ _ h.1
  · exact .ok h

theorem agree_walkPairItems
    {start : Position}
    {around : List (List Char)}
    {items : List Node}
    {a b : PairWalk σ}
    (hItems :
      ∀ item ∈ items, ∀ start stop a b,
        Fits start item → AlikeWalks Good a b →
          Checked.Agree (AlikeFlows Good)
            (walkPairs query visit start stop around a item)
            (walkPairs query visit start stop around b item))
    (hFits : ∀ item ∈ placed start items, Fits item.1 item.2)
    (h : AlikeWalks Good a b) :
    Checked.Agree (AlikeFlows Good)
      (walkPairItems query visit start around a items)
      (walkPairItems query visit start around b items) := by
  induction items generalizing start a b with
  | nil => exact .ok ⟨h, rfl⟩
  | cons item rest ih =>
      rw [List.forall_mem_cons] at hItems
      rw [placed, List.forall_mem_cons] at hFits
      rw [walkPairItems, walkPairItems]
      refine (Checked.Agree.refl _).bind ?_
      rintro stop _ hStop - rfl
      rcases Length.plus_eq_ok_iff.1 hStop with ⟨_, rfl⟩
      -- What comes behind the item starts alike, too.
      have hRest :
          ∀ x y : Flow (PairWalk σ), AlikeFlows Good x y →
            Checked.Agree (AlikeFlows Good)
              (x.andThen fun walk =>
                walkPairItems query visit
                  (start + item.length) around walk rest)
              (y.andThen fun walk =>
                walkPairItems query visit
                  (start + item.length) around walk rest) :=
        fun _ _ hFlow => agree_andThen hFlow fun _ _ hWalk =>
          ih hItems.2 hFits.2 hWalk
      simp only
      split_ifs
      · refine (hItems.1 _ _ _ _ hFits.1 h).bind ?_
        exact fun x y _ _ hFlow => hRest x y hFlow
      · exact hRest (Flow.go a) (Flow.go b) ⟨h, rfl⟩

/- The walk inside a pair that was visited. -/
def walkInside
    (query : PairQuery)
    (visit : Visitor PairInfo σ)
    (middle : Position)
    (around : List (List Char))
    (child : Option Node)
    (walk : PairWalk σ) :
    Checked (Flow (PairWalk σ)) :=
  match child with
  | none => .ok (Flow.go walk)
  | some part => do
      let next ← middle.plus part.length
      if query.window.touches middle next then
        walkPairs query visit middle next around walk part
      else return Flow.go walk

/- Walks that start alike visit the same records. -/
theorem agree_walkPairs
    (hAllows : AllowsWalks query.content Good Fits)
    {start stop : Position}
    {around : List (List Char)}
    {node : Node}
    {a b : PairWalk σ}
    (hFits : Fits start node)
    (h : AlikeWalks Good a b) :
    Checked.Agree (AlikeFlows Good)
      (walkPairs query visit start stop around a node)
      (walkPairs query visit start stop around b node) := by
  induction node using Node.induction
    generalizing start stop around a b with
  | text key length => exact .ok ⟨h, rfl⟩
  | bracket leaf => exact .ok ⟨h, rfl⟩
  | invalid key ids length => exact .ok ⟨h, rfl⟩
  | pair key length missing opening child closing ih =>
      rw [walkPairs.eq_def query visit start stop around a,
        walkPairs.eq_def query visit start stop around b]
      simp only
      by_cases hDeep : maxQueryDepth < around.length
      · rw [if_pos hDeep, if_pos hDeep]
        exact .ok ⟨h, rfl⟩
      rw [if_neg hDeep, if_neg hDeep]
      refine (Checked.Agree.refl _).bind ?_
      rintro opener _ hOpener - rfl
      refine (Checked.Agree.refl _).bind ?_
      rintro middle _ hMiddle - rfl
      refine (hAllows.inside hFits h.2.1 h.2.2).bind ?_
      rintro ⟨value, first⟩ ⟨_, second⟩ - - ⟨rfl, hFirst, hSecond⟩
      rcases Length.plus_eq_ok_iff.1 hMiddle with ⟨_, rfl⟩
      have hLength : opener.length = opening.length := by
        cases opening <;> cases hOpener
        rfl
      -- Whatever the record is, the walk goes on alike.
      have hOn :
          ∀ info,
            Checked.Agree (AlikeFlows Good)
              ((visitPair visit ⟨a.state, first⟩ info).andThen
                (walkInside query visit
                  (start + opener.length)
                  (opener.kind.literal :: around) child))
              ((visitPair visit ⟨b.state, second⟩ info).andThen
                (walkInside query visit
                  (start + opener.length)
                  (opener.kind.literal :: around) child)) := by
        intro info
        refine agree_andThen
          ⟨⟨by simp only [visitPair, h.1], hFirst, hSecond⟩,
            by simp only [visitPair, h.1]⟩ ?_
        intro x y hWalk
        cases child with
        | none => exact .ok ⟨hWalk, rfl⟩
        | some part =>
            refine (Checked.Agree.refl _).bind ?_
            rintro next _ - - rfl
            split_ifs
            · rw [hLength]
              exact ih part rfl (hAllows.child hFits) hWalk
            · exact .ok ⟨hWalk, rfl⟩
      cases closing with
      | none => exact hOn _
      | some last =>
          refine (Checked.Agree.refl _).bind ?_
          rintro stop _ - - rfl
          exact hOn _
  | list key height length missing items ih =>
      rw [walkPairs, walkPairs]
      split_ifs
      · exact .ok ⟨h, rfl⟩
      · exact agree_walkPairItems
          (fun item hItem _ _ _ _ hItemFits hWalk =>
            ih item hItem hItemFits hWalk)
          (hAllows.items hFits) h

end Node

end Bracketry

------------------------------------------------------------
-- Walks for Indentations
------------------------------------------------------------

namespace Bracketry

namespace Node

variable {σ : Type}
variable {known : List (Nat × Checked Nat)}
variable {content : Content} {base : IndentationCache}

/- Without content, memories make no difference. -/
theorem allowsWalks_none
    (Good : IndentationCache → Prop) :
    AllowsWalks none Good (fun _ _ => True) where
  inside _ hA hB := .ok ⟨rfl, hA, hB⟩
  child _ := trivial
  items _ _ _ := trivial

theorem mem_keyedValuesOfAll
    {start : Position}
    {items : List Node}
    {item : Position × Node}
    (h : item ∈ placed start items) :
    ∀ entry ∈ keyedValues content base item.1 item.2,
      entry ∈ keyedValuesOfAll content base start items := by
  induction items generalizing start with
  | nil => cases h
  | cons first rest ih =>
      intro entry hEntry
      rw [keyedValuesOfAll, List.mem_append]
      rcases List.mem_cons.1 h with rfl | hRest
      · exact .inl hEntry
      · exact .inr (ih hRest entry hEntry)

/-
  Where no pair is cut off, memories that are sound make no
  difference.
-/
theorem allowsWalks_some
    (hFunctional : IndentationCache.IsFunctional known) :
    AllowsWalks (some content)
      (fun cache => cache.IsSound known base)
      (fun start node =>
        node.nesting ≤ maxQueryDepth + 1 ∧
          ∀ entry ∈ keyedValues content base start node,
            entry ∈ known) where
  inside {start key length missing opening child closing a b}
      hFits hA hB := by
    have hRecalls :
        ∀ cache : IndentationCache,
          cache.IsSound known base →
            Recalls known base
              (recalled content base start
                (.pair key length missing opening child
                  closing))
              (indentationAt content start 0 cache
                (.pair key length missing opening child
                  closing)) :=
      fun cache hCache =>
        recalls_indentationAt start hFunctional
          (by rw [Nat.zero_add]; exact hFits.1) hFits.2 hCache
    unfold insideIndentation minIndentation
    rcases hRecalls a hA with
      ⟨fault, hValue, hResult⟩ |
        ⟨least, after, hValue, hResult, hAfter⟩ <;>
    rcases hRecalls b hB with
      ⟨other, hOther, hSecond⟩ |
        ⟨more, last, hOther, hSecond, hLast⟩ <;>
    rw [hValue] at hOther <;> cases hOther <;>
    simp only [hResult, hSecond]
    · exact .inl ⟨fault, rfl, rfl⟩
    · exact .ok ⟨rfl, hAfter, hLast⟩
  child {start key length missing opening child closing}
      hFits := by
    refine ⟨Nat.le_trans ?_ hFits.1, hFits.2⟩
    apply nesting_le_of_mem_children
    simp [children]
  items {start key height length missing items} hFits item
      hItem := by
    have hMem : item.2 ∈ items := by
      rw [← map_placed start items]
      exact List.mem_map_of_mem hItem
    refine ⟨Nat.le_trans ?_ hFits.1, ?_⟩
    · exact nesting_le_of_mem_children hMem
    · intro entry hEntry
      apply hFits.2
      rw [keyedValues, List.mem_append]
      exact .inr (mem_keyedValuesOfAll hItem entry hEntry)

/- Without content, visits agree with any memories. -/
theorem agree_visitPairs_none
    (a b : IndentationCache)
    (root : Node)
    (window : Range)
    (visit : Visitor PairInfo σ)
    (state : σ) :
    Checked.Agree (AlikeFlows fun _ => True)
      (root.visitPairs ⟨window, none⟩ visit ⟨state, a⟩)
      (root.visitPairs ⟨window, none⟩ visit ⟨state, b⟩) := by
  have hAllows :
      AllowsWalks (PairQuery.content ⟨window, none⟩)
        (fun _ => True) (fun _ _ => True) :=
    allowsWalks_none _
  have hStart :
      AlikeWalks (fun _ => True) (⟨state, a⟩ : PairWalk σ)
        ⟨state, b⟩ :=
    ⟨rfl, trivial, trivial⟩
  exact agree_walkPairs hAllows trivial hStart

theorem agree_pairsIn_none
    (a b : IndentationCache)
    (root : Node)
    (window : Range) :
    Checked.Agree (fun x y => x.1 = y.1)
      (root.pairsIn ⟨window, none⟩ a)
      (root.pairsIn ⟨window, none⟩ b) := by
  refine (agree_visitPairs_none a b root window _ _).bind ?_
  rintro x y - - ⟨⟨hState, -⟩, -⟩
  exact .ok (congrArg List.reverse hState)

/- A whole tree whose pairs are not too deep is such a node. -/
theorem allowsWalks_root
    {next : Nat}
    {root : Node}
    (content : Content)
    (base : IndentationCache)
    (hKeyed : root.IsKeyed next)
    (hDepth : root.nesting ≤ maxQueryDepth + 1) :
    ∃ Fits,
      AllowsWalks (some content)
          (fun cache =>
            cache.IsSound (keyedValues content base 0 root)
              base) Fits ∧
        Fits 0 root :=
  ⟨_, allowsWalks_some (isFunctional_keyedValues 0 hKeyed),
    hDepth, fun _ hEntry => hEntry⟩

end Node

end Bracketry
