/-
  Finite sets of numeric ids.

  A set keeps one bit for each key: one block of 64 bits for
  the keys below 64, and a list of blocks for the keys from
  64 on.  The list never ends with a block without keys, so
  two sets with the same members are equal however they
  were made.

  Key definitions include:
    * `Block`, `Block.has`
    * `Blocks.trim`, `Blocks.union`
    * `IdSet`
    * `IdSet.insert`, `IdSet.union`
    * `IdSet.has`, `IdSet.intersects`, `IdSet.toList`
    * `IdSet.hashInto`

  Main declarations:
    * `IdSet.eq_of_has`
    * `IdSet.has_insert`, `IdSet.has_union`
-/

------------------------------------------------------------
-- Blocks of Keys
------------------------------------------------------------

namespace Bracketry

/- One bit for each of 64 neighbouring keys. -/
abbrev Block := BitVec 64

namespace Block

/- The block of one key. -/
def single
    (key : Nat) :
    Block :=
  1#64 <<< key

/- The bit of a key is set. -/
def has
    (block : Block)
    (key : Nat) :
    Bool :=
  block &&& single key != 0#64

/- The keys of a block, in ascending order. -/
def keys
    (block : Block) :
    List Nat :=
  (List.range 64).filter (has block)

theorem has_eq_getLsbD
    (block : Block)
    (key : Nat) :
    has block key = block.getLsbD key := by
  rw [has, single, ← BitVec.twoPow_eq, BitVec.and_twoPow]
  cases hBit : block.getLsbD key with
  | false => simp
  | true =>
      have hKey : key < 64 := BitVec.lt_of_getLsbD hBit
      have hNe : BitVec.twoPow 64 key ≠ 0#64 := by
        intro hZero
        have hLsb :=
          congrArg (fun bits => bits.getLsbD key) hZero
        simp [hKey] at hLsb
      simpa using hNe

theorem lt_of_has
    {block : Block}
    {key : Nat}
    (h : has block key = true) :
    key < 64 := by
  rw [has_eq_getLsbD] at h
  exact BitVec.lt_of_getLsbD h

@[simp] theorem has_zero
    (key : Nat) :
    has 0#64 key = false := by
  simp [has_eq_getLsbD]

@[simp] theorem has_or
    (a b : Block)
    (key : Nat) :
    has (a ||| b) key = (has a key || has b key) := by
  simp [has_eq_getLsbD]

theorem has_single
    {added : Nat}
    (h : added < 64)
    (key : Nat) :
    has (single added) key = decide (key = added) := by
  rw [has_eq_getLsbD, single, ← BitVec.twoPow_eq,
    BitVec.getLsbD_twoPow]
  simp [h, eq_comm]

/- A block is its keys. -/
theorem eq_of_has
    {a b : Block}
    (h : ∀ key, has a key = has b key) :
    a = b := by
  refine BitVec.eq_of_getLsbD_eq fun key _ => ?_
  rw [← has_eq_getLsbD, ← has_eq_getLsbD, h key]

theorem exists_has
    {block : Block}
    (h : block ≠ 0#64) :
    ∃ key, has block key = true := by
  refine Classical.byContradiction fun hNone => h ?_
  refine eq_of_has fun key => ?_
  rw [has_zero, ← Bool.not_eq_true]
  exact fun hKey => hNone ⟨key, hKey⟩

theorem and_ne_zero_iff
    {a b : Block} :
    (a &&& b != 0#64) = true ↔
      ∃ key, has a key = true ∧ has b key = true := by
  simp only [has_eq_getLsbD, bne_iff_ne]
  constructor
  · intro hNe
    rcases exists_has hNe with ⟨key, hKey⟩
    rw [has_eq_getLsbD, BitVec.getLsbD_and,
      Bool.and_eq_true] at hKey
    exact ⟨key, hKey⟩
  · rintro ⟨key, hLeft, hRight⟩ hZero
    have hKey := BitVec.getLsbD_and (x := a) (y := b) (i := key)
    rw [hZero, hLeft, hRight] at hKey
    simp at hKey

theorem mem_keys
    {block : Block}
    {key : Nat} :
    key ∈ keys block ↔ has block key = true := by
  rw [keys, List.mem_filter, List.mem_range]
  exact ⟨And.right, fun h => ⟨lt_of_has h, h⟩⟩

theorem pairwise_keys
    (block : Block) :
    (keys block).Pairwise (· < ·) :=
  List.Pairwise.filter _ List.pairwise_lt_range

end Block

end Bracketry

------------------------------------------------------------
-- Rows of Blocks
------------------------------------------------------------

namespace Bracketry

namespace Blocks

/- The block at a place, if there is one, has the key. -/
def hasAt
    (blocks : List Block)
    (place key : Nat) :
    Bool :=
  match blocks[place]? with
  | some block => Block.has block key
  | none => false

/-
  A block of the row has the key, where the first block has
  the keys from 0 on.
-/
def has
    (blocks : List Block)
    (key : Nat) :
    Bool :=
  hasAt blocks (key / 64) (key % 64)

/-
  The keys of a row in ascending order, where the first
  block has the keys from `start` on.
-/
def keysFrom
    (start : Nat) :
    List Block → List Nat
  | [] => []
  | block :: rest =>
      (Block.keys block).map (start + ·) ++
        keysFrom (start + 64) rest

/- Put a block in front, unless it would be all and empty. -/
def push
    (block : Block)
    (rest : List Block) :
    List Block :=
  if block = 0#64 ∧ rest = [] then [] else block :: rest

/- Leave out the blocks without keys at the end. -/
def trim
    (blocks : List Block) :
    List Block :=
  blocks.foldr push []

/- The keys of either row; a missing block has no keys. -/
def union
    (a b : List Block) :
    List Block :=
  (List.range (max a.length b.length)).map fun place =>
    a.getD place 0#64 ||| b.getD place 0#64

/- Set a bit of one block, made first if it is missing. -/
def insert
    (blocks : List Block)
    (place key : Nat) :
    List Block :=
  let missing := place + 1 - blocks.length
  (blocks ++ List.replicate missing 0#64).modify place
    (· ||| Block.single key)

/- The row does not end with a block without keys. -/
def IsTrim
    (blocks : List Block) :
    Prop :=
  blocks.getLast? ≠ some 0#64

theorem isTrim_nil : IsTrim [] := nofun

theorem IsTrim.tail
    {block : Block}
    {rest : List Block}
    (h : IsTrim (block :: rest)) :
    IsTrim rest := by
  cases rest with
  | nil => exact isTrim_nil
  | cons second others => simpa [IsTrim] using h

theorem IsTrim.push
    {rest : List Block}
    (h : IsTrim rest)
    (block : Block) :
    IsTrim (push block rest) := by
  unfold Blocks.push
  split
  · exact isTrim_nil
  · rename_i hSome
    cases rest with
    | nil => simpa [IsTrim] using hSome
    | cons second others => simpa [IsTrim] using h

theorem isTrim_trim
    (blocks : List Block) :
    IsTrim (trim blocks) := by
  induction blocks with
  | nil => exact isTrim_nil
  | cons block rest ih => exact ih.push block

theorem has_eq_getD
    (blocks : List Block)
    (key : Nat) :
    has blocks key =
      Block.has (blocks.getD (key / 64) 0#64) (key % 64) := by
  rw [has, hasAt, List.getD_eq_getElem?_getD]
  cases blocks[key / 64]? with
  | some block => rfl
  | none => exact (Block.has_zero _).symm

@[simp] theorem has_nil
    (key : Nat) :
    has [] key = false := by
  simp [has, hasAt]

theorem has_cons
    (block : Block)
    (rest : List Block)
    (key : Nat) :
    has (block :: rest) key =
      if key < 64 then Block.has block key
      else has rest (key - 64) := by
  split
  · rename_i hLow
    have hPlace : key / 64 = 0 := by omega
    have hKey : key % 64 = key := by omega
    simp [has, hasAt, hPlace, hKey]
  · have hPlace : key / 64 = (key - 64) / 64 + 1 := by omega
    have hKey : key % 64 = (key - 64) % 64 := by omega
    simp only [has, hasAt, hPlace, hKey,
      List.getElem?_cons_succ]

theorem has_push
    (block : Block)
    (rest : List Block)
    (key : Nat) :
    has (push block rest) key =
      if key < 64 then Block.has block key
      else has rest (key - 64) := by
  unfold push
  split
  · rename_i hNone
    rw [hNone.1, hNone.2, has_nil, has_nil, Block.has_zero,
      ite_self]
  · exact has_cons _ _ _

@[simp] theorem has_trim
    (blocks : List Block)
    (key : Nat) :
    has (trim blocks) key = has blocks key := by
  induction blocks generalizing key with
  | nil => rfl
  | cons block rest ih =>
      have hTrim : trim (block :: rest) =
          push block (trim rest) := rfl
      rw [hTrim, has_push, has_cons, ih]

@[simp] theorem has_union
    (a b : List Block)
    (key : Nat) :
    has (union a b) key = (has a key || has b key) := by
  simp only [has_eq_getD, ← Block.has_or]
  congr 1
  rw [union, List.getD_eq_getElem?_getD, List.getElem?_map]
  by_cases hPlace : key / 64 < max a.length b.length
  · rw [List.getElem?_range hPlace]
    rfl
  · have hNone :
        (List.range (max a.length b.length))[key / 64]? =
          none := by
      simpa using hPlace
    have hLeft : a[key / 64]? = none := by
      rw [List.getElem?_eq_none_iff]
      omega
    have hRight : b[key / 64]? = none := by
      rw [List.getElem?_eq_none_iff]
      omega
    simp [hNone, List.getD_eq_getElem?_getD, hLeft, hRight]

/- Blocks that are made have no keys of their own. -/
theorem getD_insert
    (blocks : List Block)
    (place added other : Nat) :
    (insert blocks place added).getD other 0#64 =
      if other = place then
        blocks.getD other 0#64 ||| Block.single added
      else blocks.getD other 0#64 := by
  have hFilled (n : Nat) :
      (blocks ++ List.replicate n 0#64).getD other 0#64 =
        blocks.getD other 0#64 := by
    simp only [List.getD_eq_getElem?_getD,
      List.getElem?_append, List.getElem?_replicate]
    split
    · rfl
    · rename_i hBehind
      rw [List.getElem?_eq_none (by omega)]
      split <;> rfl
  rw [insert, ← hFilled (place + 1 - blocks.length)]
  simp only [List.getD_eq_getElem?_getD,
    List.getElem?_modify]
  by_cases hPlace : other = place
  · have hLength :
        other <
          (blocks ++
            List.replicate (place + 1 - blocks.length)
              0#64).length := by
      simp only [List.length_append, List.length_replicate]
      omega
    rw [if_pos hPlace, List.getElem?_eq_getElem hLength]
    simp [hPlace]
  · rw [if_neg hPlace]
    simp [Ne.symm hPlace]

theorem has_insert
    {added : Nat}
    (blocks : List Block)
    (place : Nat)
    (hAdded : added < 64)
    (key : Nat) :
    has (insert blocks place added) key =
      (decide (key = place * 64 + added) ||
        has blocks key) := by
  rw [has_eq_getD, getD_insert, has_eq_getD]
  split
  · rename_i hPlace
    have hSame :
        key = place * 64 + added ↔ key % 64 = added := by
      omega
    rw [Block.has_or, Block.has_single hAdded, Bool.or_comm]
    simp only [hSame]
  · rename_i hPlace
    have hOther : key ≠ place * 64 + added := by omega
    simp [hOther]

theorem exists_has
    {blocks : List Block}
    (hTrim : IsTrim blocks)
    (hSome : blocks ≠ []) :
    ∃ key, has blocks key = true := by
  induction blocks with
  | nil => exact absurd rfl hSome
  | cons block rest ih =>
      cases rest with
      | nil =>
          have hBlock : block ≠ 0#64 := by
            simpa [IsTrim] using hTrim
          rcases Block.exists_has hBlock with ⟨key, hKey⟩
          exact ⟨key, by
            rwa [has_cons, if_pos (Block.lt_of_has hKey)]⟩
      | cons second others =>
          rcases ih hTrim.tail nofun with ⟨key, hKey⟩
          refine ⟨key + 64, ?_⟩
          rw [has_cons, if_neg (by omega),
            Nat.add_sub_cancel]
          exact hKey

/- A row that is trim is its keys. -/
theorem eq_of_has
    {a b : List Block}
    (hLeft : IsTrim a)
    (hRight : IsTrim b)
    (h : ∀ key, has a key = has b key) :
    a = b := by
  induction a generalizing b with
  | nil =>
      refine Classical.byContradiction fun hNe => ?_
      rcases exists_has hRight (Ne.symm hNe) with ⟨key, hKey⟩
      rw [← h key, has_nil] at hKey
      cases hKey
  | cons first rest ih =>
      cases b with
      | nil =>
          rcases exists_has hLeft nofun with ⟨key, hKey⟩
          rw [h key, has_nil] at hKey
          cases hKey
      | cons second others =>
          have hFirst : first = second := by
            refine Block.eq_of_has fun key => ?_
            by_cases hKey : key < 64
            · have hHere := h key
              rwa [has_cons, has_cons, if_pos hKey,
                if_pos hKey] at hHere
            · rw [Bool.eq_iff_iff]
              exact iff_of_false (hKey ∘ Block.lt_of_has)
                (hKey ∘ Block.lt_of_has)
          have hRest : rest = others := by
            refine ih hLeft.tail hRight.tail fun key => ?_
            have hBehind := h (key + 64)
            rwa [has_cons, has_cons, if_neg (by omega),
              if_neg (by omega),
              Nat.add_sub_cancel] at hBehind
          rw [hFirst, hRest]

theorem any_zip_iff
    {a b : List Block} :
    ((a.zip b).any fun (x, y) => x &&& y != 0#64) = true ↔
      ∃ key, has a key = true ∧ has b key = true := by
  induction a generalizing b with
  | nil => simp
  | cons first rest ih =>
      cases b with
      | nil => simp
      | cons second others =>
          rw [List.zip_cons_cons, List.any_cons,
            Bool.or_eq_true, ih, Block.and_ne_zero_iff]
          constructor
          · rintro (⟨key, hFirst, hSecond⟩ |
              ⟨key, hRest, hOthers⟩)
            · have hKey := Block.lt_of_has hFirst
              refine ⟨key, ?_, ?_⟩ <;>
                rwa [has_cons, if_pos hKey]
            · refine ⟨key + 64, ?_, ?_⟩ <;>
                rwa [has_cons, if_neg (by omega),
                  Nat.add_sub_cancel]
          · rintro ⟨key, hLeft, hRight⟩
            rw [has_cons] at hLeft hRight
            by_cases hKey : key < 64
            · rw [if_pos hKey] at hLeft hRight
              exact .inl ⟨key, hLeft, hRight⟩
            · rw [if_neg hKey] at hLeft hRight
              exact .inr ⟨key - 64, hLeft, hRight⟩

theorem mem_keysFrom
    {start key : Nat}
    {blocks : List Block} :
    key ∈ keysFrom start blocks ↔
      start ≤ key ∧ has blocks (key - start) = true := by
  induction blocks generalizing start with
  | nil => simp [keysFrom]
  | cons block rest ih =>
      rw [keysFrom, List.mem_append, ih, has_cons,
        List.mem_map]
      simp only [Block.mem_keys]
      constructor
      · rintro (⟨low, hLow, rfl⟩ | ⟨hStart, hRest⟩)
        · have hKey := Block.lt_of_has hLow
          rw [Nat.add_sub_cancel_left, if_pos hKey]
          exact ⟨Nat.le_add_right _ _, hLow⟩
        · rw [if_neg (by omega), Nat.sub_sub]
          exact ⟨by omega, hRest⟩
      · rintro ⟨hStart, hHas⟩
        split at hHas
        · exact .inl ⟨key - start, hHas, by omega⟩
        · rw [Nat.sub_sub] at hHas
          exact .inr ⟨by omega, hHas⟩

theorem pairwise_keysFrom
    (start : Nat)
    (blocks : List Block) :
    (keysFrom start blocks).Pairwise (· < ·) := by
  induction blocks generalizing start with
  | nil => exact List.Pairwise.nil
  | cons block rest ih =>
      rw [keysFrom, List.pairwise_append]
      refine ⟨?_, ih _, ?_⟩
      · rw [List.pairwise_map]
        refine (Block.pairwise_keys block).imp ?_
        intro a b hLt
        omega
      · intro a hFirst b hRest
        rcases List.mem_map.1 hFirst with ⟨low, hLow, rfl⟩
        have hKey := Block.lt_of_has (Block.mem_keys.1 hLow)
        have hStart := (mem_keysFrom.1 hRest).1
        omega

end Blocks

end Bracketry

------------------------------------------------------------
-- Sets of Ids
------------------------------------------------------------

namespace Bracketry

/- How a state of a hash takes in blocks and counts. -/
structure Hasher (σ : Type) where
  takeBlock : σ → Block → σ
  takeCount : σ → Nat → σ
  takeBlocks : σ → List Block → σ

/-
  A finite set: a block for the keys below 64, and a row of
  blocks for the keys from 64 on.
-/
structure IdSet where
  low : Block
  high : List Block
  isTrim : Blocks.IsTrim high
deriving DecidableEq

namespace IdSet

/- The set of given blocks. -/
def ofBlocks
    (low : Block)
    (high : List Block) :
    IdSet :=
  ⟨low, Blocks.trim high, Blocks.isTrim_trim high⟩

/- The set without members. -/
def empty : IdSet :=
  ⟨0#64, [], Blocks.isTrim_nil⟩

instance : Inhabited IdSet where
  default := empty

instance : EmptyCollection IdSet where
  emptyCollection := empty

/- Add one member. -/
def insert
    (set : IdSet)
    (key : Nat) :
    IdSet :=
  if key < 64 then
    if Block.has set.low key then set
    else { set with low := set.low ||| Block.single key }
  else
    let place := key / 64 - 1
    if Blocks.hasAt set.high place (key % 64) then set
    else
      ofBlocks set.low
        (Blocks.insert set.high place (key % 64))

/- The set of one member. -/
def single
    (key : Nat) :
    IdSet :=
  empty.insert key

/- The set of the members of a list. -/
def ofList
    (keys : List Nat) :
    IdSet :=
  keys.foldl insert empty

/-
  The members of either set.  Where one of the sets has them
  all, it is the answer.
-/
def union
    (a b : IdSet) :
    IdSet :=
  let low := a.low ||| b.low
  if a.high.isEmpty && b.high.isEmpty then
    if low = a.low then a
    else if low = b.low then b
    else ofBlocks low []
  else
    let both := ofBlocks low (Blocks.union a.high b.high)
    if both = a then a
    else if both = b then b
    else both

/- The key is a member. -/
def has
    (set : IdSet)
    (key : Nat) :
    Bool :=
  if key < 64 then Block.has set.low key
  else Blocks.hasAt set.high (key / 64 - 1) (key % 64)

/- Some key is a member of both sets. -/
def intersects
    (a b : IdSet) :
    Bool :=
  a.low &&& b.low != 0#64 ||
    (a.high.zip b.high).any fun (x, y) => x &&& y != 0#64

/- The set has no member. -/
def isEmpty
    (set : IdSet) :
    Bool :=
  set.low == 0#64 && set.high.all (· == 0#64)

/- The members in ascending order. -/
def toList
    (set : IdSet) :
    List Nat :=
  Blocks.keysFrom 0 (set.low :: set.high)

/-
  What a hash of the set takes in: the block of the keys
  below 64, and the number and the row of the others.
-/
def hashInto
    {σ : Type}
    (hasher : Hasher σ)
    (state : σ)
    (set : IdSet) :
    σ :=
  let state := hasher.takeBlock state set.low
  let state := hasher.takeCount state set.high.length
  hasher.takeBlocks state set.high

/- The members, written for a reader. -/
def render
    (set : IdSet) :
    String :=
  let names :=
    set.toList.map fun key =>
      "BracketId(" ++ toString key ++ ")"
  "\x7b" ++ ", ".intercalate names ++ "\x7d"

end IdSet

end Bracketry

------------------------------------------------------------
-- Membership
------------------------------------------------------------

namespace Bracketry

namespace IdSet

/- The two parts of a set are one row of blocks. -/
theorem has_eq
    (set : IdSet)
    (key : Nat) :
    set.has key =
      Blocks.has (set.low :: set.high) key := by
  rw [Blocks.has_cons, has]
  split
  · rfl
  · have hPlace : key / 64 - 1 = (key - 64) / 64 := by omega
    have hKey : key % 64 = (key - 64) % 64 := by omega
    rw [hPlace, hKey, Blocks.has]

/- A set is its members. -/
theorem eq_of_has
    {a b : IdSet}
    (h : ∀ key, a.has key = b.has key) :
    a = b := by
  have hLow : a.low = b.low := by
    refine Block.eq_of_has fun key => ?_
    by_cases hKey : key < 64
    · have hHere := h key
      rwa [has_eq, has_eq, Blocks.has_cons, Blocks.has_cons,
        if_pos hKey, if_pos hKey] at hHere
    · rw [Bool.eq_iff_iff]
      exact iff_of_false (hKey ∘ Block.lt_of_has)
        (hKey ∘ Block.lt_of_has)
  have hHigh : a.high = b.high := by
    refine Blocks.eq_of_has a.isTrim b.isTrim fun key => ?_
    have hBehind := h (key + 64)
    rwa [has_eq, has_eq, Blocks.has_cons, Blocks.has_cons,
      if_neg (by omega), if_neg (by omega),
      Nat.add_sub_cancel] at hBehind
  cases a
  cases b
  cases hLow
  cases hHigh
  rfl

theorem has_ofBlocks
    (low : Block)
    (high : List Block)
    (key : Nat) :
    (ofBlocks low high).has key =
      Blocks.has (low :: high) key := by
  rw [has_eq, ofBlocks, Blocks.has_cons, Blocks.has_cons,
    Blocks.has_trim]

@[simp] theorem has_empty
    (key : Nat) :
    empty.has key = false := by
  rw [has_eq, empty, Blocks.has_cons, Blocks.has_nil]
  rw [Block.has_zero, ite_self]

theorem has_insert
    (set : IdSet)
    (added key : Nat) :
    (set.insert added).has key =
      (decide (key = added) || set.has key) := by
  have hMember :
      set.has added = true →
        set.has key =
          (decide (key = added) || set.has key) := by
    intro hHas
    by_cases hKey : key = added
    · rw [hKey, hHas, Bool.or_true]
    · simp [hKey]
  unfold insert
  split
  · rename_i hLow
    split
    · rename_i hHas
      exact hMember (by rwa [has, if_pos hLow])
    · rw [has_eq, has_eq, Blocks.has_cons, Blocks.has_cons,
        Block.has_or, Block.has_single hLow, Bool.or_comm]
      split
      · rfl
      · have hKey : key ≠ added := by omega
        simp [hKey]
  · rename_i hHigh
    simp only
    split
    · rename_i hHas
      exact hMember (by rwa [has, if_neg hHigh])
    · rw [has_ofBlocks, has_eq, Blocks.has_cons,
        Blocks.has_cons,
        Blocks.has_insert _ _ (Nat.mod_lt _ (by decide))]
      split
      · have hKey : key ≠ added := by omega
        simp [hKey]
      · have hSame :
            key - 64 =
                (added / 64 - 1) * 64 + added % 64 ↔
              key = added := by
          omega
        simp only [hSame]

theorem has_union
    (a b : IdSet)
    (key : Nat) :
    (a.union b).has key = (a.has key || b.has key) := by
  have hBoth :
      (ofBlocks (a.low ||| b.low)
          (Blocks.union a.high b.high)).has key =
        (a.has key || b.has key) := by
    rw [has_ofBlocks, has_eq, has_eq, Blocks.has_cons,
      Blocks.has_cons, Blocks.has_cons, Block.has_or,
      Blocks.has_union]
    split <;> rfl
  unfold union
  simp only
  split
  · rename_i hHigh
    rw [Bool.and_eq_true, List.isEmpty_iff,
      List.isEmpty_iff] at hHigh
    rw [← hBoth, has_ofBlocks, hHigh.1, hHigh.2]
    split
    · rename_i hLow
      rw [hLow, has_eq, hHigh.1]
      rfl
    · split
      · rename_i hLow
        rw [hLow, has_eq, hHigh.2]
        rfl
      · rw [has_ofBlocks]
        rfl
  · split
    · rename_i hLeft
      rw [← hBoth, hLeft]
    · split
      · rename_i hRight
        rw [← hBoth, hRight]
      · exact hBoth

theorem has_iff
    {set : IdSet}
    {key : Nat} :
    set.has key = true ↔ key ∈ set.toList := by
  rw [has_eq, toList, Blocks.mem_keysFrom]
  simp

theorem mem_toList_insert
    {set : IdSet}
    {key x : Nat} :
    x ∈ (set.insert key).toList ↔
      x = key ∨ x ∈ set.toList := by
  simp only [← has_iff, has_insert, Bool.or_eq_true,
    decide_eq_true_eq]

theorem mem_toList_union
    {a b : IdSet}
    {x : Nat} :
    x ∈ (a.union b).toList ↔
      x ∈ a.toList ∨ x ∈ b.toList := by
  simp only [← has_iff, has_union, Bool.or_eq_true]

theorem toList_empty : empty.toList = [] := by
  decide

theorem pairwise_toList
    (set : IdSet) :
    set.toList.Pairwise (· < ·) :=
  Blocks.pairwise_keysFrom _ _

end IdSet

end Bracketry
