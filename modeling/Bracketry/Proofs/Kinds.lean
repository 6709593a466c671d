import Bracketry.Proofs.Entries
import Mathlib.Data.List.Nodup

/-
  The kinds of declared pairs, and their tokens.

  An opening kind knows the closing literals that it is
  declared with, and a closing kind its opening literals.
  Ids tell all literals apart.  So tokens meet where their
  kinds are declared together.  The table has one token for
  the literals that are the same in lower case, and this is
  the token of the last of their kinds.

  Key definitions include:
    * `alterFirst`
    * `Brackets.Opens`, `Brackets.Closes`, `Brackets.Colors`
    * `BracketDeclaration.Declares`
    * `BracketDeclaration.Realises`

  Main declarations:
    * `BracketDeclaration.areLinked`
    * `BracketDeclaration.tokens_of_lastKinds`
-/

------------------------------------------------------------
-- Kinds by Literal
------------------------------------------------------------

namespace Bracketry

section Altering

variable {α : Type}

/- Change what has a literal, or add it to a blank one. -/
def alterFirst
    (key : α → List Char)
    (update : α → α)
    (blank : α) :
    List α → List α
  | [] => [update blank]
  | first :: rest =>
      if key first = key blank then update first :: rest
      else first :: alterFirst key update blank rest

variable (key : α → List Char)
variable (update : α → α) (blank : α)

/- Each literal keeps its place; a new one is added. -/
theorem map_alterFirst
    (hUpdate : ∀ kind, key (update kind) = key kind)
    (kinds : List α) :
    (alterFirst key update blank kinds).map key =
      addLiteral (kinds.map key) (key blank) := by
  induction kinds with
  | nil => simp [alterFirst, addLiteral, hUpdate]
  | cons first rest ih =>
      unfold addLiteral at ih ⊢
      by_cases hSame : key first = key blank
      · simp [alterFirst, hSame, hUpdate]
      · rw [alterFirst, if_neg hSame, List.map_cons, ih]
        by_cases hRest : key blank ∈ rest.map key
        · simp only [List.mem_map] at hRest
          simp [hRest]
        · simp only [List.mem_map] at hRest
          simp [hRest, Ne.symm hSame]

/-
  Literals have the partner that is added, if one is, and no
  other one.
-/
theorem partner_alterFirst
    (partners : α → List (List Char))
    (added : Prop)
    {partner literal other : List Char}
    (hUpdate : ∀ kind, key (update kind) = key kind)
    (hPartners :
      ∀ kind,
        other ∈ partners (update kind) ↔
          other ∈ partners kind ∨
            (added ∧ other = partner))
    (hBlank : other ∉ partners blank)
    (kinds : List α) :
    (∃ kind ∈ alterFirst key update blank kinds,
      key kind = literal ∧ other ∈ partners kind) ↔
      (∃ kind ∈ kinds,
        key kind = literal ∧ other ∈ partners kind) ∨
        (added ∧ key blank = literal ∧ other = partner) := by
  induction kinds with
  | nil =>
      simp [alterFirst, hUpdate, hPartners, hBlank,
        and_left_comm]
  | cons first rest ih =>
      by_cases hSame : key first = key blank
      · rw [alterFirst, if_pos hSame,
          List.exists_mem_cons_iff, List.exists_mem_cons_iff,
          hUpdate, hPartners, hSame, and_or_left,
          or_right_comm, and_left_comm]
      · rw [alterFirst, if_neg hSame,
          List.exists_mem_cons_iff, List.exists_mem_cons_iff,
          ih, or_assoc]

end Altering

theorem mem_addLiteral
    {literals : List (List Char)}
    {literal other : List Char} :
    other ∈ addLiteral literals literal ↔
      other ∈ literals ∨ other = literal := by
  unfold addLiteral
  split_ifs with hKnown
  · rw [List.contains_iff_mem] at hKnown
    constructor
    · exact .inl
    · rintro (hOld | rfl)
      · exact hOld
      · exact hKnown
  · rw [List.mem_append, List.mem_singleton]

theorem nodup_addLiteral
    {literals : List (List Char)}
    {literal : List Char}
    (h : literals.Nodup) :
    (addLiteral literals literal).Nodup := by
  unfold addLiteral
  split_ifs with hKnown
  · exact h
  · rw [List.contains_iff_mem] at hKnown
    refine List.nodup_append.2
      ⟨h, List.nodup_singleton _, ?_⟩
    rintro a hOld b hNew rfl
    rw [List.mem_singleton.1 hNew] at hOld
    exact hKnown hOld

/- The kind with one more closing literal. -/
def OpeningKind.link
    (closer : List Char)
    (kind : OpeningKind) :
    OpeningKind :=
  ⟨kind.literal, addLiteral kind.closers closer⟩

/- The kind with one more opening literal. -/
def ClosingKind.link
    (opener : List Char)
    (colorized : Bool)
    (kind : ClosingKind) :
    ClosingKind :=
  ⟨kind.literal, addLiteral kind.openers opener,
    if colorized then addLiteral kind.colorized opener
    else kind.colorized⟩

theorem OpeningKind.mem_closers_link
    {closer literal : List Char}
    (kind : OpeningKind) :
    literal ∈ (kind.link closer).closers ↔
      literal ∈ kind.closers ∨ (True ∧ literal = closer) := by
  rw [OpeningKind.link, mem_addLiteral, true_and]

theorem ClosingKind.mem_openers_link
    {opener literal : List Char}
    {colorized : Bool}
    (kind : ClosingKind) :
    literal ∈ (kind.link opener colorized).openers ↔
      literal ∈ kind.openers ∨ (True ∧ literal = opener) := by
  rw [ClosingKind.link, mem_addLiteral, true_and]

theorem ClosingKind.mem_colorized_link
    {opener literal : List Char}
    {colorized : Bool}
    (kind : ClosingKind) :
    literal ∈ (kind.link opener colorized).colorized ↔
      literal ∈ kind.colorized ∨
        (colorized = true ∧ literal = opener) := by
  cases colorized with
  | false => simp [ClosingKind.link]
  | true => simp [ClosingKind.link, mem_addLiteral]

theorem linkOpening_eq
    (pair : BracketPair)
    (kinds : List OpeningKind) :
    linkOpening pair kinds =
      alterFirst OpeningKind.literal (.link pair.closer)
        ⟨pair.opener, []⟩ kinds := by
  induction kinds with
  | nil => rfl
  | cons kind rest ih =>
      rw [linkOpening, alterFirst, ih]
      rfl

theorem linkClosing_eq
    (pair : BracketPair)
    (colorized : Bool)
    (kinds : List ClosingKind) :
    linkClosing pair colorized kinds =
      alterFirst ClosingKind.literal
        (.link pair.opener colorized)
        ⟨pair.closer, [], []⟩ kinds := by
  induction kinds with
  | nil => cases colorized <;> rfl
  | cons kind rest ih =>
      rw [linkClosing, alterFirst, ih]
      rfl

end Bracketry

------------------------------------------------------------
-- Kinds of a Declaration
------------------------------------------------------------

namespace Bracketry

theorem BracketPair.eq_iff
    {pair other : BracketPair} :
    pair = other ↔
      pair.opener = other.opener ∧
        pair.closer = other.closer := by
  cases pair
  cases other
  rw [BracketPair.mk.injEq]

namespace Brackets

/- The opening kind of a pair has its closing literal. -/
def Opens
    (brackets : Brackets)
    (pair : BracketPair) :
    Prop :=
  ∃ kind ∈ brackets.openings,
    kind.literal = pair.opener ∧ pair.closer ∈ kind.closers

/- The closing kind of a pair has its opening literal. -/
def Closes
    (brackets : Brackets)
    (pair : BracketPair) :
    Prop :=
  ∃ kind ∈ brackets.closings,
    kind.literal = pair.closer ∧ pair.opener ∈ kind.openers

/- The closing kind of a pair closes it in colour. -/
def Colors
    (brackets : Brackets)
    (pair : BracketPair) :
    Prop :=
  ∃ kind ∈ brackets.closings,
    kind.literal = pair.closer ∧
      pair.opener ∈ kind.colorized

/- No two kinds of one side have the same literal. -/
structure IsDistinct
    (brackets : Brackets) :
    Prop where
  openings :
    (brackets.openings.map OpeningKind.literal).Nodup
  closings :
    (brackets.closings.map ClosingKind.literal).Nodup

variable {brackets : Brackets} {pair other : BracketPair}

theorem opens_link
    (colorized : Bool) :
    (brackets.link colorized other).Opens pair ↔
      brackets.Opens pair ∨ (True ∧ pair = other) := by
  unfold Opens Brackets.link
  rw [linkOpening_eq,
    partner_alterFirst OpeningKind.literal
      (.link other.closer) _ OpeningKind.closers True
      (fun _ => rfl) OpeningKind.mem_closers_link
      List.not_mem_nil,
    BracketPair.eq_iff, eq_comm (a := pair.opener)]

theorem closes_link
    (colorized : Bool) :
    (brackets.link colorized other).Closes pair ↔
      brackets.Closes pair ∨ (True ∧ pair = other) := by
  unfold Closes Brackets.link
  rw [linkClosing_eq,
    partner_alterFirst ClosingKind.literal
      (.link other.opener colorized) _ ClosingKind.openers
      True (fun _ => rfl) ClosingKind.mem_openers_link
      List.not_mem_nil,
    BracketPair.eq_iff, eq_comm (a := pair.closer),
    and_comm (a := pair.opener = _)]

theorem colors_link
    (colorized : Bool) :
    (brackets.link colorized other).Colors pair ↔
      brackets.Colors pair ∨
        (colorized = true ∧ pair = other) := by
  unfold Colors Brackets.link
  rw [linkClosing_eq,
    partner_alterFirst ClosingKind.literal
      (.link other.opener colorized) _ ClosingKind.colorized
      (colorized = true) (fun _ => rfl)
      ClosingKind.mem_colorized_link List.not_mem_nil,
    BracketPair.eq_iff, eq_comm (a := pair.closer),
    and_comm (a := pair.opener = _)]

theorem IsDistinct.link
    (colorized : Bool)
    (h : brackets.IsDistinct) :
    (brackets.link colorized other).IsDistinct := by
  constructor
  · unfold Brackets.link
    rw [linkOpening_eq,
      map_alterFirst OpeningKind.literal
        (.link other.closer) _ fun _ => rfl]
    exact nodup_addLiteral h.openings
  · unfold Brackets.link
    rw [linkClosing_eq,
      map_alterFirst ClosingKind.literal
        (.link other.opener colorized) _ fun _ => rfl]
    exact nodup_addLiteral h.closings

/- What linking one pair adds, linking a list adds for all. -/
theorem foldl_link_iff
    (holds : Brackets → Prop)
    {colorized : Bool}
    {added : Prop}
    (hLink :
      ∀ brackets other,
        holds (link colorized brackets other) ↔
          holds brackets ∨ (added ∧ pair = other))
    (pairs : List BracketPair)
    (brackets : Brackets) :
    holds (pairs.foldl (link colorized) brackets) ↔
      holds brackets ∨ (added ∧ pair ∈ pairs) := by
  induction pairs generalizing brackets with
  | nil => simp
  | cons first rest ih =>
      rw [List.foldl_cons, ih, hLink, List.mem_cons]
      tauto

theorem isDistinct_ofDeclaration
    (declaration : BracketDeclaration) :
    (ofDeclaration declaration).IsDistinct := by
  have hFold :
      ∀ (colorized : Bool) (pairs : List BracketPair)
        (brackets : Brackets),
        brackets.IsDistinct →
          (pairs.foldl (link colorized)
            brackets).IsDistinct := by
    intro colorized pairs
    induction pairs with
    | nil => exact fun _ h => h
    | cons pair rest ih =>
        exact fun brackets h => ih _ (h.link colorized)
  exact hFold true _ _
    (hFold false _ _ ⟨List.nodup_nil, List.nodup_nil⟩)

variable {declaration : BracketDeclaration}

theorem opens_ofDeclaration :
    (ofDeclaration declaration).Opens pair ↔
      pair ∈ declaration.declared := by
  rw [ofDeclaration,
    foldl_link_iff (Opens · pair) fun _ _ => opens_link true,
    foldl_link_iff (Opens · pair) fun _ _ => opens_link false,
    BracketDeclaration.declared, List.mem_append]
  simp [Opens, empty]

theorem closes_ofDeclaration :
    (ofDeclaration declaration).Closes pair ↔
      pair ∈ declaration.declared := by
  rw [ofDeclaration,
    foldl_link_iff (Closes · pair) fun _ _ =>
      closes_link true,
    foldl_link_iff (Closes · pair) fun _ _ =>
      closes_link false,
    BracketDeclaration.declared, List.mem_append]
  simp [Closes, empty]

theorem colors_ofDeclaration :
    (ofDeclaration declaration).Colors pair ↔
      pair ∈ declaration.colorizedPairs := by
  rw [ofDeclaration,
    foldl_link_iff (Colors · pair) fun _ _ =>
      colors_link true,
    foldl_link_iff (Colors · pair) fun _ _ =>
      colors_link false]
  simp [Colors, empty]

end Brackets

end Bracketry

namespace Bracketry

namespace BracketDeclaration

/- Two literals make a pair of either list. -/
def Declares
    (declaration : BracketDeclaration)
    (opener closer : List Char) :
    Prop :=
  (opener ≠ [] ∧ closer ≠ []) ∧
    (⟨opener, closer⟩ ∈ declaration.pairs ∨
      ⟨opener, closer⟩ ∈ declaration.colorized.getD [])

instance
    (declaration : BracketDeclaration)
    (opener closer : List Char) :
    Decidable (declaration.Declares opener closer) :=
  inferInstanceAs (Decidable (_ ∧ _))

variable {declaration : BracketDeclaration}

theorem mem_declared_iff
    {opener closer : List Char} :
    ⟨opener, closer⟩ ∈ declaration.declared ↔
      declaration.Declares opener closer := by
  have hValid :
      BracketPair.isValid ⟨opener, closer⟩ = true ↔
        opener ≠ [] ∧ closer ≠ [] := by
    simp [BracketPair.isValid]
  rw [declared, List.mem_append, validPairs, List.mem_filter,
    hValid, Declares, colorizedPairs]
  cases declaration.colorized with
  | some pairs =>
      rw [Option.getD_some, List.mem_filter, hValid]
      tauto
  | none =>
      rw [Option.getD_none, validPairs, List.mem_filter,
        List.mem_filter, hValid]
      simp only [List.not_mem_nil, or_false]
      tauto

end BracketDeclaration

namespace Brackets

variable {declaration : BracketDeclaration}

theorem mem_closers_iff
    {kind : OpeningKind}
    {closer : List Char}
    (hKind : kind ∈ (ofDeclaration declaration).openings) :
    closer ∈ kind.closers ↔
      ⟨kind.literal, closer⟩ ∈ declaration.declared := by
  rw [← opens_ofDeclaration]
  constructor
  · exact fun hCloser => ⟨kind, hKind, rfl, hCloser⟩
  · rintro ⟨other, hOther, hSame, hCloser⟩
    have hInj := List.inj_on_of_nodup_map
      (isDistinct_ofDeclaration declaration).openings
    rwa [hInj hOther hKind hSame] at hCloser

theorem mem_openers_iff
    {kind : ClosingKind}
    {opener : List Char}
    (hKind : kind ∈ (ofDeclaration declaration).closings) :
    opener ∈ kind.openers ↔
      ⟨opener, kind.literal⟩ ∈ declaration.declared := by
  rw [← closes_ofDeclaration]
  constructor
  · exact fun hOpener => ⟨kind, hKind, rfl, hOpener⟩
  · rintro ⟨other, hOther, hSame, hOpener⟩
    have hInj := List.inj_on_of_nodup_map
      (isDistinct_ofDeclaration declaration).closings
    rwa [hInj hOther hKind hSame] at hOpener

theorem mem_declared_of_mem_colorized
    {kind : ClosingKind}
    {opener : List Char}
    (hKind : kind ∈ (ofDeclaration declaration).closings)
    (h : opener ∈ kind.colorized) :
    ⟨opener, kind.literal⟩ ∈ declaration.declared :=
  List.mem_append_right _
    (colors_ofDeclaration.1 ⟨kind, hKind, rfl, h⟩)

end Brackets

end Bracketry

------------------------------------------------------------
-- Ids of Literals
------------------------------------------------------------

namespace Bracketry

namespace KeyTable

variable {α : Type} [DecidableEq α]
variable {table : KeyTable α} {name other : α}

theorem mem_names_add :
    other ∈ (table.add name).names ↔
      other ∈ table.names ∨ other = name := by
  unfold add keyOf get?
  cases hKey : table.names.idxOf? name with
  | none =>
      rw [List.mem_append, List.mem_singleton]
  | some key =>
      have hKnown : name ∈ table.names := by
        by_contra hNew
        rw [List.idxOf?_eq_none_iff.2 hNew] at hKey
        cases hKey
      constructor
      · exact .inl
      · rintro (hOld | rfl)
        · exact hOld
        · exact hKnown

theorem mem_names_ofList
    {names : List α} :
    name ∈ (ofList names).names ↔ name ∈ names := by
  have hFold :
      ∀ table : KeyTable α,
        name ∈ (names.foldl add table).names ↔
          name ∈ table.names ∨ name ∈ names := by
    induction names with
    | nil => simp
    | cons first rest ih =>
        intro table
        rw [List.foldl_cons, ih, mem_names_add,
          List.mem_cons, or_assoc]
  rw [ofList, hFold]
  simp [empty]

/- A known name has a key of its own. -/
theorem eq_of_keyOf_eq
    (hKnown : name ∈ table.names)
    (h : (table.keyOf name).1 = (table.keyOf other).1) :
    name = other := by
  unfold keyOf get? size at h
  cases hName : table.names.idxOf? name with
  | none => exact absurd hKnown (List.idxOf?_eq_none_iff.1 hName)
  | some key =>
      rcases List.idxOf?_eq_some_iff.1 hName with
        ⟨hLess, hAt, _⟩
      rw [hName] at h
      cases hOther : table.names.idxOf? other with
      | none =>
          rw [hOther] at h
          exact absurd h (Nat.ne_of_lt hLess)
      | some last =>
          rw [hOther] at h
          rcases List.idxOf?_eq_some_iff.1 hOther with
            ⟨_, hLast, _⟩
          have hKeys : key = last := h
          subst hKeys
          rw [← hAt, hLast]

end KeyTable

namespace TokenTable

/- Tokens meet where the closing kind closes the other. -/
theorem intersects_iff_closes
    {brackets : Brackets}
    {opening : OpeningKind}
    (closing : ClosingKind)
    (hOpening : opening ∈ brackets.openings) :
    (openingEntry (idsOf brackets)
          opening).bracket.ids.intersects
        (closingEntry (idsOf brackets)
          closing).bracket.ids = true ↔
      closing.closes opening = true := by
  have hKnown : opening.literal ∈ (idsOf brackets).names := by
    refine KeyTable.mem_names_ofList.2
      (List.mem_append_left _ ?_)
    exact List.mem_map_of_mem hOpening
  rw [IdSet.intersects_iff, ClosingKind.closes,
    List.contains_iff_mem]
  constructor
  · rintro ⟨id, hOwn, hOther⟩
    rw [openingEntry, IdSet.mem_toList_single] at hOwn
    rw [closingEntry, IdSet.mem_toList_ofList,
      List.mem_map] at hOther
    rcases hOther with ⟨literal, hLiteral, hSame⟩
    rw [hOwn] at hSame
    rwa [KeyTable.eq_of_keyOf_eq hKnown hSame.symm]
  · intro hOpener
    exact ⟨idOf (idsOf brackets) opening.literal,
      IdSet.mem_toList_single.2 rfl,
      IdSet.mem_toList_ofList.2
        (List.mem_map_of_mem hOpener)⟩

end TokenTable

end Bracketry

------------------------------------------------------------
-- Tokens of Kinds
------------------------------------------------------------

namespace Bracketry

namespace Brackets

variable {brackets : Brackets} {key : List Char}

theorem of_lastOpening?
    {kind : OpeningKind}
    (h : brackets.lastOpening? key = some kind) :
    kind ∈ brackets.openings ∧
      Text.lowercase kind.literal = key := by
  have hMem := List.mem_filter.1 (List.mem_of_getLast? h)
  exact ⟨hMem.1, beq_iff_eq.1 hMem.2⟩

theorem of_lastClosing?
    {kind : ClosingKind}
    (h : brackets.lastClosing? key = some kind) :
    kind ∈ brackets.closings ∧
      Text.lowercase kind.literal = key := by
  have hMem := List.mem_filter.1 (List.mem_of_getLast? h)
  exact ⟨hMem.1, beq_iff_eq.1 hMem.2⟩

theorem exists_lastOpening?
    {kind : OpeningKind}
    (hKind : kind ∈ brackets.openings) :
    ∃ last,
      brackets.lastOpening? (Text.lowercase kind.literal) =
        some last := by
  refine Option.isSome_iff_exists.1
    (List.getLast?_isSome.2 (List.ne_nil_of_mem
      (List.mem_filter.2 ⟨hKind, ?_⟩)))
  exact beq_self_eq_true _

theorem exists_lastClosing?
    {kind : ClosingKind}
    (hKind : kind ∈ brackets.closings) :
    ∃ last,
      brackets.lastClosing? (Text.lowercase kind.literal) =
        some last := by
  refine Option.isSome_iff_exists.1
    (List.getLast?_isSome.2 (List.ne_nil_of_mem
      (List.mem_filter.2 ⟨hKind, ?_⟩)))
  exact beq_self_eq_true _

end Brackets

namespace TokenTable

/- The token of a literal is of the given bracket. -/
def HasToken
    (table : TokenTable)
    (literal : List Char)
    (leaf : Bracket) :
    Prop :=
  ∃ id, table.token? literal = some (.bracket leaf id)

variable {brackets : Brackets} {literal : List Char}

theorem hasToken_of_lastClosing?
    {kind : ClosingKind}
    (h :
      brackets.lastClosing? (Text.lowercase literal) =
        some kind) :
    (ofBrackets brackets).HasToken literal
      (closingEntry (idsOf brackets) kind).bracket := by
  refine ⟨(closingEntry (idsOf brackets) kind).id, ?_⟩
  rw [token?_ofBrackets, entry?_eq, h]
  rfl

theorem hasToken_of_lastOpening?
    {kind : OpeningKind}
    (hNone :
      brackets.lastClosing? (Text.lowercase literal) = none)
    (h :
      brackets.lastOpening? (Text.lowercase literal) =
        some kind) :
    (ofBrackets brackets).HasToken literal
      (openingEntry (idsOf brackets) kind).bracket := by
  refine ⟨(openingEntry (idsOf brackets) kind).id, ?_⟩
  rw [token?_ofBrackets, entry?_eq, hNone, h]
  rfl

end TokenTable

end Bracketry

------------------------------------------------------------
-- What a Table Realises
------------------------------------------------------------

namespace Bracketry

namespace BracketDeclaration

/-
  Two kinds know of one another just where they are declared
  together, and colour only what they close.
-/
def AreLinked
    (declaration : BracketDeclaration)
    (opening : OpeningKind)
    (closing : ClosingKind) :
    Prop :=
  (closing.closes opening = true ↔
    declaration.Declares opening.literal
      closing.literal) ∧
    (closing.literal ∈ opening.closers ↔
      opening.literal ∈ closing.openers) ∧
    ∀ literal ∈ closing.colorized,
      literal ∈ closing.openers

/-
  Two kinds are linked, and their literals have an opening
  and a closing token that meet just where they are declared
  together.
-/
def Realises
    (declaration : BracketDeclaration)
    (opening : OpeningKind)
    (closing : ClosingKind) :
    Prop :=
  let table := TokenTable.ofDeclaration declaration
  declaration.AreLinked opening closing ∧
    ∃ opener closer,
      (table.HasToken opening.literal opener ∧
        opener.kind.isOpening = true) ∧
      (table.HasToken closing.literal closer ∧
        closer.kind.isOpening = false) ∧
      (opener.ids.intersects closer.ids = true ↔
        closing.closes opening = true)

/- No other kind has the lower case of one of the literals. -/
structure AreAlone
    (brackets : Brackets)
    (opening : OpeningKind)
    (closing : ClosingKind) :
    Prop where
  openings :
    ∀ other ∈ brackets.openings,
      Text.lowercase other.literal =
        Text.lowercase opening.literal → other = opening
  closings :
    ∀ other ∈ brackets.closings,
      Text.lowercase other.literal =
        Text.lowercase closing.literal → other = closing
  roles :
    ∀ other ∈ brackets.closings,
      Text.lowercase other.literal ≠
        Text.lowercase opening.literal

variable {declaration : BracketDeclaration}
variable {opening : OpeningKind} {closing : ClosingKind}

theorem areLinked
    (hOpening :
      opening ∈ (Brackets.ofDeclaration declaration).openings)
    (hClosing :
      closing ∈
        (Brackets.ofDeclaration declaration).closings) :
    declaration.AreLinked opening closing := by
  refine ⟨?_, ?_, ?_⟩
  · rw [ClosingKind.closes, List.contains_iff_mem,
      Brackets.mem_openers_iff hClosing, mem_declared_iff]
  · rw [Brackets.mem_closers_iff hOpening,
      Brackets.mem_openers_iff hClosing]
  · intro literal hLiteral
    exact (Brackets.mem_openers_iff hClosing).2
      (Brackets.mem_declared_of_mem_colorized hClosing
        hLiteral)

/- Kinds whose literals are alone in lower case are realised. -/
theorem AreAlone.realises
    (h :
      AreAlone (Brackets.ofDeclaration declaration) opening
        closing)
    (hOpening :
      opening ∈ (Brackets.ofDeclaration declaration).openings)
    (hClosing :
      closing ∈
        (Brackets.ofDeclaration declaration).closings) :
    declaration.Realises opening closing := by
  rcases Brackets.exists_lastOpening? hOpening with
    ⟨first, hFirst⟩
  rcases Brackets.exists_lastClosing? hClosing with
    ⟨last, hLast⟩
  rcases Brackets.of_lastOpening? hFirst with
    ⟨hFirstMem, hFirstKey⟩
  rcases Brackets.of_lastClosing? hLast with
    ⟨hLastMem, hLastKey⟩
  rcases h.openings first hFirstMem hFirstKey with rfl
  rcases h.closings last hLastMem hLastKey with rfl
  have hNone :
      (Brackets.ofDeclaration declaration).lastClosing?
        (Text.lowercase first.literal) = none := by
    refine Option.eq_none_iff_forall_ne_some.2 ?_
    intro other hOther
    rcases Brackets.of_lastClosing? hOther with ⟨hMem, hKey⟩
    exact h.roles other hMem hKey
  exact ⟨areLinked hOpening hClosing, _, _,
    ⟨TokenTable.hasToken_of_lastOpening? hNone hFirst, rfl⟩,
    ⟨TokenTable.hasToken_of_lastClosing? hLast, rfl⟩,
    TokenTable.intersects_iff_closes last hOpening⟩

/-
  Kinds are linked as they are declared.  The literal of a
  closing kind has a closing token, that of the last closing
  kind with the same literal in lower case.  The literal of
  an opening kind has the token of the last opening kind with
  it, and meets a closing token just where that kind closes
  this one; but where a closing literal is the same in lower
  case, it has the token of the last of these.  Kinds with
  literals of their own in lower case are realised.
-/
theorem tokens_of_lastKinds
    (hOpening :
      opening ∈ (Brackets.ofDeclaration declaration).openings)
    (hClosing :
      closing ∈
        (Brackets.ofDeclaration declaration).closings) :
    let brackets := Brackets.ofDeclaration declaration
    let table := TokenTable.ofDeclaration declaration
    declaration.AreLinked opening closing ∧
      (∃ last closer,
        brackets.lastClosing?
            (Text.lowercase closing.literal) = some last ∧
        table.HasToken closing.literal closer ∧
        closer.kind = .closing last ∧
        ((∃ first opener,
            brackets.lastClosing?
                (Text.lowercase opening.literal) = none ∧
            brackets.lastOpening?
                (Text.lowercase opening.literal) =
              some first ∧
            table.HasToken opening.literal opener ∧
            opener.kind = .opening first ∧
            (opener.ids.intersects closer.ids = true ↔
              last.closes first = true)) ∨
          ∃ other leaf,
            brackets.lastClosing?
                (Text.lowercase opening.literal) =
              some other ∧
            table.HasToken opening.literal leaf ∧
            leaf.kind = .closing other)) ∧
      (AreAlone brackets opening closing →
        declaration.Realises opening closing) := by
  intro brackets table
  refine ⟨areLinked hOpening hClosing, ?_,
    fun hAlone => hAlone.realises hOpening hClosing⟩
  rcases Brackets.exists_lastClosing? hClosing with
    ⟨last, hLast⟩
  refine ⟨last, _, hLast,
    TokenTable.hasToken_of_lastClosing? hLast, rfl, ?_⟩
  cases hOther :
      brackets.lastClosing?
        (Text.lowercase opening.literal) with
  | some other =>
      exact .inr ⟨other, _, rfl,
        TokenTable.hasToken_of_lastClosing? hOther, rfl⟩
  | none =>
      rcases Brackets.exists_lastOpening? hOpening with
        ⟨first, hFirst⟩
      have hMem := (Brackets.of_lastOpening? hFirst).1
      exact .inl ⟨first, _, rfl, hFirst,
        TokenTable.hasToken_of_lastOpening? hOther hFirst,
        rfl, TokenTable.intersects_iff_closes last hMem⟩

theorem tokens_of_lastKinds_do :
    let declaration : BracketDeclaration :=
      ⟨[⟨['d', 'o'], ['o', 'd']⟩, ⟨['i', 'f'], ['f', 'i']⟩],
        none⟩
    declaration.Realises ⟨['d', 'o'], [['o', 'd']]⟩
      ⟨['o', 'd'], [['d', 'o']], [['d', 'o']]⟩ :=
  (tokens_of_lastKinds (by decide) (by decide)).2.2
    ⟨by decide +kernel, by decide +kernel,
      by decide +kernel⟩

/- Two pairs with one opening literal, in two cases. -/
def twoCases : BracketDeclaration :=
  ⟨[⟨['d', 'o'], ['o', 'd']⟩, ⟨['D', 'O'], ['f', 'i']⟩],
    none⟩

/- One token for both cases cannot meet each closing one. -/
theorem exists_not_realises :
    ¬∀ opening ∈ (Brackets.ofDeclaration twoCases).openings,
      ∀ closing ∈ (Brackets.ofDeclaration twoCases).closings,
        twoCases.Realises opening closing := by
  intro hAll
  rcases hAll ⟨['d', 'o'], [['o', 'd']]⟩ (by decide)
      ⟨['o', 'd'], [['d', 'o']], [['d', 'o']]⟩ (by decide) with
    ⟨_, opener, closer, ⟨⟨openerId, hOpener⟩, _⟩, ⟨⟨closerId,
      hCloser⟩, _⟩, hMeet⟩
  have hLast :
      (TokenTable.ofDeclaration twoCases).token?
          ['d', 'o'] =
        some (.bracket
          ⟨⟨0, 2⟩, .opening ⟨['D', 'O'], [['f', 'i']]⟩,
            .single 1⟩ (some 1)) := by
    decide +kernel
  have hOnly :
      (TokenTable.ofDeclaration twoCases).token?
          ['o', 'd'] =
        some (.bracket
          ⟨⟨0, 2⟩,
            .closing
              ⟨['o', 'd'], [['d', 'o']], [['d', 'o']]⟩,
            .single 0⟩ (some 0)) := by
    decide +kernel
  rw [hLast, Option.some.injEq, Token.bracket.injEq]
    at hOpener
  rw [hOnly, Option.some.injEq, Token.bracket.injEq]
    at hCloser
  rw [← hOpener.1, ← hCloser.1] at hMeet
  exact absurd (hMeet.2 (by decide)) (by decide)

end BracketDeclaration

end Bracketry
