import Bracketry.Proofs.Composition
import Bracketry.Proofs.FromScratch
import Bracketry.Proofs.Indexes
import Bracketry.Proofs.Scripts

/-
  Trees of older texts, with the edits since then.

  An account tells what tokens stand for, and what is known
  of the forests of its trees.  A tree describes a text when
  its tokens spell the text.  It follows a text when it
  describes an older one and the edits that are queued for
  it turn that into the text.  A parse with a tree that
  follows a text makes one that describes it.

  Key definitions include:
    * `Account`
    * `Account.Describes`, `Account.Reaches`
    * `Account.Follows`
    * `Account.Reads`
    * `Account.Covers`

  Main declarations:
    * `Account.Reaches.queue`
    * `Account.Reads.parse`
    * `Account.Covers.makes`
-/

------------------------------------------------------------
-- Accounts
------------------------------------------------------------

namespace Bracketry

open Measured

/-
  What tokens stand for, what texts there are, and what is
  known of the forest of every part of a tree.
-/
structure Account (α : Type) where
  ending : List α
  Shows : List α → List α → List α → Token → Prop
  IsText : List α → Prop
  kept : Forest Token → Prop

namespace Account

variable {α β γ : Type}
variable [Measured α] [Measured β] [Measured γ]

/- All texts are small. -/
def IsSound
    (account : Account α) :
    Prop :=
  ∀ {text}, account.IsText text →
    IsSmall (text ++ account.ending)

/- No part of a known tree hides an opening bracket. -/
def IsShallow
    (account : Account α) :
    Prop :=
  ∀ forest, account.kept forest → forest.IsShallow

/- The tree shows tokens that spell the text. -/
def Describes
    (account : Account α)
    (root : Node)
    (text : List α) :
    Prop :=
  ∃ forest : Forest Token,
    root.IsRoot ∧ forest.shape = root.shape ∧
      account.kept forest ∧
      Spells account.Shows [] forest.leaves text
        account.ending

/-
  The tree describes a text that the edits turn into pieces,
  which may be more than the pieces of a text.
-/
def Reaches
    (account : Account α)
    (rel : α → β → Prop)
    (root : Node)
    (edits : List Edit)
    (pieces : List β) :
    Prop :=
  ∃ base,
    account.IsText base ∧ account.Describes root base ∧
      Turns rel 0 edits (base ++ account.ending) pieces

/- The tree describes a text that the edits turn into this. -/
def Follows
    (account : Account α)
    (text : List α)
    (root : Node)
    (edits : List Edit) :
    Prop :=
  account.Reaches Eq root edits (text ++ account.ending)

variable {account : Account α} {root : Node}
variable {edits batch : List Edit}

theorem Describes.follows
    {text : List α}
    (hText : account.IsText text)
    (h : account.Describes root text) :
    account.Follows text root [] := by
  refine ⟨text, hText, h, .kept ?_⟩
  rw [List.forall₂_eq_eq_eq]

theorem Follows.describes
    {text : List α}
    (h : account.Follows text root []) :
    account.Describes root text := by
  rcases h with ⟨base, _, hDescribes, hTurns⟩
  cases hTurns with
  | kept hKept =>
      rw [List.forall₂_eq_eq_eq] at hKept
      rwa [← List.append_cancel_right hKept]

/- Queued edits are composed with those before them. -/
theorem Reaches.queue
    {first : α → β → Prop}
    {second : β → γ → Prop}
    {middle : List β}
    {new : List γ}
    (hSound : account.IsSound)
    (hFirst : SameSize first)
    (hSecond : SameSize second)
    (hNew : FitsFrom 0 new)
    (h : account.Reaches first root edits middle)
    (hTurns : Turns second 0 batch middle new) :
    ∃ composed,
      Edit.compose edits batch = .ok composed ∧
        account.Reaches (Via first second) root composed
          new := by
  rcases h with ⟨base, hBase, hDescribes, hBefore⟩
  rcases hBefore.compose hFirst hSecond hTurns
      (hSound hBase).fitsFrom hNew with
    ⟨composed, hCompose, _, hAfter⟩
  exact ⟨composed, hCompose, base, hBase, hDescribes, hAfter⟩

theorem Follows.queue
    {text new : List α}
    (hSound : account.IsSound)
    (hNew : account.IsText new)
    (h : account.Follows text root edits)
    (hTurns :
      Turns Eq 0 batch (text ++ account.ending)
        (new ++ account.ending)) :
    ∃ composed,
      Edit.compose edits batch = .ok composed ∧
        account.Follows new root composed := by
  have hQueue :=
    Reaches.queue hSound sameSize_eq sameSize_eq
      (hSound hNew).fitsFrom h hTurns
  rwa [via_eq] at hQueue

end Account

end Bracketry

------------------------------------------------------------
-- Sources of an Account
------------------------------------------------------------

namespace Bracketry

open Measured

namespace Account

variable {α : Type} [Measured α]

/-
  The script reads texts of the account.  It keeps what the
  tree of an older text spelled, and what is matched in its
  own text has the known properties.
-/
structure Reads
    (account : Account α)
    (script : Script α) :
    Prop where
  ending : script.ending = account.ending
  shows : script.Shows = account.Shows
  sound : script.IsSound
  keeps :
    ∀ {base forest},
      account.IsText base → account.kept forest →
        Spells account.Shows [] forest.leaves base
            account.ending →
          script.Keeps ⟨base, forest.leaves, account.kept⟩
  known :
    ∀ {forest : Forest Token},
      forest.IsMatched →
        (account.IsShallow →
          forest.Nests (Parser.maxNestingLevel < ·)
            (fun _ => True) 0) →
          Spells account.Shows [] forest.leaves script.text
              account.ending →
            account.kept forest

/- A parse without an old tree describes the text. -/
theorem Reads.parse_scratch
    {account : Account α}
    {script : Script α}
    (h : account.Reads script) :
    ∃ root stats,
      parseDocument (TokenStream.ofLines script.source) []
          none = .ok (root, stats) ∧
        account.Describes root script.text := by
  rcases Script.parseDocument_spells h.sound .scratch with
    ⟨root, stats, forest, hParse, hRoot, hShape, hMatched,
      hNests, hSpells⟩
  rw [h.shows, h.ending] at hSpells
  have hKept : account.kept forest := by
    refine h.known hMatched (fun _ => hNests ?_) hSpells
    rintro _ ⟨⟩
  exact ⟨root, stats, hParse, forest, hRoot, hShape.symm,
    hKept, hSpells⟩

/- So does a parse with a tree that follows the text. -/
theorem Reads.parse
    {account : Account α}
    {script : Script α}
    {edits : List Edit}
    {old : Node}
    (h : account.Reads script)
    (hOld : account.Follows script.text old edits) :
    ∃ root stats,
      parseDocument (TokenStream.ofLines script.source) edits
          (some old) = .ok (root, stats) ∧
        account.Describes root script.text := by
  rcases hOld with
    ⟨base, hBase, ⟨before, hRoot, hShape, hKept, hBefore⟩,
      hTurns⟩
  rw [← h.ending] at hTurns
  have hStarts :
      script.StartsFrom edits (some old)
        (some ⟨base, before.leaves, account.kept⟩) :=
    .tree hRoot hShape hKept rfl
      (h.keeps hBase hKept hBefore) hTurns
  rcases Script.parseDocument_spells h.sound hStarts with
    ⟨root, stats, forest, hParse, hNewRoot, hNewShape, hMatched,
      hNests, hSpells⟩
  rw [h.shows, h.ending] at hSpells
  have hNewKept : account.kept forest := by
    refine h.known hMatched (fun hAll => hNests ?_) hSpells
    rintro _ ⟨⟩
    exact hAll
  exact ⟨root, stats, hParse, forest, hNewRoot,
    hNewShape.symm, hNewKept, hSpells⟩

/- So does the parse of a scan that spells the text. -/
theorem exists_scanned
    {account : Account α}
    {table : TokenTable}
    {text : List Char}
    {pieces : List α}
    (hRegular :
      ∀ token ∈ Scan.tokens table text, token.IsRegular)
    (hSmall : IsSmall (pieces ++ account.ending))
    (hFew : pieces.length < 2 ^ 64)
    (hKnown :
      ∀ {forest : Forest Token},
        forest.IsMatched →
          forest.Nests (Parser.maxNestingLevel < ·)
            (fun _ => True) 0 →
            Spells account.Shows [] forest.leaves pieces
                account.ending →
              account.kept forest)
    (hSpells :
      Spells account.Shows [] (Scan.tokens table text) pieces
        account.ending) :
    ∃ root stats,
      parseDocument (TokenStream.ofText table text) [] none =
          .ok (root, stats) ∧
        account.Describes root pieces := by
  rcases parseDocument_of_tokens hRegular
      (hSpells.allFit hSmall)
      (Nat.lt_of_le_of_lt hSpells.length_le hFew)
      (Scan.length (Scan.tokens table text)) with
    ⟨root, stats, forest, hParse, hRoot, hShape, hMatched,
      hDeep, hLeaves⟩
  rw [← hLeaves] at hSpells
  have hKept :=
    hKnown hMatched
      (hDeep.mono (fun _ hHides => hHides)
        (fun _ _ => trivial)) hSpells
  exact ⟨root, stats, hParse, forest, hRoot, hShape.symm,
    hKept, hSpells⟩

end Account

end Bracketry

------------------------------------------------------------
-- Content of an Account
------------------------------------------------------------

namespace Bracketry

open Measured

namespace Account

variable {α : Type} [Measured α]

/-
  The account tells of content with a classification: read
  by lines, and scanned at once where it is not classified.
-/
structure Covers
    (account : Account α)
    (table : TokenTable)
    (content : Content)
    (spans : Option SpanTable)
    (text : List α) :
    Prop where
  isText : account.IsText text
  lines :
    ∃ script,
      account.Reads script ∧ script.text = text ∧
        script.source =
          ⟨content, spans.getD SpanTable.plain, table⟩
  scan :
    spans = none →
      ∃ root stats,
        parseDocument
            (TokenStream.ofText table content.text) [] none =
          .ok (root, stats) ∧
          account.Describes root text

variable {account : Account α} {table : TokenTable}
variable {content : Content} {spans : Option SpanTable}
variable {text : List α}

/- Keys do not change what a tree describes. -/
theorem Describes.giveKeys
    {root : Node}
    (next : Nat)
    (h : account.Describes root text) :
    account.Describes (root.giveKeys next).1 text := by
  rcases h with ⟨forest, hRoot, hShape, hKept, hSpells⟩
  refine ⟨forest, Node.isRoot_giveKeys next hRoot, ?_, hKept,
    hSpells⟩
  rw [(Node.isRekeyed_giveKeys root next).shape, hShape]

/- A parse without an old tree describes the text. -/
theorem Covers.parse_fresh
    (h : account.Covers table content spans text) :
    ∃ root stats,
      Index.parse table content spans ⟨none, []⟩ =
          .ok (root, stats) ∧
        account.Describes root text := by
  rcases h.lines with ⟨script, hReads, hText, hSource⟩
  cases spans with
  | none => exact h.scan rfl
  | some spans =>
      rcases hReads.parse_scratch with
        ⟨root, stats, hParse, hRoot⟩
      rw [hSource] at hParse
      rw [hText] at hRoot
      exact ⟨root, stats, hParse, hRoot⟩

/- So does a parse with a tree that follows the text. -/
theorem Covers.parse
    {root : Node}
    {edits : List Edit}
    (h : account.Covers table content spans text)
    (hRoot : account.Follows text root edits) :
    ∃ new stats,
      Index.parse table content spans
          (Index.jobOf root edits) = .ok (new, stats) ∧
        account.Describes new text := by
  cases edits with
  | nil => exact h.parse_fresh
  | cons edit rest =>
      rcases h.lines with ⟨script, hReads, hText, hSource⟩
      rw [← hText] at hRoot
      rcases hReads.parse hRoot with ⟨new, stats, hParse, hNew⟩
      rw [hSource] at hParse
      rw [hText] at hNew
      refine ⟨new, stats, ?_, hNew⟩
      rw [← hParse]
      cases spans <;> rfl

/- A tree is made that follows the text with its keys. -/
theorem Covers.makes_fresh
    (h : account.Covers table content spans text) :
    Index.Makes table content spans ⟨none, []⟩
      fun root => account.Follows text root [] := by
  rcases h.parse_fresh with ⟨root, stats, hParse, hRoot⟩
  exact ⟨root, stats, hParse, fun next =>
    (hRoot.giveKeys next).follows h.isText⟩

theorem Covers.makes
    {root : Node}
    {edits : List Edit}
    (h : account.Covers table content spans text)
    (hRoot : account.Follows text root edits) :
    Index.Makes table content spans
      (Index.jobOf root edits)
      fun root => account.Follows text root [] := by
  rcases h.parse hRoot with ⟨new, stats, hParse, hNew⟩
  exact ⟨new, stats, hParse, fun next =>
    (hNew.giveKeys next).follows h.isText⟩

end Account

end Bracketry
