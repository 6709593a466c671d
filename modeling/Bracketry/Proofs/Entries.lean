import Bracketry.Proofs.Scans
import Mathlib.Data.List.Induction

/-
  The entries of a table.

  Lower case leaves a text in lower case as it is: no target
  of the table of lower case is a code point that it changes.
  So a text has one key, however it is looked up.  The entry
  of a key is that of the last kind with the key, closing
  kinds counting behind opening ones, and keys descend.

  Key definitions include:
    * `IsLower`
    * `TokenTable.made`
    * `TokenTable.AreDescending`

  Main declarations:
    * `Text.lowercase_lowercase`
    * `TokenTable.entry?_ofBrackets`
    * `TokenTable.token?_ofBrackets`
    * `TokenTable.areDescending_ofBrackets`
-/

------------------------------------------------------------
-- Lower Case
------------------------------------------------------------

namespace Bracketry

namespace CaseRun

/-
  No target of the one run is a code point of the other: the
  ranges are apart, or steps of two run past one another.
-/
def avoids
    (run other : CaseRun) :
    Bool :=
  Nat.blt (run.target + (run.last - run.first))
      other.first ||
    Nat.blt other.last run.target ||
    ((Nat.beq run.step 2 || Nat.beq run.first run.last) &&
      Nat.beq other.step 2 &&
      Nat.beq ((run.target + other.first) % 2) 1)

variable {run other : CaseRun}

theorem not_hits_of_avoids
    {k : Nat}
    (h : run.avoids other = true)
    (hRange : k ≤ run.last - run.first)
    (hStep : k % run.step = 0)
    (hFirst : other.first ≤ run.target + k)
    (hLast : run.target + k ≤ other.last) :
    (run.target + k - other.first) % other.step ≠ 0 := by
  rw [avoids, Bool.or_eq_true, Bool.or_eq_true,
    Bool.and_eq_true, Bool.and_eq_true, Bool.or_eq_true,
    Nat.blt_eq, Nat.blt_eq, Nat.beq_eq, Nat.beq_eq,
    Nat.beq_eq, Nat.beq_eq] at h
  rcases h with (hBefore | hBehind) | ⟨⟨hOwn, hOther⟩, hOdd⟩
  · omega
  · omega
  · have hEven : k % 2 = 0 := by
      rcases hOwn with hTwo | hOne
      · rwa [hTwo] at hStep
      · omega
    rw [hOther]
    omega

/- A partner is the code point or a target of some run. -/
theorem partner_cases
    (code : Nat)
    (runs : List CaseRun) :
    partner code runs = code ∨
      ∃ run ∈ runs, ∃ k, k ≤ run.last - run.first ∧
        k % run.step = 0 ∧
        partner code runs = run.target + k := by
  induction runs with
  | nil => exact .inl rfl
  | cons run rest ih =>
      have hRest :
          partner code rest = code ∨
            ∃ other ∈ run :: rest,
              ∃ k, k ≤ other.last - other.first ∧
                k % other.step = 0 ∧
                partner code rest = other.target + k := by
        rcases ih with hSame | ⟨other, hOther, hTarget⟩
        · exact .inl hSame
        · exact .inr
            ⟨other, List.mem_cons_of_mem _ hOther, hTarget⟩
      unfold partner
      split_ifs with hBefore hLast hStep
      · exact .inl rfl
      · exact .inr
          ⟨run, List.mem_cons_self, code - run.first,
            by omega, hStep, rfl⟩
      · exact hRest
      · exact hRest

/- A code point that no run hits is its own partner. -/
theorem partner_eq_self
    {code : Nat}
    {runs : List CaseRun}
    (h :
      ∀ run ∈ runs, run.first ≤ code → code ≤ run.last →
        (code - run.first) % run.step ≠ 0) :
    partner code runs = code := by
  induction runs with
  | nil => rfl
  | cons run rest ih =>
      rw [List.forall_mem_cons] at h
      unfold partner
      split_ifs with hBefore hLast hStep
      · rfl
      · exact absurd hStep (h.1 (by omega) hLast)
      · exact ih h.2
      · exact ih h.2

end CaseRun

/- Targets of lower case are in lower case themselves. -/
theorem Case.lower_avoids :
    Case.lower.all (fun run =>
      Nat.blt 90 run.target &&
        (⟨304, 304, 1, 105⟩ :: ⟨931, 931, 1, 963⟩ ::
          Case.lower).all run.avoids) = true := by
  decide +kernel

/- The character is not changed by lower case. -/
def IsLower
    (c : Char) :
    Prop :=
  lowerChar c = c ∧ c ≠ 'Σ' ∧ c ≠ 'İ'

instance (c : Char) : Decidable (IsLower c) :=
  inferInstanceAs (Decidable (_ ∧ _))

theorem isLower_of_ascii
    {c : Char}
    (hAscii : c.toNat < 128)
    (hUpper : isAsciiUpper c.toNat = false) :
    IsLower c := by
  have hAll :
      ∀ code < 128, isAsciiUpper code = false →
        IsLower (Char.ofNat code) := by
    decide +kernel
  have hCode := hAll c.toNat hAscii hUpper
  rwa [Char.ofNat_toNat] at hCode

/- A target of lower case is in lower case. -/
theorem isLower_target
    {run : CaseRun}
    {k : Nat}
    (hRun : run ∈ Case.lower)
    (hRange : k ≤ run.last - run.first)
    (hStep : k % run.step = 0) :
    IsLower (Char.ofNat (run.target + k)) := by
  have hAvoids := List.all_eq_true.1 Case.lower_avoids run hRun
  rw [Bool.and_eq_true, Nat.blt_eq, List.all_eq_true]
    at hAvoids
  rcases hAvoids with ⟨hLow, hAvoids⟩
  have hMisses :
      ∀ other ∈ (⟨304, 304, 1, 105⟩ :: ⟨931, 931, 1, 963⟩ ::
        Case.lower : List CaseRun),
        other.first ≤ run.target + k →
          run.target + k ≤ other.last →
            (run.target + k - other.first) % other.step ≠
              0 :=
    fun other hOther =>
      CaseRun.not_hits_of_avoids (hAvoids other hOther)
        hRange hStep
  rw [List.forall_mem_cons, List.forall_mem_cons] at hMisses
  rcases hMisses with ⟨hDotted, hSigma, hMisses⟩
  have hSelf := CaseRun.partner_eq_self hMisses
  have hAbove : 90 < run.target + k := by omega
  generalize run.target + k = code at *
  by_cases hNone : (Char.ofNat code).toNat = 0
  · apply isLower_of_ascii
    · omega
    · rw [hNone]
      rfl
  · have hCode := toNat_ofNat (Nat.pos_of_ne_zero hNone)
    by_cases hAscii : code < 128
    · apply isLower_of_ascii
      · omega
      · rw [hCode, isAsciiUpper, Bool.and_eq_false_iff,
          decide_eq_false_iff_not, decide_eq_false_iff_not]
        omega
    · refine ⟨?_, ?_, ?_⟩
      · rw [lowerChar, hCode, if_neg hAscii, hSelf]
      · intro hSame
        have hValue := congrArg Char.toNat hSame
        rw [hCode] at hValue
        subst hValue
        exact hSigma (by decide) (by decide) (by decide)
      · intro hSame
        have hValue := congrArg Char.toNat hSame
        rw [hCode] at hValue
        subst hValue
        exact hDotted (by decide) (by decide) (by decide)

/- What lower case maps to is in lower case. -/
theorem isLower_lowerChar
    {c : Char}
    (hSigma : c ≠ 'Σ')
    (hDotted : c ≠ 'İ') :
    IsLower (lowerChar c) := by
  by_cases hAscii : c.toNat < 128
  · have hAll :
        ∀ code < 128, IsLower (lowerChar (Char.ofNat code)) := by
      decide +kernel
    have hCode := hAll c.toNat hAscii
    rwa [Char.ofNat_toNat] at hCode
  · have hPartner :
        lowerChar c =
          Char.ofNat (CaseRun.partner c.toNat Case.lower) := by
      rw [lowerChar, if_neg hAscii]
    rcases CaseRun.partner_cases c.toNat Case.lower with
      hSame | ⟨run, hRun, k, hRange, hStep, hTarget⟩
    · rw [hSame, Char.ofNat_toNat] at hPartner
      rw [hPartner]
      exact ⟨hPartner, hSigma, hDotted⟩
    · rw [hPartner, hTarget]
      exact isLower_target hRun hRange hStep

end Bracketry

namespace Bracketry

namespace Text

theorem isLower_of_mem_lowercase
    {text : List Char}
    {c : Char}
    (h : c ∈ lowercase text) :
    IsLower c := by
  have hFrom :
      ∀ (text passed : List Char),
        c ∈ lowercaseFrom passed text → IsLower c := by
    intro text
    induction text with
    | nil => intro passed hMem; cases hMem
    | cons d rest ih =>
        intro passed hMem
        rw [lowercaseFrom, List.mem_append] at hMem
        rcases hMem with hHere | hRest
        · split_ifs at hHere with hSigma hFinal hDotted
          · rw [List.mem_singleton.1 hHere]
            decide +kernel
          · rw [List.mem_singleton.1 hHere]
            decide +kernel
          · rw [List.mem_cons, List.mem_singleton] at hHere
            rcases hHere with rfl | rfl <;> decide +kernel
          · rw [List.mem_singleton.1 hHere]
            exact isLower_lowerChar hSigma hDotted
        · exact ih (d :: passed) hRest
  exact hFrom text [] h

theorem lowercase_eq_self
    {text : List Char}
    (h : ∀ c ∈ text, IsLower c) :
    lowercase text = text := by
  have hFrom :
      ∀ passed, lowercaseFrom passed text = text := by
    induction text with
    | nil => exact fun _ => rfl
    | cons d rest ih =>
        intro passed
        rw [List.forall_mem_cons] at h
        rcases h with ⟨⟨hSame, hSigma, hDotted⟩, hRest⟩
        rw [lowercaseFrom, if_neg hSigma, if_neg hDotted,
          hSame, ih hRest, List.singleton_append]
  exact hFrom []

/- A text in lower case stays as it is. -/
theorem lowercase_lowercase
    (text : List Char) :
    lowercase (lowercase text) = lowercase text :=
  lowercase_eq_self fun _ => isLower_of_mem_lowercase

end Text

end Bracketry

------------------------------------------------------------
-- Entries of Kinds
------------------------------------------------------------

namespace Bracketry

namespace TokenEntry

/- Entering puts one entry in the place of its key. -/
theorem find?_enter
    (entry : TokenEntry)
    (entries : List TokenEntry)
    (key : List Char) :
    (entry.enter entries).find? (·.key == key) =
      ([entry].find? (·.key == key)).or
        (entries.find? (·.key == key)) := by
  induction entries with
  | nil => rw [enter, List.find?_nil, Option.or_none]
  | cons first rest ih =>
      unfold enter
      split_ifs with hSame hAbove
      · by_cases hKey : entry.key = key
        · simp [hKey]
        · simp [hKey, ← hSame]
      · rw [← List.find?_append, List.singleton_append]
      · by_cases hKey : first.key = key
        · have hOther : entry.key ≠ key := hKey ▸ hSame
          simp [hKey, hOther]
        · simp [hKey, ih]

/- Keys descend. -/
def AreDescending
    (entries : List TokenEntry) :
    Prop :=
  entries.Pairwise fun a b => b.key < a.key

theorem AreDescending.enter
    {entry : TokenEntry}
    {entries : List TokenEntry}
    (h : AreDescending entries) :
    AreDescending (entry.enter entries) := by
  induction entries with
  | nil => exact List.pairwise_singleton _ _
  | cons first rest ih =>
      unfold AreDescending at h ih ⊢
      rw [List.pairwise_cons] at h
      unfold TokenEntry.enter
      split_ifs with hSame hAbove
      · refine List.pairwise_cons.2 ⟨?_, h.2⟩
        rw [hSame]
        exact h.1
      · refine List.pairwise_cons.2
          ⟨?_, List.pairwise_cons.2 h⟩
        rintro other (_ | ⟨_, hOther⟩)
        · exact hAbove
        · exact List.lt_trans (h.1 other hOther) hAbove
      · refine List.pairwise_cons.2 ⟨?_, ih h.2⟩
        intro other hOther
        rcases mem_enter hOther with rfl | hRest
        · by_contra hBelow
          exact hSame (List.le_antisymm hAbove hBelow)
        · exact h.1 other hRest

end TokenEntry

namespace TokenTable

/- The entries of a language, in the order they are made. -/
def made
    (brackets : Brackets) :
    List TokenEntry :=
  brackets.openings.map (openingEntry (idsOf brackets)) ++
    brackets.closings.map (closingEntry (idsOf brackets))

theorem areDescending_ofBrackets
    (brackets : Brackets) :
    TokenEntry.AreDescending
      (ofBrackets brackets).entries := by
  have hFold :
      ∀ made entries : List TokenEntry,
        TokenEntry.AreDescending entries →
          TokenEntry.AreDescending
            (made.foldl (fun entries e => e.enter entries)
              entries) := by
    intro made
    induction made with
    | nil => exact fun _ h => h
    | cons entry rest ih => exact fun _ h => ih _ h.enter
  exact hFold _ [] .nil

/- The entry of a key is the last that is made with it. -/
theorem entry?_ofBrackets
    (brackets : Brackets)
    (key : List Char) :
    entry? (ofBrackets brackets) key =
      ((made brackets).filter (·.key == key)).getLast? := by
  have hFold :
      ∀ made : List TokenEntry,
        (made.foldl (fun entries e => e.enter entries)
            []).find? (·.key == key) =
          (made.filter (·.key == key)).getLast? := by
    intro made
    induction made using List.reverseRecOn with
    | nil => rfl
    | append_singleton rest entry ih =>
        rw [List.foldl_append, List.foldl_cons,
          List.foldl_nil, TokenEntry.find?_enter, ih,
          List.filter_append, List.getLast?_append]
        by_cases hKey : entry.key == key
        · simp [hKey]
        · simp [hKey]
  exact hFold _

end TokenTable

end Bracketry

------------------------------------------------------------
-- Tokens of Literals
------------------------------------------------------------

namespace Bracketry

namespace Brackets

/- The last opening kind with a literal in lower case. -/
def lastOpening?
    (brackets : Brackets)
    (key : List Char) :
    Option OpeningKind :=
  (brackets.openings.filter
    (Text.lowercase ·.literal == key)).getLast?

/- The last closing kind with a literal in lower case. -/
def lastClosing?
    (brackets : Brackets)
    (key : List Char) :
    Option ClosingKind :=
  (brackets.closings.filter
    (Text.lowercase ·.literal == key)).getLast?

end Brackets

namespace TokenTable

open Brackets

/- Closing kinds take the place of opening ones. -/
theorem entry?_eq
    (brackets : Brackets)
    (key : List Char) :
    entry? (ofBrackets brackets) key =
      ((brackets.lastClosing? key).map
          (closingEntry (idsOf brackets))).or
        ((brackets.lastOpening? key).map
          (openingEntry (idsOf brackets))) := by
  rw [entry?_ofBrackets, made, List.filter_append,
    List.filter_map, List.filter_map, List.getLast?_append,
    List.getLast?_map, List.getLast?_map]
  rfl

/- A literal has one token, as written or in lower case. -/
theorem token?_ofBrackets
    (brackets : Brackets)
    (literal : List Char) :
    (ofBrackets brackets).token? literal =
      (Option.map TokenEntry.token <|
        entry? (ofBrackets brackets)
          (Text.lowercase literal)) := by
  unfold token?
  cases hEntry : entry? (ofBrackets brackets) literal with
  | none => rfl
  | some entry =>
      have hKey : Text.lowercase literal = literal := by
        have hSame := List.find?_some hEntry
        rw [beq_iff_eq] at hSame
        rcases exists_of_mem_entries
            (List.mem_of_find?_eq_some hEntry) with
          ⟨kind, _, rfl⟩ | ⟨kind, _, rfl⟩
        · rw [← hSame]
          exact Text.lowercase_lowercase kind.literal
        · rw [← hSame]
          exact Text.lowercase_lowercase kind.literal
      rw [hKey, hEntry, Option.map_some]

end TokenTable

end Bracketry
