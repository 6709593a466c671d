import Bracketry.Command.Arguments
import Bracketry.Proofs.Fields
import Mathlib.Data.List.Perm.Basic
import Mathlib.Tactic.MkIffOfInductiveProp

/-
  Which command lines are understood, and as what.

  A command line is a row of groups: a file, an option, or an
  option with its value.  A list of arguments is understood
  just if it is such a row with one file and at most one
  question, and what it says then depends on the groups alone
  and not on how files, questions and other options are mixed.

  Key definitions include:
    * `Question.IsPosition`, `Replacement.IsEdit`
    * `Group.IsWritten`, `Group.AreWritten`
    * `Arguments.Draft.Gathers`
    * `Arguments.IsToldBy`

  Main declarations:
    * `Replacement.unescape_eq`
    * `Group.read_eq_ok_iff`
    * `Arguments.Draft.addAll_of_areWritten`
    * `Arguments.Draft.foldlM_add_eq_ok_iff`
    * `Arguments.parse_iff_isToldBy`
-/

------------------------------------------------------------
-- Positions
------------------------------------------------------------

namespace Bracketry

namespace Question

/- Two counts, cut at the first colon. -/
def IsPosition
    (value : List Char)
    (position : Position) :
    Prop :=
  ∃ line column,
    value = line ++ ':' :: column ∧
      ':' ∉ line ∧
      Text.WritesCount line position.lines ∧
      Text.WritesCount column position.columns

theorem position?_eq_some_iff
    {value : List Char}
    {position : Position} :
    position? value = some position ↔
      IsPosition value position := by
  simp only [position?, bind, Option.bind_eq_some_iff,
    Prod.exists, Text.splitFirst?_mark_iff,
    Text.count?_trim_eq_some_iff]
  constructor
  · rintro ⟨line, column, ⟨hFree, hText⟩, lines, hLines,
      columns, hColumns, ⟨⟩⟩
    exact ⟨line, column, hText, hFree, hLines, hColumns⟩
  · rintro ⟨line, column, hText, hFree, hLines, hColumns⟩
    exact ⟨line, column, ⟨hFree, hText⟩, _, hLines, _,
      hColumns, rfl⟩

instance
    (value : List Char)
    (position : Position) :
    Decidable (IsPosition value position) :=
  decidable_of_iff _ position?_eq_some_iff

end Question

end Bracketry

------------------------------------------------------------
-- Edits
------------------------------------------------------------

namespace Bracketry

namespace Replacement

/-
  Every backslash in front of a letter makes, together with
  the letter, one character.
-/
def replaceEscape
    (letter made : Char) :
    List Char → List Char
  | '\\' :: c :: rest =>
      if c = letter then
        made :: replaceEscape letter made rest
      else '\\' :: replaceEscape letter made (c :: rest)
  | c :: rest => c :: replaceEscape letter made rest
  | [] => []

section Escapes

variable {letter made c d : Char} {text rest : List Char}

theorem replaceEscape_escape :
    replaceEscape letter made ('\\' :: letter :: rest) =
      made :: replaceEscape letter made rest := by
  rw [replaceEscape, if_pos rfl]

/- A character that begins no escape stays. -/
theorem replaceEscape_cons
    (h : c = '\\' → text.head? ≠ some letter) :
    replaceEscape letter made (c :: text) =
      c :: replaceEscape letter made text := by
  by_cases hSlash : c = '\\'
  · subst hSlash
    cases text with
    | nil => rfl
    | cons d rest =>
        have hOther : d ≠ letter := by
          simpa using h rfl
        rw [replaceEscape, if_neg hOther]
  · rw [replaceEscape]
    intro d others hSame
    exact absurd hSame hSlash

/- An escape that is replaced leaves no letter in front. -/
theorem head?_replaceEscape_ne
    (hMade : made ≠ d)
    (hHead : text.head? ≠ some d) :
    (replaceEscape letter made text).head? ≠ some d := by
  fun_cases replaceEscape letter made text with
  | case1 rest => simpa using hMade
  | case2 c rest hOther => simpa using hHead
  | case3 c rest hSlash => simpa using hHead
  | case4 => simp

/- Both escapes may be replaced one after the other. -/
theorem unescape_eq
    (text : List Char) :
    unescape text =
      replaceEscape 't' '\t' (replaceEscape 'n' '\n' text) := by
  fun_induction unescape text with
  | case1 rest ih =>
      rw [replaceEscape_escape,
        replaceEscape_cons (by simp), ih]
  | case2 rest ih =>
      have hStays :
          replaceEscape 'n' '\n' ('\\' :: 't' :: rest) =
            '\\' :: 't' :: replaceEscape 'n' '\n' rest := by
        rw [replaceEscape_cons (by simp),
          replaceEscape_cons (by simp)]
      rw [hStays, replaceEscape_escape, ih]
  | case3 c rest hFeed hTab ih =>
      have hHead (letter : Char)
          (h : ∀ others, rest ≠ letter :: others) :
          rest.head? ≠ some letter := by
        intro hSome
        rcases List.head?_eq_some_iff.1 hSome with
          ⟨others, hRest⟩
        exact h others hRest
      rw [replaceEscape_cons, replaceEscape_cons, ih]
      · intro hSlash
        exact head?_replaceEscape_ne (by decide)
          (hHead 't' fun others => hTab others hSlash)
      · intro hSlash
        exact hHead 'n' fun others => hFeed others hSlash
  | case4 => rfl

end Escapes

/-
  Two positions and a text, cut at the first equals sign and
  in front of that at the first minus sign.
-/
def IsEdit
    (value : List Char)
    (edit : Replacement) :
    Prop :=
  ∃ start stop text,
    value = (start ++ '-' :: stop) ++ '=' :: text ∧
      '=' ∉ start ++ '-' :: stop ∧
      '-' ∉ start ∧
      Question.IsPosition start edit.start ∧
      Question.IsPosition stop edit.stop ∧
      edit.text =
        replaceEscape 't' '\t' (replaceEscape 'n' '\n' text)

theorem ofValue?_eq_some_iff
    {value : List Char}
    {edit : Replacement} :
    ofValue? value = some edit ↔ IsEdit value edit := by
  simp only [ofValue?, bind, Option.bind_eq_some_iff,
    Prod.exists, Text.splitFirst?_mark_iff,
    Question.position?_eq_some_iff, unescape_eq]
  constructor
  · rintro ⟨stretch, text, ⟨hFree, hValue⟩, start, stop,
      ⟨hStart, rfl⟩, first, hFirst, last, hLast, ⟨⟩⟩
    exact ⟨start, stop, text, hValue, hFree, hStart, hFirst,
      hLast, rfl⟩
  · rcases edit with ⟨first, last, made⟩
    rintro ⟨start, stop, text, hValue, hFree, hStart, hFirst,
      hLast, rfl⟩
    exact ⟨_, text, ⟨hFree, hValue⟩, start, stop,
      ⟨hStart, rfl⟩, first, hFirst, last, hLast, rfl⟩

instance
    (value : List Char)
    (edit : Replacement) :
    Decidable (IsEdit value edit) :=
  decidable_of_iff _ ofValue?_eq_some_iff

end Replacement

end Bracketry

------------------------------------------------------------
-- Groups
------------------------------------------------------------

namespace Bracketry

namespace Group

/- How a group is written. -/
inductive IsWritten : Group → List (List Char) → Prop where
  | file
      {path : List Char}
      (h : ¬['-', '-'] <+: path) :
      IsWritten (.file path) [path]
  | settings
      (path : List Char) :
      IsWritten (.settings path) [settingsOption, path]
  | pairs : IsWritten (.question .pairs) [pairsOption]
  | brackets :
      IsWritten (.question .brackets) [bracketsOption]
  | partner
      {value : List Char}
      {position : Position}
      (h : Question.IsPosition value position) :
      IsWritten (.question (.partner position))
        [partnerOption, value]
  | edit
      {value : List Char}
      {edit : Replacement}
      (h : Replacement.IsEdit value edit) :
      IsWritten (.edit edit) [editOption, value]

/- A row of groups, written one behind the other. -/
inductive AreWritten :
    List Group → List (List Char) → Prop where
  | nil : AreWritten [] []
  | cons
      {group : Group}
      {groups : List Group}
      {words rest : List (List Char)}
      (hGroup : IsWritten group words)
      (hGroups : AreWritten groups rest) :
      AreWritten (group :: groups) (words ++ rest)

variable {group : Group} {groups others : List Group}
variable {argument value : List Char}
variable {arguments rest behind words : List (List Char)}

theorem isOption_iff :
    isOption argument = true ↔ ['-', '-'] <+: argument := by
  rw [isOption, decide_eq_true_eq, List.prefix_iff_eq_take]
  exact eq_comm

theorem withValue_eq_ok_iff
    {missing : ArgumentError}
    {make : List Char → Except ArgumentError Group} :
    withValue missing make arguments = .ok (group, behind) ↔
      ∃ value,
        arguments = value :: behind ∧
          make value = .ok group := by
  cases arguments with
  | nil => simp [withValue]
  | cons value rest =>
      rw [withValue]
      cases hMake : make value with
      | error e => simp [hMake]
      | ok found =>
          simp only [Except.ok.injEq, Prod.mk.injEq,
            List.cons.injEq]
          constructor
          · rintro ⟨rfl, rfl⟩
            exact ⟨value, ⟨rfl, rfl⟩, hMake⟩
          · rintro ⟨other, ⟨rfl, rfl⟩, hOther⟩
            exact ⟨Except.ok.inj (hMake.symm.trans hOther), rfl⟩

theorem ofPosition_eq_ok_iff :
    ofPosition value = .ok group ↔
      ∃ position,
        Question.IsPosition value position ∧
          group = .question (.partner position) := by
  simp only [← Question.position?_eq_some_iff, ofPosition]
  cases Question.position? value <;> simp [eq_comm]

theorem ofEdit_eq_ok_iff :
    ofEdit value = .ok group ↔
      ∃ edit,
        Replacement.IsEdit value edit ∧
          group = .edit edit := by
  simp only [← Replacement.ofValue?_eq_some_iff, ofEdit]
  cases Replacement.ofValue? value <;> simp [eq_comm]

theorem read_partnerOption :
    read partnerOption rest =
      withValue .missingPosition ofPosition rest :=
  rfl

theorem read_editOption :
    read editOption rest =
      withValue .missingEdit ofEdit rest :=
  rfl

/-
  The group that is read is the one that is written at the
  beginning of the arguments.
-/
theorem read_eq_ok_iff :
    read argument rest = .ok (group, behind) ↔
      ∃ words,
        IsWritten group words ∧
          argument :: rest = words ++ behind := by
  constructor
  · intro h
    unfold read at h
    split at h
    · subst argument
      cases h
      exact ⟨_, .pairs, rfl⟩
    split at h
    · subst argument
      cases h
      exact ⟨_, .brackets, rfl⟩
    split at h
    · subst argument
      rcases withValue_eq_ok_iff.1 h with ⟨value, rfl, hMake⟩
      rcases ofPosition_eq_ok_iff.1 hMake with
        ⟨position, hPosition, rfl⟩
      exact ⟨_, .partner hPosition, rfl⟩
    split at h
    · subst argument
      rcases withValue_eq_ok_iff.1 h with ⟨value, rfl, hMake⟩
      rcases ofEdit_eq_ok_iff.1 hMake with ⟨edit, hEdit, rfl⟩
      exact ⟨_, .edit hEdit, rfl⟩
    split at h
    · subst argument
      rcases withValue_eq_ok_iff.1 h with ⟨path, rfl, hMake⟩
      cases hMake
      exact ⟨_, .settings path, rfl⟩
    split at h
    · cases h
    · rename_i hOption
      cases h
      rw [isOption_iff] at hOption
      exact ⟨_, .file hOption, rfl⟩
  · rintro ⟨words, hWritten, hWords⟩
    cases hWritten with
    | file hFile =>
        rcases List.cons.inj hWords with ⟨rfl, rfl⟩
        rw [← isOption_iff] at hFile
        -- all options begin with two minus signs
        have hNone (option : List Char)
            (hOption : isOption option = true) :
            argument ≠ option :=
          fun hSame => hFile (hSame ▸ hOption)
        rw [read, if_neg (hNone _ (by decide)),
          if_neg (hNone _ (by decide)),
          if_neg (hNone _ (by decide)),
          if_neg (hNone _ (by decide)),
          if_neg (hNone _ (by decide)), if_neg hFile]
    | settings path =>
        rcases List.cons.inj hWords with ⟨rfl, rfl⟩
        rfl
    | pairs =>
        rcases List.cons.inj hWords with ⟨rfl, rfl⟩
        rfl
    | brackets =>
        rcases List.cons.inj hWords with ⟨rfl, rfl⟩
        rfl
    | partner hPosition =>
        rcases List.cons.inj hWords with ⟨rfl, rfl⟩
        rw [read_partnerOption, withValue_eq_ok_iff]
        exact ⟨_, rfl,
          ofPosition_eq_ok_iff.2 ⟨_, hPosition, rfl⟩⟩
    | edit hEdit =>
        rcases List.cons.inj hWords with ⟨rfl, rfl⟩
        rw [read_editOption, withValue_eq_ok_iff]
        exact ⟨_, rfl, ofEdit_eq_ok_iff.2 ⟨_, hEdit, rfl⟩⟩

theorem IsWritten.ne_nil
    (h : IsWritten group words) :
    words ≠ [] := by
  cases h <;> simp

/- Arguments are written by one row of groups at most. -/
theorem AreWritten.unique
    (h : AreWritten groups arguments)
    (hOthers : AreWritten others arguments) :
    groups = others := by
  induction h generalizing others with
  | nil =>
      generalize hNil : [] = whole at hOthers
      cases hOthers with
      | nil => rfl
      | cons hGroup _ =>
          have hWords := (List.append_eq_nil_iff.1 hNil.symm).1
          exact absurd hWords hGroup.ne_nil
  | @cons group groups words rest hGroup _ ih =>
      generalize hWhole : words ++ rest = whole at hOthers
      cases hOthers with
      | nil =>
          have hWords := (List.append_eq_nil_iff.1 hWhole).1
          exact absurd hWords hGroup.ne_nil
      | @cons other more otherWords otherRest hOther hMore =>
          rcases List.exists_cons_of_ne_nil hGroup.ne_nil with
            ⟨argument, tail, rfl⟩
          have hRead :
              read argument (tail ++ rest) =
                .ok (group, rest) :=
            read_eq_ok_iff.2 ⟨_, hGroup, rfl⟩
          have hOtherRead :
              read argument (tail ++ rest) =
                .ok (other, otherRest) :=
            read_eq_ok_iff.2 ⟨_, hOther, hWhole⟩
          rw [hRead] at hOtherRead
          rcases Prod.mk.inj (Except.ok.inj hOtherRead) with
            ⟨rfl, rfl⟩
          rw [ih hMore]

end Group

end Bracketry

------------------------------------------------------------
-- What Groups Say
------------------------------------------------------------

namespace Bracketry

namespace Group

/- The file that a group names. -/
@[simp] def file? : Group → Option (List Char)
  | .file path => some path
  | _ => none

/- The settings that a group names. -/
@[simp] def settings? : Group → Option (List Char)
  | .settings path => some path
  | _ => none

/- The question that a group makes. -/
@[simp] def question? : Group → Option Question
  | .question asked => some asked
  | _ => none

/- The edit that a group asks for. -/
@[simp] def edit? : Group → Option Replacement
  | .edit made => some made
  | _ => none

end Group

namespace Arguments

namespace Draft

/-
  A draft with what groups say.  What was there and what is
  added make no more than one file and no more than one
  question together.
-/
@[mk_iff] structure Gathers
    (draft : Draft)
    (groups : List Group)
    (final : Draft) : Prop where
  file :
    draft.file.toList ++ groups.filterMap Group.file? =
      final.file.toList
  settings :
    (groups.filterMap Group.settings?).getLast?.or
        draft.settings =
      final.settings
  question :
    draft.question.toList ++
        groups.filterMap Group.question? =
      final.question.toList
  edits :
    draft.edits ++ groups.filterMap Group.edit? =
      final.edits

variable {draft next final : Draft} {group : Group}
variable {groups : List Group}
variable {arguments : List (List Char)}

theorem toList_inj
    {α : Type}
    {a b : Option α} :
    a.toList = b.toList ↔ a = b := by
  cases a <;> cases b <;> simp

/- Adding a group gathers what it says. -/
theorem add_eq_ok_iff :
    draft.add group = .ok next ↔
      draft.Gathers [group] next := by
  rcases draft with ⟨file, settings, question, edits⟩
  rcases next with
    ⟨nextFile, nextSettings, nextQuestion, nextEdits⟩
  rw [gathers_iff]
  cases group with
  | file path =>
      cases file <;> cases nextFile <;>
        simp [add, List.filterMap_cons, toList_inj]
  | settings path =>
      simp [add, List.filterMap_cons, toList_inj]
  | question asked =>
      cases question <;> cases nextQuestion <;>
        simp [add, List.filterMap_cons, toList_inj]
  | edit made =>
      simp [add, List.filterMap_cons, toList_inj]

/- The beginning of what is one at most is one at most. -/
theorem exists_toList_of_append
    {α : Type}
    {first second : List α}
    {value : Option α}
    (h : first ++ second = value.toList) :
    ∃ part : Option α, first = part.toList := by
  cases first with
  | nil => exact ⟨none, rfl⟩
  | cons a rest =>
      cases value with
      | none => cases h
      | some b =>
          rcases List.cons.inj h with ⟨rfl, hRest⟩
          rw [(List.append_eq_nil_iff.1 hRest).1]
          exact ⟨some a, rfl⟩

/- What groups say is gathered one by one. -/
theorem gathers_cons_iff :
    draft.Gathers (group :: groups) final ↔
      ∃ next,
        draft.Gathers [group] next ∧
          next.Gathers groups final := by
  have hSplit {α : Type} (say? : Group → Option α) :
      (group :: groups).filterMap say? =
        [group].filterMap say? ++ groups.filterMap say? := by
    rw [← List.filterMap_append]
    rfl
  constructor
  · intro h
    have hFile := h.file
    have hQuestion := h.question
    rw [hSplit, ← List.append_assoc] at hFile hQuestion
    rcases exists_toList_of_append hFile with ⟨file, hNextFile⟩
    rcases exists_toList_of_append hQuestion with
      ⟨question, hNextQuestion⟩
    rw [hNextFile] at hFile
    rw [hNextQuestion] at hQuestion
    refine ⟨⟨file,
        ([group].filterMap Group.settings?).getLast?.or
          draft.settings,
        question,
        draft.edits ++ [group].filterMap Group.edit?⟩,
      ⟨hNextFile, rfl, hNextQuestion, rfl⟩,
      ⟨hFile, ?_, hQuestion, ?_⟩⟩
    · rw [← h.settings, hSplit, List.getLast?_append,
        Option.or_assoc]
    · rw [← h.edits, hSplit, List.append_assoc]
  · rintro ⟨next, hGroup, hGroups⟩
    refine ⟨?_, ?_, ?_, ?_⟩
    · rw [hSplit, ← List.append_assoc, hGroup.file,
        hGroups.file]
    · rw [hSplit, List.getLast?_append, Option.or_assoc,
        hGroup.settings, hGroups.settings]
    · rw [hSplit, ← List.append_assoc, hGroup.question,
        hGroups.question]
    · rw [hSplit, ← List.append_assoc, hGroup.edits,
        hGroups.edits]

theorem gathers_nil_iff :
    draft.Gathers [] final ↔ draft = final := by
  rcases draft with ⟨file, settings, question, edits⟩
  rcases final with
    ⟨lastFile, lastSettings, lastQuestion, lastEdits⟩
  simp [gathers_iff, toList_inj]

/- Adding groups one by one gathers what they say. -/
theorem foldlM_add_eq_ok_iff :
    groups.foldlM add draft = .ok final ↔
      draft.Gathers groups final := by
  induction groups generalizing draft with
  | nil =>
      rw [gathers_nil_iff, List.foldlM_nil]
      exact ⟨fun h => Except.ok.inj h, fun h => h ▸ rfl⟩
  | cons group rest ih =>
      rw [gathers_cons_iff, List.foldlM_cons]
      simp only [← add_eq_ok_iff, ← ih]
      cases draft.add group with
      | error e => simp [bind, Except.bind]
      | ok next => simp [bind, Except.bind]

/- Written groups are added one by one. -/
theorem addAll_of_areWritten
    (h : Group.AreWritten groups arguments)
    (draft : Draft) :
    draft.addAll arguments = groups.foldlM add draft := by
  induction h generalizing draft with
  | nil =>
      rw [addAll]
      rfl
  | @cons group groups words rest hGroup hGroups ih =>
      rcases List.exists_cons_of_ne_nil hGroup.ne_nil with
        ⟨argument, tail, rfl⟩
      have hRead :
          Group.read argument (tail ++ rest) =
            .ok (group, rest) :=
        Group.read_eq_ok_iff.2 ⟨_, hGroup, rfl⟩
      rw [List.cons_append, addAll, List.foldlM_cons]
      split
      · rename_i e hError
        rw [hRead] at hError
        cases hError
      · rename_i found behind hFound
        rw [hRead] at hFound
        cases hFound
        cases draft.add group with
        | error e => rfl
        | ok next => exact ih next

/- Arguments that are understood are written groups. -/
theorem exists_areWritten_of_addAll
    (h : draft.addAll arguments = .ok final) :
    ∃ groups, Group.AreWritten groups arguments := by
  fun_induction addAll draft arguments with
  | case1 => exact ⟨[], .nil⟩
  | case2 => cases h
  | case3 => cases h
  | case4 draft argument rest group behind hRead next hAdd ih =>
      rcases ih h with ⟨groups, hGroups⟩
      rcases Group.read_eq_ok_iff.1 hRead with
        ⟨words, hWords, hSplit⟩
      rw [hSplit]
      exact ⟨group :: groups, .cons hWords hGroups⟩

end Draft

end Arguments

end Bracketry

------------------------------------------------------------
-- Command Lines
------------------------------------------------------------

namespace Bracketry

namespace Arguments

/-
  The arguments say what groups do: the one file, the last
  settings, the question if there is one, and all edits.
-/
structure IsToldBy
    (result : Arguments)
    (groups : List Group) : Prop where
  file : groups.filterMap Group.file? = [result.file]
  settings :
    (groups.filterMap Group.settings?).getLast? =
      result.settings
  question :
    groups.filterMap Group.question? = [] ∧
        result.question = .pairs ∨
      groups.filterMap Group.question? = [result.question]
  edits : groups.filterMap Group.edit? = result.edits

variable {result : Arguments} {groups others : List Group}
variable {arguments reordered : List (List Char)}

theorem finish_eq_ok_iff
    {draft : Draft} :
    draft.finish = .ok result ↔
      draft.file = some result.file ∧
        draft.settings = result.settings ∧
        draft.question.getD .pairs = result.question ∧
        draft.edits = result.edits := by
  rcases result with ⟨file, settings, question, edits⟩
  rw [Draft.finish]
  cases draft.file <;> simp

/- What groups say is gathered and completed. -/
theorem isToldBy_iff :
    result.IsToldBy groups ↔
      ∃ draft,
        Draft.empty.Gathers groups draft ∧
          draft.finish = .ok result := by
  simp only [finish_eq_ok_iff]
  constructor
  · rintro ⟨hFile, hSettings, hQuestion, hEdits⟩
    refine ⟨⟨some result.file, result.settings,
        (groups.filterMap Group.question?).head?,
        result.edits⟩,
      ⟨hFile, ?_, ?_, hEdits⟩, rfl, rfl, ?_, rfl⟩
    · simpa [Draft.empty] using hSettings
    · rcases hQuestion with ⟨hNone, _⟩ | hOne
      · simp [Draft.empty, hNone]
      · simp [Draft.empty, hOne]
    · rcases hQuestion with ⟨hNone, hPairs⟩ | hOne
      · simp [hNone, hPairs]
      · simp [hOne]
  · rintro ⟨draft, hGathers, hFile, hSettings, hQuestion,
      hEdits⟩
    refine ⟨?_, ?_, ?_, ?_⟩
    · simpa [Draft.empty, hFile] using hGathers.file
    · simpa [Draft.empty, hSettings] using hGathers.settings
    · have hAsked :
          groups.filterMap Group.question? =
            draft.question.toList :=
        hGathers.question
      cases hCase : draft.question with
      | none =>
          rw [hCase] at hAsked hQuestion
          exact .inl ⟨hAsked, hQuestion.symm⟩
      | some asked =>
          rw [hCase] at hAsked hQuestion
          subst hQuestion
          exact .inr hAsked
    · simpa [Draft.empty, hEdits] using hGathers.edits

/- Arguments are understood as what their groups say. -/
theorem parse_of_areWritten
    (h : Group.AreWritten groups arguments) :
    parse arguments = .ok result ↔ result.IsToldBy groups := by
  rw [isToldBy_iff, parse, Draft.addAll_of_areWritten h]
  simp only [← Draft.foldlM_add_eq_ok_iff]
  cases groups.foldlM Draft.add Draft.empty with
  | error e => simp [bind, Except.bind]
  | ok draft => simp [bind, Except.bind]

/- Arguments that are understood are written groups. -/
theorem exists_areWritten_of_parse
    (h : parse arguments = .ok result) :
    ∃ groups, Group.AreWritten groups arguments := by
  rw [parse] at h
  cases hDraft : Draft.empty.addAll arguments with
  | error e =>
      rw [hDraft] at h
      cases h
  | ok draft => exact Draft.exists_areWritten_of_addAll hDraft

/- One file and at most one question say something. -/
theorem exists_isToldBy_iff :
    (∃ result : Arguments, result.IsToldBy groups) ↔
      (groups.filterMap Group.file?).length = 1 ∧
        (groups.filterMap Group.question?).length ≤ 1 := by
  constructor
  · rintro ⟨result, hFile, _, hQuestion, _⟩
    rcases hQuestion with ⟨hNone, _⟩ | hOne
    · simp [hFile, hNone]
    · simp [hFile, hOne]
  · rintro ⟨hFile, hQuestion⟩
    rcases List.length_eq_one_iff.1 hFile with ⟨file, hFile⟩
    cases hAsked : groups.filterMap Group.question? with
    | nil =>
        exact ⟨⟨file, _, .pairs, _⟩,
          ⟨hFile, rfl, .inl ⟨hAsked, rfl⟩, rfl⟩⟩
    | cons asked rest =>
        have hRest : rest = [] := by
          rw [hAsked, List.length_cons] at hQuestion
          exact List.length_eq_zero_iff.1 (by omega)
        rw [hRest] at hAsked
        exact ⟨⟨file, _, asked, _⟩,
          ⟨hFile, rfl, .inr hAsked, rfl⟩⟩

/- Only the order of settings and of edits is told. -/
theorem IsToldBy.of_perm
    (hPerm : groups.Perm others)
    (hSettings :
      groups.filterMap Group.settings? =
        others.filterMap Group.settings?)
    (hEdits :
      groups.filterMap Group.edit? =
        others.filterMap Group.edit?)
    (h : result.IsToldBy groups) :
    result.IsToldBy others := by
  have hFiles := hPerm.filterMap Group.file?
  have hQuestions := hPerm.filterMap Group.question?
  refine ⟨?_, hSettings ▸ h.settings, ?_, hEdits ▸ h.edits⟩
  · rw [h.file] at hFiles
    exact List.perm_singleton.1 hFiles.symm
  · rcases h.question with ⟨hNone, hPairs⟩ | hOne
    · rw [hNone] at hQuestions
      exact .inl ⟨hQuestions.nil_eq.symm, hPairs⟩
    · rw [hOne] at hQuestions
      exact .inr (List.perm_singleton.1 hQuestions.symm)

/-
  A list of arguments is understood just if it is a row of
  written groups in which one file is named and at most one
  question is made.  What it says is the file, the last of
  the settings, the question or else the one for pairs, and
  the edits in their order.  The groups are the only ones
  that are written like this, and other arguments with the
  same groups in another order say the same, as long as
  settings and edits keep their order.
-/
theorem parse_iff_isToldBy
    (arguments : List (List Char)) :
    (∀ result,
        parse arguments = .ok result ↔
          ∃ groups,
            Group.AreWritten groups arguments ∧
              result.IsToldBy groups) ∧
      ((∃ result, parse arguments = .ok result) ↔
        ∃ groups,
          Group.AreWritten groups arguments ∧
            (groups.filterMap Group.file?).length = 1 ∧
            (groups.filterMap Group.question?).length ≤ 1) ∧
      (∀ groups others,
        Group.AreWritten groups arguments →
          Group.AreWritten others arguments →
            groups = others) ∧
      ∀ groups others reordered,
        Group.AreWritten groups arguments →
          Group.AreWritten others reordered →
            groups.Perm others →
              groups.filterMap Group.settings? =
                  others.filterMap Group.settings? →
                groups.filterMap Group.edit? =
                    others.filterMap Group.edit? →
                  ∀ result,
                    parse arguments = .ok result ↔
                      parse reordered = .ok result := by
  have hParse (result : Arguments) :
      parse arguments = .ok result ↔
        ∃ groups,
          Group.AreWritten groups arguments ∧
            result.IsToldBy groups := by
    constructor
    · intro h
      rcases exists_areWritten_of_parse h with ⟨groups, hGroups⟩
      exact ⟨groups, hGroups,
        (parse_of_areWritten hGroups).1 h⟩
    · rintro ⟨groups, hGroups, h⟩
      exact (parse_of_areWritten hGroups).2 h
  refine ⟨hParse, ?_, fun _ _ h hOthers => h.unique hOthers,
    ?_⟩
  · simp only [hParse, ← exists_isToldBy_iff]
    rw [exists_comm]
    simp only [exists_and_left]
  · intro groups others reordered hGroups hOthers hPerm
      hSettings hEdits result
    rw [parse_of_areWritten hGroups,
      parse_of_areWritten hOthers]
    exact ⟨IsToldBy.of_perm hPerm hSettings hEdits,
      IsToldBy.of_perm hPerm.symm hSettings.symm hEdits.symm⟩

/-
  Two command lines with the same groups, in which an option
  is the value of another and blanks and a plus sign stand
  around numbers.
-/
theorem parse_iff_isToldBy_mixed :
    let first : Replacement := ⟨⟨0, 0⟩, ⟨0, 1⟩, ['[', '\n']⟩
    let second : Replacement := ⟨⟨2, 0⟩, ⟨2, 0⟩, ['a', '=']⟩
    let groups : List Group :=
      [.settings ['a'], .edit first, .file ['m'],
        .settings "--pairs".toList, .edit second,
        .question (.partner ⟨2, 4⟩)]
    let others : List Group :=
      [.question (.partner ⟨2, 4⟩), .edit first, .edit second,
        .settings ['a'], .settings "--pairs".toList,
        .file ['m']]
    let firstValue := "0:0-0:1=[\\n".toList
    let secondValue := "2:0-02:0=a=".toList
    let place := " 2:+4 ".toList
    let arguments : List (List Char) :=
      ["--config".toList, ['a'], "--edit".toList, firstValue,
        ['m'], "--config".toList, "--pairs".toList,
        "--edit".toList, secondValue, "--match".toList, place]
    let reordered : List (List Char) :=
      ["--match".toList, place, "--edit".toList, firstValue,
        "--edit".toList, secondValue, "--config".toList, ['a'],
        "--config".toList, "--pairs".toList, ['m']]
    let result : Arguments :=
      ⟨['m'], some "--pairs".toList, .partner ⟨2, 4⟩,
        [first, second]⟩
    (Group.AreWritten groups arguments ∧
        Group.AreWritten others reordered ∧
        groups.Perm others) ∧
      parse arguments = .ok result ∧
      parse reordered = .ok result := by
  intro first second groups others firstValue secondValue
    place arguments reordered result
  have hFile :
      Group.IsWritten (.file ['m']) [['m']] :=
    .file (by decide)
  have hSettings (path : List Char) :
      Group.IsWritten (.settings path)
        ["--config".toList, path] :=
    .settings path
  have hFirst :
      Group.IsWritten (.edit first)
        ["--edit".toList, firstValue] :=
    .edit (by decide)
  have hSecond :
      Group.IsWritten (.edit second)
        ["--edit".toList, secondValue] :=
    .edit (by decide)
  have hPlace :
      Group.IsWritten (.question (.partner ⟨2, 4⟩))
        ["--match".toList, place] :=
    .partner (by decide)
  have hGroups : Group.AreWritten groups arguments :=
    .cons (hSettings _) (.cons hFirst (.cons hFile
      (.cons (hSettings _) (.cons hSecond
        (.cons hPlace .nil)))))
  have hOthers : Group.AreWritten others reordered :=
    .cons hPlace (.cons hFirst (.cons hSecond
      (.cons (hSettings _) (.cons (hSettings _)
        (.cons hFile .nil)))))
  have hPerm : groups.Perm others := by decide
  rcases parse_iff_isToldBy arguments with
    ⟨hParse, _, _, hReordered⟩
  have hResult : parse arguments = .ok result :=
    (hParse result).2 ⟨groups, hGroups,
      ⟨rfl, rfl, .inr rfl, rfl⟩⟩
  exact ⟨⟨hGroups, hOthers, hPerm⟩, hResult,
    (hReordered groups others reordered hGroups hOthers hPerm
      rfl rfl result).1 hResult⟩

end Arguments

end Bracketry
