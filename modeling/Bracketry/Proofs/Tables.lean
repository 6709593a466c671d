import Bracketry.Proofs.Parsing

/-
  The tokens of a table.

  Every entry of a table stems from a kind of the language.
  So its token is regular: what an opening bracket is
  grouped under is its own id, and what a closing bracket is
  grouped under is one of those that it can close.

  Key definitions include:
    * `TokenTable.Makes`

  Main declarations:
    * `TokenTable.exists_of_mem_entries`
    * `TokenTable.isRegular_of_makes`
-/

------------------------------------------------------------
-- Entries
------------------------------------------------------------

namespace Bracketry

theorem TokenEntry.mem_enter
    {entry other : TokenEntry}
    {entries : List TokenEntry}
    (h : other ∈ entry.enter entries) :
    other = entry ∨ other ∈ entries := by
  induction entries with
  | nil => exact .inl (List.mem_singleton.1 h)
  | cons first rest ih =>
      unfold enter at h
      split_ifs at h
      · rw [List.mem_cons] at h
        rcases h with hEntry | hRest
        · exact .inl hEntry
        · exact .inr (List.mem_cons_of_mem _ hRest)
      · exact List.mem_cons.1 h
      · rw [List.mem_cons] at h
        rcases h with rfl | hRest
        · exact .inr List.mem_cons_self
        · rcases ih hRest with hEntry | hOther
          · exact .inl hEntry
          · exact .inr (List.mem_cons_of_mem _ hOther)

namespace TokenTable

/- The token is text or one of the brackets of the table. -/
def Makes
    (table : TokenTable)
    (token : Token) :
    Prop :=
  token.isBracket = true →
    ∃ entry ∈ table.entries, entry.token = token

instance
    (table : TokenTable)
    (token : Token) :
    Decidable (table.Makes token) :=
  inferInstanceAs (Decidable (_ → _))

/- Every entry stems from a kind of the language. -/
theorem exists_of_mem_entries
    {brackets : Brackets}
    {entry : TokenEntry}
    (h : entry ∈ (ofBrackets brackets).entries) :
    (∃ kind ∈ brackets.openings,
      entry = openingEntry (idsOf brackets) kind) ∨
      ∃ kind ∈ brackets.closings,
        entry = closingEntry (idsOf brackets) kind := by
  have hFold :
      ∀ (made entries : List TokenEntry),
        entry ∈
            made.foldl (fun entries e => e.enter entries)
              entries →
          entry ∈ made ∨ entry ∈ entries := by
    intro made
    induction made with
    | nil => exact fun _ hEntry => .inr hEntry
    | cons first rest ih =>
        intro entries hEntry
        rcases ih _ hEntry with hRest | hEntered
        · exact .inl (List.mem_cons_of_mem _ hRest)
        · rcases TokenEntry.mem_enter hEntered with
            rfl | hOther
          · exact .inl List.mem_cons_self
          · exact .inr hOther
  rcases hFold _ _ h with hMade | hNone
  · rw [List.mem_append, List.mem_map, List.mem_map] at hMade
    rcases hMade with ⟨kind, hKind, rfl⟩ | ⟨kind, hKind, rfl⟩
    · exact .inl ⟨kind, hKind, rfl⟩
    · exact .inr ⟨kind, hKind, rfl⟩
  · cases hNone

/- What a table makes is regular. -/
theorem isRegular_of_makes
    {brackets : Brackets}
    {token : Token}
    (h : (ofBrackets brackets).Makes token) :
    token.IsRegular := by
  cases token with
  | text length => trivial
  | bracket leaf id =>
      rcases h rfl with ⟨entry, hEntry, hToken⟩
      rw [← hToken]
      rcases exists_of_mem_entries hEntry with
        ⟨kind, _, rfl⟩ | ⟨kind, _, rfl⟩
      · exact ⟨_, rfl, rfl⟩
      · intro key hKey
        rcases Option.map_eq_some_iff.1 hKey with
          ⟨literal, hLiteral, rfl⟩
        refine IdSet.mem_toList_ofList.2 ?_
        exact List.mem_map_of_mem
          (List.mem_of_head? hLiteral)

end TokenTable

end Bracketry
