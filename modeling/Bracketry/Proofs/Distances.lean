import Bracketry.Proofs.RoundTrips
import Mathlib.Data.List.DropRight

/-
  Sums of lengths and distances in a text.

  A length counts the line feeds of a text and the bytes
  behind the last of them, so the length of a text is the
  sum of those of its parts, and the distance between two
  positions of a text is the length of what stands between
  them.  Sums are taken within 32 bits, and lengths compare
  as the numbers that they are packed into.

  Key definitions include:
    * `Length.packed`

  Main declarations:
    * `Length.plus_assoc`
    * `Length.ofText_eq`
    * `Length.between_ofText`
    * `Length.sums_and_distances`
-/

------------------------------------------------------------
-- Packed Lengths
------------------------------------------------------------

namespace Bracketry

namespace Length

variable {a b c : Length}

/- A length as one number, with the lines in front. -/
def packed
    (a : Length) :
    Nat :=
  a.lines * countLimit + a.columns

theorem packed_le_packed_iff
    (hFirst : a.Fits)
    (hSecond : b.Fits) :
    a.packed ≤ b.packed ↔ a ≤ b := by
  simp only [Fits, countLimit] at hFirst hSecond
  simp only [packed, countLimit, le_def]
  omega

end Length

end Bracketry

------------------------------------------------------------
-- Sums within 32 Bits
------------------------------------------------------------

namespace Bracketry

namespace Length

variable {a b c : Length}

theorem plus_eq_error
    (h : ¬(a + b).Fits) :
    a.plus b = .error .overflow := by
  simp [plus, h]

/- Where the first sum fits, both groupings end alike. -/
theorem plus_assoc
    (h : (a + b).Fits) :
    (do
      let sum ← a.plus b
      sum.plus c) =
      (do
        let sum ← b.plus c
        a.plus sum) := by
  rw [plus_eq_ok h]
  by_cases hLater : (b + c).Fits
  · rw [plus_eq_ok hLater]
    simp only [bind, Except.bind, plus, add_assoc]
  · have hWhole : ¬(a + b + c).Fits := by
      rw [add_assoc]
      exact fun hFits => hLater (fits_of_add hFits)
    rw [plus_eq_error hLater]
    simp only [bind, Except.bind, plus_eq_error hWhole]

/-
  Adding on the right keeps the order.  A line break in what
  is added makes equals of lengths with as many lines.
-/
theorem add_le_add_right_of_le
    (h : b ≤ c) :
    b + a ≤ c + a := by
  rw [le_def] at h
  simp only [le_def, add_lines, add_columns]
  split_ifs <;> omega

theorem add_eq_iff_eq_upTo
    {distance : Length}
    (h : a ≤ b) :
    a + distance = b ↔ distance = a.upTo b := by
  constructor
  · rintro rfl
    exact (upTo_add a distance).symm
  · rintro rfl
    exact add_upTo h

/- A distance to a place that fits does so too. -/
theorem fits_upTo
    (h : b.Fits) :
    (a.upTo b).Fits := by
  by_cases hLe : a ≤ b
  · exact fits_of_add (a := a) (by rwa [add_upTo hLe])
  · rw [upTo_eq_zero.2 (not_le.1 hLe).le]
    exact fits_zero

end Length

end Bracketry

------------------------------------------------------------
-- Distances in a Text
------------------------------------------------------------

namespace Bracketry

namespace Length

/- Only what is behind the last line feed has columns. -/
theorem ofText_eq
    (text : List Char) :
    ofText text =
      ⟨text.count '\n',
        Text.byteSize (text.rtakeWhile (· ≠ '\n'))⟩ := by
  induction text using List.reverseRecOn with
  | nil => rfl
  | append_singleton text c ih =>
      have hLast : ofText [c] = ofChar c := by
        rw [ofText_cons, ofText_nil, add_zero]
      rw [ofText_append, ih, hLast, ofChar, add_def,
        List.rtakeWhile_concat, List.count_append]
      by_cases hBreak : c = '\n'
      · simp [hBreak]
      · simp [hBreak, Text.byteSize_append, Text.byteSize]

/- A sum of parts is checked where the whole fits. -/
theorem plus_ofText
    {first second : List Char}
    (h : (ofText (first ++ second)).Fits) :
    (ofText first).plus (ofText second) =
      .ok (ofText (first ++ second)) := by
  rw [ofText_append] at h ⊢
  exact plus_eq_ok h

/- From one place of a text to a later one. -/
theorem between_ofText
    (before middle : List Char) :
    between (ofText before) (ofText (before ++ middle)) =
      ofText middle := by
  rw [ofText_append, between_eq_upTo (le_add_right _ _),
    upTo_add]

end Length

namespace Document

variable {document : Document}

/- The positions of a document are as far apart. -/
theorem between_positionOf
    {before middle behind : List Char}
    (hCounted : document.IsCounted)
    (hText : document.text = before ++ middle ++ behind)
    (hStart :
      ¬Text.IsInBreak document.text (Text.byteSize before))
    (hStop :
      ¬Text.IsInBreak document.text
        (Text.byteSize (before ++ middle))) :
    ∃ start stop,
      document.positionOf (Text.byteSize before) =
          .ok start ∧
        document.positionOf
            (Text.byteSize (before ++ middle)) =
          .ok stop ∧
        Length.between start stop = Length.ofText middle := by
  have hFirst :
      document.text = before ++ (middle ++ behind) := by
    rw [hText, List.append_assoc]
  exact ⟨_, _, (offsetOf_of_cut hCounted hFirst hStart).1,
    (offsetOf_of_cut hCounted hText hStop).1,
    Length.between_ofText before middle⟩

end Document

end Bracketry

------------------------------------------------------------
-- The Algebra of Lengths
------------------------------------------------------------

namespace Bracketry

namespace Length

/-
  Sums and distances.  Addition is associative, has zero as
  its neutral element and keeps the order on both sides; the
  order is that of packed numbers.  A sum that fits is what
  adding within 32 bits gives, in either grouping.  To every
  place that is not before another there is one distance
  from it, and to others the distance counts as zero.  Where
  lengths fit, the length of a text is the sum of those of
  its parts, and the distance between two positions of a
  text, or of a document outside its line breaks, is the
  length of what stands between them.
-/
theorem sums_and_distances
    (a b c : Length) :
    a + b + c = a + (b + c) ∧
      (0 + a = a ∧ a + 0 = a) ∧
      (b ≤ c → a + b ≤ a + c ∧ b + a ≤ c + a) ∧
      (a.Fits → b.Fits → (a.packed ≤ b.packed ↔ a ≤ b)) ∧
      (∀ sum,
        a.plus b = .ok sum ↔ (a + b).Fits ∧ sum = a + b) ∧
      ((a + b).Fits →
        (do
          let sum ← a.plus b
          sum.plus c) =
          (do
            let sum ← b.plus c
            a.plus sum)) ∧
      (a ≤ b →
        ∀ distance,
          a + distance = b ↔ distance = a.upTo b) ∧
      (¬a ≤ b → a.upTo b = 0) ∧
      (b.Fits → (a.upTo b).Fits) ∧
      (∀ text,
        (ofText text).Fits →
          ofText text =
            ⟨text.count '\n',
              Text.byteSize (text.rtakeWhile (· ≠ '\n'))⟩) ∧
      (∀ first second,
        (ofText first).Fits →
          (ofText (first ++ second)).Fits →
            ofText (first ++ second) =
                ofText first + ofText second ∧
              (ofText first).plus (ofText second) =
                .ok (ofText (first ++ second))) ∧
      (∀ before middle,
        (ofText before).Fits →
          (ofText (before ++ middle)).Fits →
            between (ofText before)
                (ofText (before ++ middle)) =
              ofText middle) ∧
      ∀ (document : Document) before middle behind,
        document.IsCounted →
          document.text = before ++ middle ++ behind →
            ¬Text.IsInBreak document.text
                (Text.byteSize before) →
              ¬Text.IsInBreak document.text
                  (Text.byteSize (before ++ middle)) →
                ∃ start stop,
                  document.positionOf
                        (Text.byteSize before) =
                      .ok start ∧
                    document.positionOf
                        (Text.byteSize (before ++ middle)) =
                      .ok stop ∧
                    between start stop = ofText middle :=
  ⟨add_assoc a b c, ⟨zero_add a, add_zero a⟩,
    fun h => ⟨add_le_add_left_iff.2 h, add_le_add_right_of_le h⟩,
    packed_le_packed_iff, fun _ => plus_eq_ok_iff, plus_assoc,
    fun h _ => add_eq_iff_eq_upTo h,
    fun h => upTo_eq_zero.2 (not_le.1 h).le, fits_upTo,
    fun text _ => ofText_eq text,
    fun first second _ hWhole =>
      ⟨ofText_append first second, plus_ofText hWhole⟩,
    fun before middle _ _ => between_ofText before middle,
    fun _ _ _ _ hCounted hText hStart hStop =>
      Document.between_positionOf hCounted hText hStart hStop⟩

/- Lengths with line breaks, and the break of a text. -/
theorem sums_and_distances_lines :
    let a : Length := ⟨1, 4⟩
    let b : Length := ⟨2, 0⟩
    let c : Length := ⟨2, 7⟩
    let document := Document.ofText ['a', '\r', '\n', 'b']
    (b ≤ c ∧ a.Fits ∧ b.Fits ∧ (a + b).Fits ∧ a ≤ b ∧
        ¬c ≤ b ∧ (ofText ['a']).Fits ∧
        (ofText (['a'] ++ ['\r', '\n'])).Fits ∧
        document.IsCounted ∧
        document.text = ['a'] ++ ['\r', '\n'] ++ ['b']) ∧
      (a + b ≤ a + c ∧ b + a ≤ c + a) ∧
      a.packed ≤ b.packed ∧
      a.plus b = .ok ⟨3, 0⟩ ∧
      (∀ distance, a + distance = b ↔ distance = ⟨1, 0⟩) ∧
      c.upTo b = 0 ∧
      (ofText ['a']).plus (ofText ['\r', '\n']) =
        .ok ⟨1, 0⟩ ∧
      between (ofText ['a']) ⟨1, 0⟩ = ⟨1, 0⟩ ∧
      ∃ start stop,
        document.positionOf 1 = .ok start ∧
          document.positionOf 3 = .ok stop ∧
          between start stop = ⟨1, 0⟩ := by
  intro a b c document
  have hAll :
      b ≤ c ∧ a.Fits ∧ b.Fits ∧ (a + b).Fits ∧ a ≤ b ∧
        ¬c ≤ b ∧ (ofText ['a']).Fits ∧
          (ofText (['a'] ++ ['\r', '\n'])).Fits ∧
          document.IsCounted ∧
          document.text = ['a'] ++ ['\r', '\n'] ++ ['b'] := by
    decide
  have hGiven := hAll
  rcases hGiven with
    ⟨hOrder, hA, hB, hSum, hLe, hNot, hFirst, hWhole,
      hCounted, hText⟩
  have hStart :
      ¬Text.IsInBreak document.text (Text.byteSize ['a']) :=
    mt (@Text.isInBreak_iff ['a'] ['\r', '\n', 'b']).1
      (by decide)
  have hStop :
      ¬Text.IsInBreak document.text
        (Text.byteSize (['a'] ++ ['\r', '\n'])) :=
    mt (@Text.isInBreak_iff ['a', '\r', '\n'] ['b']).1
      (by decide)
  rcases sums_and_distances a b c with
    ⟨_, _, hBoth, hPacked, hPlus, _, hDistance, _, _, _,
      hParts, hBetween, hDocument⟩
  rcases sums_and_distances c b a with
    ⟨_, _, _, _, _, _, _, hZero, _⟩
  exact ⟨hAll, hBoth hOrder, (hPacked hA hB).2 hLe,
    (hPlus _).2 ⟨hSum, rfl⟩, hDistance hLe, hZero hNot,
    (hParts _ _ hFirst hWhole).2, hBetween _ _ hFirst hWhole,
    hDocument document _ _ _ hCounted hText hStart hStop⟩

end Length

end Bracketry
