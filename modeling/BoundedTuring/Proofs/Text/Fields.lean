import BoundedTuring.Proofs.Text.Lines
import BoundedTuring.Text.Numeral
/-!
# Fields and numerals

`HasFields` says how fields make up a line: one or more of them, none empty, none with a space or a tab in it, with
one space between any two.  `IsNumeral` says which texts are numerals and of which numbers.  The readers find the
fields and the number where there are any, and nothing elsewhere.
-/
namespace BoundedTuring
namespace Text

/-! ## Fields -/

def IsField (field : String) : Prop := field ≠ "" ∧ ' ' ∉ field.toList ∧ '\t' ∉ field.toList

instance (field : String) : Decidable (IsField field) :=
  inferInstanceAs (Decidable (field ≠ "" ∧ ' ' ∉ field.toList ∧ '\t' ∉ field.toList))

/-- Characters of a kind that no separator is of make up a field. -/
theorem isField_of_forall {field : String} (p : Char → Bool) (hne : field ≠ "") (h : ∀ c ∈ field.toList, p c = true)
    (hseparators : p ' ' = false ∧ p '\t' = false ∧ p '\n' = false ∧ p '\r' = false) :
    IsField field ∧ WithinLine field.toList := by
  have hnot : ∀ c, p c = false → c ∉ field.toList := fun c hc hmem => by
    rw [h c hmem] at hc
    cases hc
  obtain ⟨hspace, htab, hfeed, hreturn⟩ := hseparators
  refine ⟨⟨hne, hnot ' ' hspace, hnot '\t' htab⟩, fun c hc => ⟨?_, ?_⟩⟩
  · rintro rfl
    exact hnot '\n' hfeed hc
  · rintro rfl
    exact hnot '\r' hreturn hc

structure HasFields (line : List Char) (fields : List String) : Prop where
  nonempty : fields ≠ []
  each : ∀ field ∈ fields, IsField field
  joined : line = [' '].intercalate (fields.map String.toList)

theorem mem_intercalate_iff (c separator : Char) (pieces : List (List Char)) (hne : c ≠ separator) :
    c ∈ [separator].intercalate pieces ↔ ∃ piece ∈ pieces, c ∈ piece := by
  induction pieces with
  | nil => simp
  | cons piece rest ih =>
    cases rest with
    | nil => simp
    | cons next rest =>
      rw [List.intercalate_cons_cons, List.mem_append, List.mem_append, ih]
      simp [hne]

theorem HasFields.splitOn {line : List Char} {fields : List String} (h : HasFields line fields) :
    line.splitOn ' ' = fields.map String.toList := by
  rw [h.joined]
  refine List.splitOn_intercalate ' ' ?_ (by simpa using h.nonempty)
  intro piece hpiece
  obtain ⟨field, hfield, rfl⟩ := List.mem_map.1 hpiece
  exact (h.each field hfield).2.1

theorem not_mem_of_mem_splitOn (separator : Char) : ∀ (line piece : List Char), piece ∈ line.splitOn separator →
    separator ∉ piece
  | [], piece, h => by simp_all
  | c :: line, piece, h => by
    have ih := not_mem_of_mem_splitOn separator line
    rw [List.splitOn_cons_eq_if_modifyHead] at h
    by_cases hc : c = separator
    · rw [if_pos (by simpa using hc), List.mem_cons] at h
      rcases h with rfl | h
      · exact List.not_mem_nil
      · exact ih piece h
    · rw [if_neg (by simpa using hc)] at h
      cases hsplit : line.splitOn separator with
      | nil => simp [hsplit] at h
      | cons first rest =>
        rw [hsplit, List.modifyHead_cons, List.mem_cons] at h
        rw [hsplit] at ih
        rcases h with rfl | h
        · have hfirst := ih first List.mem_cons_self
          simp [hfirst, Ne.symm hc]
        · exact ih piece (List.mem_cons_of_mem _ h)

theorem hasFields_of_fields? {line : List Char} {fields : List String} (h : fields? line = some fields) :
    HasFields line fields := by
  unfold fields? at h
  dsimp only at h
  split at h
  · cases h
  rename_i htab
  split at h
  · cases h
  rename_i hempty
  obtain rfl := Option.some.inj h
  have hback : ((line.splitOn ' ').map String.ofList).map String.toList = line.splitOn ' ' := by
    simp [List.map_map, Function.comp_def]
  refine ⟨by simp, fun field hfield => ?_, by rw [hback, List.intercalate_splitOn]⟩
  obtain ⟨piece, hpiece, rfl⟩ := List.mem_map.1 hfield
  rw [IsField, String.toList_ofList]
  refine ⟨fun hnil => hempty ?_, not_mem_of_mem_splitOn ' ' line piece hpiece, fun hmem => htab ?_⟩
  · have hpiece' : piece = [] := by simpa using congrArg String.toList hnil
    exact List.any_eq_true.2 ⟨piece, hpiece, by rw [hpiece']; rfl⟩
  · have hline := (mem_intercalate_iff '\t' ' ' (line.splitOn ' ') (by decide)).2 ⟨piece, hpiece, hmem⟩
    rw [List.intercalate_splitOn] at hline
    simpa using hline

/-- **A line has at most one list of fields, the one that is read.** -/
theorem fields?_eq_some_iff (line : List Char) (fields : List String) :
    fields? line = some fields ↔ HasFields line fields := by
  refine ⟨hasFields_of_fields?, fun h => ?_⟩
  have htab : ¬ line.contains '\t' = true := by
    rw [List.contains_iff_mem, h.joined, mem_intercalate_iff '\t' ' ' _ (by decide)]
    rintro ⟨piece, hpiece, hmem⟩
    obtain ⟨field, hfield, rfl⟩ := List.mem_map.1 hpiece
    exact (h.each field hfield).2.2 hmem
  have hempty : ¬ (fields.map String.toList).any (·.isEmpty) = true := by
    rw [List.any_eq_true]
    rintro ⟨piece, hpiece, hnil⟩
    obtain ⟨field, hfield, rfl⟩ := List.mem_map.1 hpiece
    exact (h.each field hfield).1 (by simpa using hnil)
  unfold fields?
  dsimp only
  rw [if_neg htab, h.splitOn, if_neg hempty, List.map_map]
  simp [Function.comp_def]

theorem HasFields.withinLine {line : List Char} {fields : List String} (h : HasFields line fields)
    (heach : ∀ field ∈ fields, WithinLine field.toList) : WithinLine line := by
  intro c hc
  rw [h.joined] at hc
  by_cases hspace : c = ' '
  · subst hspace
    decide
  · obtain ⟨piece, hpiece, hmem⟩ := (mem_intercalate_iff c ' ' _ hspace).1 hc
    obtain ⟨field, hfield, rfl⟩ := List.mem_map.1 hpiece
    exact heach field hfield c hmem

/-- **Fields with a space between any two make up a line**, if no line ends within them. -/
theorem hasFields_intercalate {fields : List String} (hne : fields ≠ [])
    (heach : ∀ field ∈ fields, IsField field ∧ WithinLine field.toList) :
    HasFields (" ".intercalate fields).toList fields ∧ WithinLine (" ".intercalate fields).toList := by
  have hfields : HasFields (" ".intercalate fields).toList fields :=
    ⟨hne, fun field hfield => (heach field hfield).1, String.toList_intercalate⟩
  exact ⟨hfields, hfields.withinLine fun field hfield => (heach field hfield).2⟩

/-- **Fields one after the other, without a space, make up a field.** -/
theorem isField_join {fields : List String} (hne : fields ≠ [])
    (heach : ∀ field ∈ fields, IsField field ∧ WithinLine field.toList) :
    IsField (String.join fields) ∧ WithinLine (String.join fields).toList := by
  have hmem : ∀ c ∈ (String.join fields).toList, ∃ field ∈ fields, c ∈ field.toList := fun c hc => by
    rw [String.toList_join] at hc
    exact List.mem_flatMap.1 hc
  have hnot : ∀ c, (∀ field ∈ fields, c ∉ field.toList) → c ∉ (String.join fields).toList := fun c hc h => by
    obtain ⟨field, hfield, hfound⟩ := hmem c h
    exact hc field hfield hfound
  refine ⟨⟨fun hempty => ?_, hnot _ fun field hfield => (heach field hfield).1.2.1,
    hnot _ fun field hfield => (heach field hfield).1.2.2⟩, fun c hc => ?_⟩
  · obtain ⟨field, rest, rfl⟩ := List.exists_cons_of_ne_nil hne
    have hnil := congrArg String.toList hempty
    rw [String.toList_join, List.flatMap_cons] at hnil
    exact (heach field List.mem_cons_self).1.1 (String.toList_inj.1 (List.append_eq_nil_iff.1 hnil).1)
  · obtain ⟨field, hfield, hfound⟩ := hmem c hc
    exact (heach field hfield).2 c hfound

/-! ## Numerals -/

/-- A numeral: decimal digits, perhaps behind a plus sign, of a number that fits. -/
structure IsNumeral (text : String) (n : Nat) : Prop where
  digits : ∃ digits, (text.toList = digits ∨ text.toList = '+' :: digits) ∧ digits ≠ [] ∧
    (∀ c ∈ digits, c.isDigit = true) ∧ Nat.ofDigitChars 10 digits 0 = n
  fits : n < numeralBound

theorem le_ofDigitChars : ∀ (digits : List Char) (start : Nat), start ≤ Nat.ofDigitChars 10 digits start
  | [], start => by simp
  | c :: digits, start => by
    have ih := le_ofDigitChars digits (10 * start + (c.toNat - '0'.toNat))
    rw [Nat.ofDigitChars_cons]
    omega

/-- Reading may stop at the first value that does not fit, as values only grow. -/
theorem digitsValue?_eq_some_iff : ∀ (digits : List Char) (start n : Nat), start < numeralBound →
    (digitsValue? start digits = some n ↔
      (∀ c ∈ digits, c.isDigit = true) ∧ Nat.ofDigitChars 10 digits start = n ∧ n < numeralBound)
  | [], start, n, h => by
    simp only [digitsValue?, Option.some.injEq, Nat.ofDigitChars_nil]
    constructor
    · rintro rfl
      exact ⟨nofun, rfl, h⟩
    · rintro ⟨-, rfl, -⟩
      rfl
  | c :: digits, start, n, h => by
    have hvalue : start * 10 + (c.toNat - '0'.toNat) = 10 * start + (c.toNat - '0'.toNat) := by omega
    unfold digitsValue? digit?
    rw [Nat.ofDigitChars_cons, List.forall_mem_cons]
    by_cases hc : c.isDigit = true
    · rw [if_pos hc]
      dsimp only
      rw [hvalue]
      by_cases hfits : 10 * start + (c.toNat - '0'.toNat) < numeralBound
      · rw [if_pos hfits, digitsValue?_eq_some_iff digits _ n hfits]
        simp [hc]
      · have hle := le_ofDigitChars digits (10 * start + (c.toNat - '0'.toNat))
        rw [if_neg hfits]
        refine iff_of_false nofun ?_
        rintro ⟨-, rfl, hlt⟩
        omega
    · rw [if_neg hc]
      exact iff_of_false nofun fun hall => hc hall.1.1

/-- **A text is a numeral of at most one number, the one that is read.** -/
theorem numeral?_eq_some_iff (text : String) (n : Nat) : numeral? text.toList = some n ↔ IsNumeral text n := by
  have hzero : 0 < numeralBound := by decide
  have hdigits : ∀ (c : Char) (rest : List Char), digitsValue? 0 (c :: rest) = some n ↔
      (∀ d ∈ c :: rest, d.isDigit = true) ∧ Nat.ofDigitChars 10 (c :: rest) 0 = n ∧ n < numeralBound :=
    fun c rest => digitsValue?_eq_some_iff (c :: rest) 0 n hzero
  constructor
  · intro h
    unfold numeral? at h
    split at h
    · cases h
    · rename_i c rest heq
      obtain ⟨hall, hvalue, hfits⟩ := (hdigits c rest).1 h
      exact ⟨⟨c :: rest, .inr heq, by simp, hall, hvalue⟩, hfits⟩
    · rename_i c rest _ heq
      obtain ⟨hall, hvalue, hfits⟩ := (hdigits c rest).1 h
      exact ⟨⟨c :: rest, .inl heq, by simp, hall, hvalue⟩, hfits⟩
  · rintro ⟨⟨digits, htext, hne, hall, hvalue⟩, hfits⟩
    obtain ⟨c, rest, rfl⟩ := List.exists_cons_of_ne_nil hne
    have hread := (hdigits c rest).2 ⟨hall, hvalue, hfits⟩
    rcases htext with htext | htext
    · have hplus : c ≠ '+' := fun hc => by
        have hdigit := hall c List.mem_cons_self
        rw [hc] at hdigit
        exact absurd hdigit (by decide)
      rw [htext, ← hread]
      unfold numeral?
      split
      · cases ‹_›
      · rename_i heq
        exact absurd (List.cons.inj heq).1 hplus
      · rename_i heq
        rw [heq]
    · rw [htext]
      exact hread

theorem toList_toString (n : Nat) : (toString n).toList = Nat.toDigits 10 n := Nat.toList_repr

theorem isDigit_of_mem_toString {n : Nat} {c : Char} (hc : c ∈ (toString n).toList) : c.isDigit = true := by
  rw [toList_toString] at hc
  exact Nat.isDigit_of_mem_toDigits (by decide) (by decide) hc

/-- **The decimal digits of a number that fits are a numeral of it.** -/
theorem isNumeral_toString (n : Nat) (h : n < numeralBound) : IsNumeral (toString n) n := by
  refine ⟨⟨Nat.toDigits 10 n, .inl (toList_toString n), Nat.toDigits_ne_nil, fun c hc => ?_, ?_⟩, h⟩
  · rw [← toList_toString] at hc
    exact isDigit_of_mem_toString hc
  · exact Nat.ofDigitChars_ten_toDigits

theorem isField_toString (n : Nat) : IsField (toString n) ∧ WithinLine (toString n).toList := by
  refine isField_of_forall Char.isDigit (fun hempty => ?_) (fun c => isDigit_of_mem_toString) (by decide)
  have htext := toList_toString n
  rw [hempty] at htext
  exact Nat.toDigits_ne_nil htext.symm

end Text
end BoundedTuring
