import BoundedTuring.Description.Printer
import BoundedTuring.Proofs.Description.Reading
/-!
# The fields of settings lines

A settings line has fields or is empty (`readFields_ok_iff`).  Flags and `default` are words in any case, and no numeral
is such a word; numerals and words have none of the separators, so that they stand as fields.
-/
namespace BoundedTuring
namespace Settings

open Text (HasFields IsField IsNumeral WithinLine)

/-- The fields of a settings line.  An empty line has none. -/
def LineFields (line : List Char) (fields : List String) : Prop := HasFields line fields ∨ line = [] ∧ fields = []

def IsFlag (text : String) (flag : Bool) : Prop := flag? text = some flag

/-! ## Fields -/

section Fields

variable {fields : List String}

theorem field?_eq_some_iff (fields : List String) (index : Nat) (text : String) :
    field? fields index = some text ↔ fields[index]? = some text ∧ isDefault text = false := by
  simp [field?, Option.filter_eq_some_iff]

theorem field?_eq_none_of_le {index : Nat} (h : fields.length ≤ index) : field? fields index = none := by
  rw [field?, List.getElem?_eq_none h]
  rfl

theorem lineFields_ofFields (number : Nat) (h : ∀ field ∈ fields, IsField field) :
    LineFields (Line.ofFields number fields).text fields := by
  by_cases hne : fields = []
  · subst hne
    exact .inr ⟨rfl, rfl⟩
  · exact .inl ⟨hne, h, String.toList_intercalate⟩

/-- **A line with fields is the line that they make up.** -/
theorem LineFields.eq_ofFields {line : Line} (h : LineFields line.text fields) :
    (∀ field ∈ fields, IsField field) ∧ line = Line.ofFields line.number fields := by
  obtain ⟨number, text⟩ := line
  rcases h with h | ⟨htext, rfl⟩
  · refine ⟨h.each, congrArg (Line.mk number) ?_⟩
    rw [String.toList_intercalate]
    exact h.joined
  · exact ⟨nofun, congrArg (Line.mk number) htext⟩

theorem readFields_ok_iff (line : Line) (most : Nat) (fields : List String) :
    readFields line most = .ok fields ↔ LineFields line.text fields ∧ fields.length ≤ most := by
  unfold readFields LineFields
  by_cases hempty : line.text = []
  · rw [if_pos (by simpa using hempty), hempty]
    have hnot : ¬ HasFields [] fields := fun h => by
      have hread := (Text.fields?_eq_some_iff ..).2 h
      simp [Text.fields?] at hread
    constructor
    · rintro ⟨⟩
      exact ⟨.inr ⟨rfl, rfl⟩, Nat.zero_le _⟩
    · rintro ⟨h | ⟨-, rfl⟩, -⟩
      · exact absurd h hnot
      · rfl
  · rw [if_neg (by simpa using hempty), Result.bind_ok_iff]
    constructor
    · rintro ⟨fields', hfields, h⟩
      split at h
      · exact absurd h (line.refuseLayout_ne_ok _ _)
      · obtain rfl := (Result.pure_ok_iff ..).1 h
        exact ⟨.inl ((Line.fields_ok_iff ..).1 hfields), Nat.not_lt.1 ‹_›⟩
    · rintro ⟨h | ⟨hnil, -⟩, hmost⟩
      · exact ⟨fields, (Line.fields_ok_iff ..).2 h, by rw [if_neg (Nat.not_lt.2 hmost)]; rfl⟩
      · exact absurd hnil hempty

end Fields

/-! ## Words in any case -/

section Words

variable {text : String} {letters : List Char}

/-- A text that is some letters but for their case is a field if they are none of the separators. -/
theorem isField_of_asciiLower (h : asciiLower text = letters) (hne : letters ≠ [])
    (hseparators : [' ', '\t', '\n', '\r'].all (fun c => !letters.contains c) = true) :
    IsField text ∧ WithinLine text.toList := by
  refine Text.isField_of_forall (fun c => letters.contains c.toLower) (fun hempty => hne ?_) (fun c hc => ?_) ?_
  · rw [← h, hempty]
    rfl
  · rw [List.contains_iff_mem, ← h]
    exact List.mem_map_of_mem hc
  · simpa using hseparators

theorem isField_of_isDefault (h : isDefault text = true) : IsField text ∧ WithinLine text.toList :=
  isField_of_asciiLower (by simpa [isDefault] using h) (by decide) (by decide)

/-- The words of a flag. -/
def flagWords : List (List Char) := [['t'], "true".toList, ['f'], "false".toList]

theorem mem_flagWords {flag : Bool} (h : IsFlag text flag) : asciiLower text ∈ flagWords := by
  unfold IsFlag flag? at h
  dsimp only at h
  split at h
  · rename_i ht
    rw [Bool.or_eq_true, beq_iff_eq, beq_iff_eq] at ht
    rcases ht with ht | ht <;> simp [flagWords, ht]
  split at h
  · rename_i hf
    rw [Bool.or_eq_true, beq_iff_eq, beq_iff_eq] at hf
    rcases hf with hf | hf <;> simp [flagWords, hf]
  · cases h

theorem isField_of_isFlag {flag : Bool} (h : IsFlag text flag) : IsField text ∧ WithinLine text.toList := by
  have hwords : ∀ letters ∈ flagWords, letters ≠ [] ∧
      [' ', '\t', '\n', '\r'].all (fun c => !letters.contains c) = true := by decide
  obtain ⟨hne, hseparators⟩ := hwords _ (mem_flagWords h)
  exact isField_of_asciiLower rfl hne hseparators

theorem isField_of_isNumeral {n : Nat} (h : IsNumeral text n) : IsField text ∧ WithinLine text.toList := by
  obtain ⟨digits, htext, hne, hdigits, -⟩ := h.digits
  refine Text.isField_of_forall (fun c => c.isDigit || c == '+') (fun hempty => ?_) (fun c hc => ?_) (by decide)
  · rw [hempty] at htext
    simp [hne] at htext
  · rcases htext with htext | htext <;> rw [htext] at hc
    · simp [hdigits c hc]
    · rcases List.mem_cons.1 hc with rfl | hc
      · rfl
      · simp [hdigits c hc]

/-- **No numeral is a word**, as there are digits in it. -/
theorem exists_digit_of_isNumeral {n : Nat} (h : IsNumeral text n) : ∃ c ∈ asciiLower text, c.isDigit = true := by
  obtain ⟨digits, htext, hne, hdigits, -⟩ := h.digits
  obtain ⟨c, rest, rfl⟩ := List.exists_cons_of_ne_nil hne
  have hc : c ∈ text.toList := by rcases htext with htext | htext <;> simp [htext]
  have hdigit : c.isDigit = true := hdigits c List.mem_cons_self
  have hlower : c.toLower = c := dif_neg fun hupper => by grind [Char.isDigit]
  exact ⟨c, List.mem_map.2 ⟨c, hc, hlower⟩, hdigit⟩

theorem isDefault_of_isNumeral {n : Nat} (h : IsNumeral text n) : isDefault text = false := by
  obtain ⟨c, hc, hdigit⟩ := exists_digit_of_isNumeral h
  have hword : "default".toList.any Char.isDigit = false := by decide
  refine beq_false_of_ne fun heq => ?_
  exact absurd hdigit (List.any_eq_false.1 hword c (heq ▸ hc))

theorem flag?_of_isNumeral {n : Nat} (h : IsNumeral text n) : flag? text = none := by
  obtain ⟨c, hc, hdigit⟩ := exists_digit_of_isNumeral h
  have hwords : ∀ letters ∈ flagWords, letters.any Char.isDigit = false := by decide
  refine Option.eq_none_iff_forall_ne_some.2 fun flag hflag => ?_
  exact absurd hdigit (List.any_eq_false.1 (hwords _ (mem_flagWords hflag)) c hc)

end Words

end Settings
end BoundedTuring
