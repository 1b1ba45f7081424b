import BoundedTuring.Proofs.Result
import BoundedTuring.Proofs.Word.Enumeration
import BoundedTuring.Simulation.Simulate
import Mathlib.Data.List.Nodup
/-!
# Valid configurations

Validation refuses an initial word with foreign symbols, one of the wrong length unless it may be alone, and too many
words.  What it leaves behind starts over the alphabet and within its own bounds, so every word the simulation tests
does: words only get longer, and the enumeration ends at the upper bound.  Validating again changes nothing, nor does it
matter which bound was given first (`validation_normalizes`).
-/
namespace BoundedTuring
namespace SimulationConfig

variable {c c' : SimulationConfig} {base : Nat}

theorem validate_ok_iff_inPlace (c c' : SimulationConfig) (base : Nat) :
    c.validate base = .ok c' ↔ c.validateInPlace base = (.ok (), c') := by
  unfold validate
  rcases c.validateInPlace base with ⟨_ | _, left⟩ <;> simp

theorem startsInRange_iff (c : SimulationConfig) : c.startsInRange = true ↔
    c.minLength ≤ c.initial.length ∧ c.initial.length ≤ c.maxLength := by
  rw [startsInRange, Bool.and_eq_true, decide_eq_true_iff, decide_eq_true_iff]

theorem startsInRange_ordered_iff (c : SimulationConfig) : c.ordered.startsInRange = true ↔
    min c.minLength c.maxLength ≤ c.initial.length ∧ c.initial.length ≤ max c.minLength c.maxLength :=
  c.ordered.startsInRange_iff

theorem ordered_eq_self (h : c.minLength ≤ c.maxLength) : c.ordered = c := by
  unfold ordered
  rw [Nat.min_eq_left h, Nat.max_eq_right h]

/-- **What validation does**: it refuses a foreign symbol, and then counts the words if the initial one is within the
bounds, refuses it if it is not and others are to follow, and otherwise counts within the bounds that it sets. -/
inductive Validation (c : SimulationConfig) (base : Nat) : Result Unit × SimulationConfig → Prop
  | foreign {symbol : Nat} (hmem : symbol ∈ c.initial) (hforeign : base ≤ symbol) :
    Validation c base (Result.fail (.foreignInitial symbol base), c)
  | inRange (hover : ∀ s ∈ c.initial, s < base) (hstarts : c.ordered.startsInRange = true) :
    Validation c base (c.ordered.checkCount base, c.ordered)
  | outOfRange (hover : ∀ s ∈ c.initial, s < base) (hstarts : ¬ c.ordered.startsInRange = true)
    (hmany : 1 < c.stringCount) :
    Validation c base (Result.fail (.initialLengthOutOfRange c.initial.length c.ordered.minLength c.ordered.maxLength),
      c.ordered)
  | alone (hover : ∀ s ∈ c.initial, s < base) (hstarts : ¬ c.ordered.startsInRange = true)
    (hone : c.stringCount ≤ 1) : Validation c base (c.ordered.widened.checkCount base, c.ordered.widened)

theorem validation_validateInPlace (c : SimulationConfig) (base : Nat) :
    Validation c base (c.validateInPlace base) := by
  unfold validateInPlace
  cases hfind : c.initial.find? (fun s => base ≤ s) with
  | some symbol =>
    have hforeign := List.find?_some hfind
    exact .foreign (List.mem_of_find?_eq_some hfind) (by simpa using hforeign)
  | none =>
    have hover : ∀ s ∈ c.initial, s < base := by simpa using hfind
    dsimp only
    split
    · exact .inRange hover ‹_›
    split
    · exact .outOfRange hover ‹_› ‹_›
    · exact .alone hover ‹_› (Nat.not_lt.1 ‹_›)

/-- **When a configuration is valid, and what validation makes of it.** -/
theorem validate_ok_iff (c c' : SimulationConfig) (base : Nat) : c.validate base = .ok c' ↔
    (∀ s ∈ c.initial, s < base) ∧ c'.checkCount base = .ok () ∧
      if c.ordered.startsInRange then c.ordered = c' else c.stringCount ≤ 1 ∧ c.ordered.widened = c' := by
  have hvalidation := validation_validateInPlace c base
  rw [validate_ok_iff_inPlace]
  generalize c.validateInPlace base = outcome at hvalidation ⊢
  cases hvalidation with
  | foreign hmem hforeign =>
    refine iff_of_false (by simp [Result.fail]) ?_
    rintro ⟨hover, -⟩
    exact absurd (hover _ hmem) (Nat.not_lt.2 hforeign)
  | inRange hover hstarts =>
    rw [if_pos hstarts, Prod.mk.injEq]
    constructor
    · rintro ⟨hcheck, rfl⟩
      exact ⟨hover, hcheck, rfl⟩
    · rintro ⟨-, hcheck, rfl⟩
      exact ⟨hcheck, rfl⟩
  | outOfRange hover hstarts hmany =>
    rw [if_neg hstarts]
    refine iff_of_false (by simp [Result.fail]) ?_
    rintro ⟨-, -, halone, -⟩
    exact absurd hmany (Nat.not_lt.2 halone)
  | alone hover hstarts hone =>
    rw [if_neg hstarts, Prod.mk.injEq]
    constructor
    · rintro ⟨hcheck, rfl⟩
      exact ⟨hover, hcheck, hone, rfl⟩
    · rintro ⟨-, hcheck, -, rfl⟩
      exact ⟨hcheck, rfl⟩

/-- **A valid configuration starts over its alphabet and within its bounds.** -/
theorem starts_of_validate (h : c.validate base = .ok c') :
    Word.IsOver base c'.initial ∧ c'.minLength ≤ c'.initial.length ∧ c'.initial.length ≤ c'.maxLength := by
  obtain ⟨hover, -, hbounds⟩ := (validate_ok_iff ..).1 h
  by_cases hstarts : c.ordered.startsInRange = true
  · rw [if_pos hstarts] at hbounds
    subst hbounds
    exact ⟨hover, (startsInRange_iff _).1 hstarts⟩
  · rw [if_neg hstarts] at hbounds
    obtain ⟨-, rfl⟩ := hbounds
    exact ⟨hover, Nat.zero_le _, Nat.le_refl _⟩

/-- **Validation leaves a configuration as it is that starts within bounds that are in order.** -/
theorem eq_of_validate (hleast : c.minLength ≤ c.initial.length) (hmost : c.initial.length ≤ c.maxLength)
    (h : c.validate base = .ok c') : c' = c := by
  obtain ⟨-, -, hbounds⟩ := (validate_ok_iff ..).1 h
  rw [ordered_eq_self (Nat.le_trans hleast hmost), if_pos ((startsInRange_iff c).2 ⟨hleast, hmost⟩)] at hbounds
  exact hbounds.symm

/-- **What validation leaves behind is valid as it is.** -/
theorem validate_validated (h : c.validate base = .ok c') : c'.validate base = .ok c' := by
  obtain ⟨-, hcheck, -⟩ := (validate_ok_iff ..).1 h
  obtain ⟨hover, hleast, hmost⟩ := starts_of_validate h
  have hordered : c'.ordered = c' := ordered_eq_self (Nat.le_trans hleast hmost)
  have hstarts : c'.ordered.startsInRange = true := by
    rw [hordered]
    exact (startsInRange_iff _).2 ⟨hleast, hmost⟩
  refine (validate_ok_iff ..).2 ⟨hover, hcheck, ?_⟩
  rw [if_pos hstarts, hordered]

theorem validate_standard (base : Nat) : standard.validate base = .ok standard := rfl

theorem stringCount_of_validate (h : c.validate base = .ok c') : c'.stringCount = c.stringCount := by
  obtain ⟨-, -, hbounds⟩ := (validate_ok_iff ..).1 h
  split at hbounds
  · rw [← hbounds]
    rfl
  · rw [← hbounds.2]
    rfl

theorem words_eq_take (hbase : 1 ≤ base) (c : SimulationConfig) (hover : Word.IsOver base c.initial) :
    c.words base = (Word.wordsFrom base c.maxLength c.initial).take c.stringCount := by
  unfold words Word.enumerate
  rw [Word.enumerateFrom_eq hbase _ _ _ _ hover]
  rfl

/-- **The words of a valid configuration are over its alphabet and within its bounds.** -/
theorem isOver_of_mem_words (hbase : 1 ≤ base) (h : c.validate base = .ok c') {w : Word} (hw : w ∈ c'.words base) :
    Word.IsOver base w ∧ c'.minLength ≤ w.length ∧ w.length ≤ c'.maxLength := by
  obtain ⟨hover, hleast, -⟩ := starts_of_validate h
  rw [words_eq_take hbase c' hover] at hw
  obtain ⟨hw, hlength, hnot⟩ := (Word.mem_wordsFrom_iff hbase _ hover).1 (List.mem_of_mem_take hw)
  refine ⟨hw, ?_, hlength⟩
  -- a shorter word would come before the first
  have hle : c'.initial.length ≤ w.length := Nat.not_lt.1 fun hlt => hnot (.inl hlt)
  omega

/-- **No two words of a valid configuration are the same.** -/
theorem nodup_words (hbase : 1 ≤ base) (h : c.validate base = .ok c') : (c'.words base).Nodup := by
  have hover := (starts_of_validate h).1
  rw [words_eq_take hbase c' hover]
  exact (Word.pairwise_wordsFrom hbase _ hover).nodup.sublist (List.take_sublist _ _)

/-! ## Validation as a normal form -/

/-- The configuration with its length bounds the other way round. -/
def exchanged (c : SimulationConfig) : SimulationConfig := { c with minLength := c.maxLength, maxLength := c.minLength }

theorem ordered_exchanged (c : SimulationConfig) : c.exchanged.ordered = c.ordered := by
  unfold ordered exchanged
  rw [Nat.min_comm, Nat.max_comm]

/-- **Which bound comes first is nothing to validation**, but for what it leaves as it is when it refuses a symbol. -/
theorem validateInPlace_exchanged (c : SimulationConfig) (base : Nat) :
    (c.exchanged.validateInPlace base).1 = (c.validateInPlace base).1 ∧
      ((c.validateInPlace base).1 = .ok () →
        (c.exchanged.validateInPlace base).2 = (c.validateInPlace base).2) := by
  have hinitial : c.exchanged.initial = c.initial := rfl
  unfold validateInPlace
  rw [hinitial, ordered_exchanged]
  cases c.initial.find? (fun s => base ≤ s) with
  | some symbol => exact ⟨rfl, nofun⟩
  | none => exact ⟨rfl, fun _ => rfl⟩

theorem checkCount_ok_iff (c : SimulationConfig) (base : Nat) : c.checkCount base = .ok () ↔
    c.stringCount ≤ maxStringCount ∨ Word.estimate base c.initial.length c.maxLength ≤ maxStringCount := by
  unfold checkCount
  dsimp only
  rw [Result.refuse_ok_iff, and_iff_left rfl]
  omega

/-- The initial word is within the length bounds, whichever of them comes first. -/
def InBounds (c : SimulationConfig) : Prop :=
  min c.minLength c.maxLength ≤ c.initial.length ∧ c.initial.length ≤ max c.minLength c.maxLength

/-- When a configuration is accepted, and how it and what is left of it differ. -/
structure Adjusts (c : SimulationConfig) (base : Nat) (result : Result Unit) (left : SimulationConfig) : Prop where
  ok_iff : result = .ok () ↔ (∀ s ∈ c.initial, s < base) ∧ (c.InBounds ∨ c.stringCount ≤ 1) ∧
    (c.stringCount ≤ maxStringCount ∨
      Word.estimate base c.initial.length (max c.minLength c.maxLength) ≤ maxStringCount)
  initial_eq : left.initial = c.initial
  stringCount_eq : left.stringCount = c.stringCount
  limits_eq : left.limits = c.limits
  in_order : result = .ok () → c.InBounds →
    left.minLength = min c.minLength c.maxLength ∧ left.maxLength = max c.minLength c.maxLength
  widened : result = .ok () → ¬ c.InBounds → left.minLength = 0 ∧ left.maxLength = c.initial.length
  starts : result = .ok () → left.minLength ≤ left.initial.length ∧ left.initial.length ≤ left.maxLength
  refused : ∀ e, result = .error e → left = c ∨
    left = { c with minLength := min c.minLength c.maxLength, maxLength := max c.minLength c.maxLength }

theorem Validation.adjusts {outcome : Result Unit × SimulationConfig} (h : Validation c base outcome) :
    c.Adjusts base outcome.1 outcome.2 := by
  have hbounds : c.ordered.startsInRange = true ↔ c.InBounds := startsInRange_ordered_iff c
  cases h with
  | foreign hmem hforeign =>
    have hok : ¬ ∀ s ∈ c.initial, s < base := fun hover => absurd (hover _ hmem) (Nat.not_lt.2 hforeign)
    exact ⟨iff_of_false nofun fun h => hok h.1, rfl, rfl, rfl, nofun, nofun, nofun, fun _ _ => .inl rfl⟩
  | inRange hover hstarts =>
    rw [hbounds] at hstarts
    refine ⟨(checkCount_ok_iff ..).trans ?_, rfl, rfl, rfl, ?_, ?_, fun _ => hstarts, fun _ _ => .inr rfl⟩
    · exact ⟨fun hfew => ⟨hover, .inl hstarts, hfew⟩, fun h => h.2.2⟩
    · exact fun _ _ => ⟨rfl, rfl⟩
    · exact fun _ hout => absurd hstarts hout
  | outOfRange hover hstarts hmany =>
    rw [hbounds] at hstarts
    refine ⟨iff_of_false nofun fun h => ?_, rfl, rfl, rfl, nofun, nofun, nofun, fun _ _ => .inr rfl⟩
    exact h.2.1.elim hstarts (Nat.not_le.2 hmany)
  | alone hover hstarts hone =>
    rw [hbounds] at hstarts
    -- the count of a lone word bounds the work by itself
    have hfew : c.stringCount ≤ maxStringCount := Nat.le_trans hone (by decide)
    have hok : c.ordered.widened.checkCount base = .ok () := (checkCount_ok_iff ..).2 (.inl hfew)
    refine ⟨iff_of_true hok ⟨hover, .inr hone, .inl hfew⟩, rfl, rfl, rfl, ?_, fun _ _ => ⟨rfl, rfl⟩, ?_, ?_⟩
    · exact fun _ hin => absurd hin hstarts
    · exact fun _ => ⟨Nat.zero_le _, Nat.le_refl _⟩
    · intro e he
      rw [hok] at he
      cases he

/-- What validation is for a configuration: besides what it accepts and changes, done again it changes nothing more, and
it makes the same of the configuration with its bounds the other way round. -/
structure Normalized (c : SimulationConfig) (base : Nat) : Prop where
  adjusts : c.Adjusts base (c.validateInPlace base).1 (c.validateInPlace base).2
  again : (c.validateInPlace base).1 = .ok () →
    (c.validateInPlace base).2.validateInPlace base = (.ok (), (c.validateInPlace base).2)
  exchanged_result : (c.exchanged.validateInPlace base).1 = (c.validateInPlace base).1
  exchanged_left : (c.validateInPlace base).1 = .ok () →
    (c.exchanged.validateInPlace base).2 = (c.validateInPlace base).2

/-- **Validation brings a configuration into a normal form**, or refuses it and changes at most the order of its
bounds. -/
theorem validation_normalizes (c : SimulationConfig) (base : Nat) : c.Normalized base := by
  obtain ⟨hresult, hleft⟩ := validateInPlace_exchanged c base
  refine ⟨(validation_validateInPlace c base).adjusts, fun hok => ?_, hresult, hleft⟩
  have hvalid : c.validate base = .ok (c.validateInPlace base).2 :=
    (validate_ok_iff_inPlace ..).2 (Prod.ext hok rfl)
  exact (validate_ok_iff_inPlace ..).1 (validate_validated hvalid)

/-- A lone word of a length out of bounds sets the bounds. -/
example : (⟨9, 4, [0, 1], 1, .unbounded⟩ : SimulationConfig).validateInPlace 2 =
    (.ok (), ⟨0, 2, [0, 1], 1, .unbounded⟩) := by decide

end SimulationConfig
end BoundedTuring
