import BoundedTuring.Proofs.Word.Enumeration
import Mathlib.Algebra.BigOperators.Intervals
import Mathlib.Algebra.Order.BigOperators.Group.Finset
import Mathlib.Tactic.Ring
/-!
# How many words there are

There are as many words of a length as the base to that power, so the words of several lengths are counted by a sum of
powers.  `estimate` adds the powers up and stops at its ceiling, which changes no comparison with a number below the
ceiling (`lt_estimate_iff`).  An enumeration gives that many words, less those of the first length that come before its
first word (`length_wordsFrom`), and these are as many as its value says (`estimate_matches_enumeration`).
-/
namespace BoundedTuring
namespace Word

section

variable {base : Nat}

/-! ## Sums of powers -/

theorem shorter_add (base start n : Nat) :
    shorter base (start + n) = shorter base start + base ^ start * shorter base n := by
  induction n with
  | zero => simp [shorter]
  | succ n ih =>
    rw [← Nat.add_assoc, shorter, ih, shorter]
    ring

/-- **The words of some lengths in a row** are those shorter than the end that are not shorter than the start. -/
theorem shorter_add_sum (base : Nat) {start max : Nat} (h : start ≤ max + 1) :
    shorter base start + ∑ l ∈ Finset.Icc start max, base ^ l = shorter base (max + 1) := by
  have hrange : ∀ n, shorter base n = ∑ l ∈ Finset.range n, base ^ l := fun n => by
    induction n with
    | zero => rfl
    | succ n ih => rw [shorter, ih, Finset.sum_range_succ]
  rw [hrange, hrange, ← Finset.Ico_add_one_right_eq_Icc]
  exact Finset.sum_range_add_sum_Ico _ h

theorem sum_powers (base : Nat) {start max : Nat} (h : start ≤ max) :
    ∑ l ∈ Finset.Icc start max, base ^ l = base ^ start * shorter base (max - start + 1) := by
  have hsum := shorter_add_sum base (Nat.le_succ_of_le h)
  have hadd := shorter_add base start (max - start + 1)
  rw [show start + (max - start + 1) = max + 1 by omega] at hadd
  omega

theorem sum_ones (start max : Nat) : ∑ l ∈ Finset.Icc start max, 1 ^ l = max + 1 - start := by
  simp

theorem pow_le_sum (base : Nat) {start max : Nat} (h : start ≤ max) :
    base ^ start ≤ ∑ l ∈ Finset.Icc start max, base ^ l :=
  Finset.single_le_sum (fun l _ => Nat.zero_le (base ^ l)) (Finset.mem_Icc.2 ⟨Nat.le_refl _, h⟩)

/-! ## The estimate -/

/-- Adding up stops at the ceiling, and only there. -/
theorem addPowers_checked (base : Nat) : ∀ n power total : Nat, total ≤ countCeiling →
    addPowers base n (checked power) total = min (total + power * shorter base n) countCeiling
  | 0, power, total, htotal => by
    rw [addPowers, shorter, Nat.mul_zero, Nat.add_zero, Nat.min_eq_left htotal]
  | n + 1, power, total, htotal => by
    have hsplit : total + power * shorter base (n + 1) = total + power + power * base * shorter base n := by
      rw [Nat.add_comm n 1, shorter_add]
      simp only [shorter]
      ring
    rw [hsplit]
    unfold checked
    by_cases hpower : power ≤ countCeiling
    · rw [if_pos hpower, addPowers]
      by_cases hstop : countCeiling ≤ total + power
      · rw [Nat.min_eq_right hstop, if_pos rfl, Nat.min_eq_right]
        omega
      · have hbelow : min (total + power) countCeiling = total + power := by omega
        rw [hbelow, if_neg (by omega), addPowers_checked base n (power * base) (total + power) (by omega)]
    · -- this power alone is past the ceiling
      rw [if_neg hpower, addPowers, Nat.min_eq_right]
      omega

/-- A power is found unless it passes the ceiling, for with a factor of at least one it never comes back below. -/
theorem powerBelow_eq (hbase : 1 ≤ base) : ∀ n power : Nat, power ≤ countCeiling →
    powerBelow base n power = checked (power * base ^ n)
  | 0, power, hpower => by
    rw [powerBelow, Nat.pow_zero, Nat.mul_one, checked, if_pos hpower]
  | n + 1, power, _ => by
    have hsplit : power * base ^ (n + 1) = power * base * base ^ n := by ring
    rw [powerBelow, hsplit]
    by_cases hbelow : power * base ≤ countCeiling
    · rw [checked, if_pos hbelow, Option.bind_some, powerBelow_eq hbase n (power * base) hbelow]
    · have hle : power * base ≤ power * base * base ^ n := Nat.le_mul_of_pos_right _ (Nat.pow_pos hbase)
      rw [checked, if_neg hbelow, Option.bind_none, checked, if_neg]
      omega

/-- **The estimate is the sum of the powers**, up to the ceiling. -/
theorem estimate_eq (hbase : 2 ≤ base) (start max : Nat) :
    estimate base start max = min (∑ l ∈ Finset.Icc start max, base ^ l) countCeiling := by
  unfold estimate
  by_cases hempty : max < start
  · rw [if_pos hempty, Finset.Icc_eq_empty (Nat.not_le.2 hempty), Finset.sum_empty, Nat.zero_min]
  · rw [if_neg hempty, if_neg (by omega), powerBelow_eq (by omega) start 1 (by decide), Nat.one_mul,
      addPowers_checked base _ _ 0 (Nat.zero_le _), Nat.zero_add, sum_powers base (Nat.not_lt.1 hempty)]

/-- Over one symbol there is one word of each length, and the estimate has no ceiling. -/
theorem estimate_one (start max : Nat) : estimate 1 start max = ∑ l ∈ Finset.Icc start max, 1 ^ l := by
  rw [sum_ones]
  unfold estimate
  by_cases hempty : max < start
  · rw [if_pos hempty]
    omega
  · rw [if_neg hempty, if_pos (Nat.le_refl 1)]
    omega

/-- **So over any alphabet the estimate is the sum**, up to the ceiling, which over one symbol is out of reach for lengths
of sixty-four bits. -/
theorem estimate_eq_min (hbase : 1 ≤ base) {start max : Nat} (hrange : max - start < 2 ^ 64 - 1) :
    estimate base start max = min (∑ l ∈ Finset.Icc start max, base ^ l) (2 ^ 128 - 1) := by
  rcases Nat.eq_or_lt_of_le hbase with rfl | htwo
  · rw [estimate_one, sum_ones, Nat.min_eq_left]
    omega
  · rw [estimate_eq htwo]
    rfl

/-- **Below the ceiling the estimate compares as the exact number does.** -/
theorem lt_estimate_iff (hbase : 1 ≤ base) (start max : Nat) {n : Nat} (hn : n < countCeiling) :
    n < estimate base start max ↔ n < ∑ l ∈ Finset.Icc start max, base ^ l := by
  rcases Nat.eq_or_lt_of_le hbase with rfl | hbase
  · rw [estimate_one]
  · rw [estimate_eq hbase]
    omega

/-! ## Enumerations -/

/-- **An enumeration gives the words of all lengths up to its greatest, less those of its first word's length that come
before that word.** -/
theorem length_wordsFrom {maxLength : Nat} {w : Word} (h : w.length ≤ maxLength + 1) :
    (wordsFrom base maxLength w).length = ∑ l ∈ Finset.Icc w.length maxLength, base ^ l - value base w := by
  have hsum := shorter_add_sum base h
  rw [wordsFrom, List.length_iterate, rank]
  omega

theorem length_wordsFrom_add_value {maxLength : Nat} {w : Word} (hw : IsOver base w) (h : w.length ≤ maxLength) :
    (wordsFrom base maxLength w).length + value base w = ∑ l ∈ Finset.Icc w.length maxLength, base ^ l := by
  have hfirst := value_lt w hw
  have hsum := pow_le_sum base h
  rw [length_wordsFrom (Nat.le_succ_of_le h)]
  omega

end

/-- **The estimate matches the enumeration.**  It is the sum of the powers of the base, up to the ceiling.  An
enumeration gives that many words less the value of its first, so the estimate is below their number only if it has come
to the ceiling, and from a least word on it is their number. -/
theorem estimate_matches_enumeration {base : Nat} (hbase : 1 ≤ base) :
    (∀ start max, max - start < 2 ^ 64 - 1 →
      estimate base start max = min (∑ l ∈ Finset.Icc start max, base ^ l) (2 ^ 128 - 1)) ∧
    ∀ (w : Word) (max : Nat), IsOver base w → w.length ≤ max →
      ∃ words : List Word, (∀ count, enumerate base max count w = words.take count) ∧
        words.length + value base w = ∑ l ∈ Finset.Icc w.length max, base ^ l ∧
        (max - w.length < 2 ^ 64 - 1 →
          (words.length ≤ estimate base w.length max ∨ estimate base w.length max = 2 ^ 128 - 1) ∧
          (w = least w.length → estimate base w.length max = min words.length (2 ^ 128 - 1))) := by
  refine ⟨fun start max => estimate_eq_min hbase, fun w max hw hlength => ?_⟩
  have hwords := length_wordsFrom_add_value hw hlength
  refine ⟨wordsFrom base max w, fun count => enumerateFrom_eq hbase max count [] w hw, hwords, fun hrange => ?_⟩
  rw [estimate_eq_min hbase hrange, ← hwords]
  constructor
  · omega
  · intro hleast
    rw [hleast, value_least, Nat.add_zero]

/-- Over three symbols the word 21, of value 7, is followed by all but 7 words of its length and by those of the next.
Over a thousand the words of up to a hundred symbols are not counted to the end. -/
theorem estimates_over_three_and_thousand :
    (1 ≤ 3 ∧ IsOver 3 [2, 1] ∧ [2, 1].length ≤ 3) ∧ (1 ≤ 1000 ∧ 100 - 0 < 2 ^ 64 - 1) ∧
      (∃ words : List Word, (∀ count, enumerate 3 3 count [2, 1] = words.take count) ∧ words.length = 29) ∧
      estimate 3 2 3 = 36 ∧ 2 ^ 128 - 1 ≤ ∑ l ∈ Finset.Icc 0 100, 1000 ^ l := by
  have hover : IsOver 3 [2, 1] := by decide
  have hthousand := (estimate_matches_enumeration (show 1 ≤ 1000 by decide)).1 0 100 (by decide)
  obtain ⟨words, henumerate, hlength, -⟩ :=
    (estimate_matches_enumeration (show 1 ≤ 3 by decide)).2 [2, 1] 3 hover (by decide)
  have hvalue : value 3 [2, 1] = 7 := by decide
  have hsum : ∑ l ∈ Finset.Icc 2 3, 3 ^ l = 36 := by decide
  have hceiling : estimate 1000 0 100 = 2 ^ 128 - 1 := by decide +kernel
  refine ⟨⟨by decide, hover, by decide⟩, ⟨by decide, by decide⟩, ⟨words, henumerate, ?_⟩, by decide, ?_⟩
  · change words.length + value 3 [2, 1] = ∑ l ∈ Finset.Icc 2 3, 3 ^ l at hlength
    omega
  · omega

end Word
end BoundedTuring
