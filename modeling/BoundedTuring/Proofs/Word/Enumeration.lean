import BoundedTuring.Proofs.Word.Rank
import Mathlib.Data.List.Iterate
/-!
# Enumerations of words

An enumeration goes from a word to its successor until the words get too long.  Ranks go up by one at each step, so it
lists the words from its first on up to the least that is too long, without a gap, and then ends.
-/
namespace BoundedTuring
namespace Word

section

variable {base : Nat}

/-- A word and the words after it, as many as there are up to a length. -/
def wordsFrom (base maxLength : Nat) (w : Word) : List Word :=
  List.iterate (successor base) w (shorter base (maxLength + 1) - rank base w)

theorem iterate_successor (hbase : 1 ≤ base) {w : Word} (hw : IsOver base w) (k : Nat) :
    IsOver base ((successor base)^[k] w) ∧ rank base ((successor base)^[k] w) = rank base w + k := by
  induction k with
  | zero => exact ⟨hw, rfl⟩
  | succ k ih =>
    obtain ⟨hover, hrank⟩ := ih
    rw [Function.iterate_succ_apply']
    refine ⟨isOver_successor hbase hover, ?_⟩
    rw [rank_successor hbase hover, hrank, Nat.add_assoc]

/-- **An enumeration that is long enough does not stop early**, and any other is a beginning of it. -/
theorem enumerateFrom_eq (hbase : 1 ≤ base) (maxLength : Nat) : ∀ (count : Nat) (done : List Word) (w : Word),
    IsOver base w →
      enumerateFrom base maxLength done count w = done.reverse ++ (wordsFrom base maxLength w).take count
  | 0, done, w, _ => by simp [enumerateFrom]
  | count + 1, done, w, hw => by
    have hlt := length_le_iff_rank_lt hw maxLength
    unfold enumerateFrom
    by_cases hlong : maxLength < w.length
    · have hzero : shorter base (maxLength + 1) - rank base w = 0 := by omega
      rw [if_pos hlong, wordsFrom, hzero]
      simp
    · -- one word is left more than after the successor
      have hsucc : shorter base (maxLength + 1) - rank base w =
          (shorter base (maxLength + 1) - rank base (successor base w)) + 1 := by
        rw [rank_successor hbase hw]
        omega
      rw [if_neg hlong, enumerateFrom_eq hbase maxLength count (w :: done) _ (isOver_successor hbase hw), wordsFrom,
        wordsFrom, hsucc]
      simp [List.iterate]

/-- **The words of an enumeration are those of the ranks it goes through.** -/
theorem mem_wordsFrom_iff (hbase : 1 ≤ base) (maxLength : Nat) {w v : Word} (hw : IsOver base w) :
    v ∈ wordsFrom base maxLength w ↔ IsOver base v ∧ v.length ≤ maxLength ∧ ¬ Shortlex v w := by
  rw [wordsFrom, List.mem_iterate]
  constructor
  · rintro ⟨k, hk, rfl⟩
    obtain ⟨hover, hrank⟩ := iterate_successor hbase hw k
    rw [length_le_iff_rank_lt hover, shortlex_iff_rank_lt hover hw, hrank]
    exact ⟨hover, by omega, by omega⟩
  · rintro ⟨hover, hlength, hnot⟩
    rw [length_le_iff_rank_lt hover] at hlength
    rw [shortlex_iff_rank_lt hover hw] at hnot
    obtain ⟨hover', hrank⟩ := iterate_successor hbase hw (rank base v - rank base w)
    refine ⟨rank base v - rank base w, by omega, eq_of_rank_eq hover hover' ?_⟩
    rw [hrank]
    omega

theorem pairwise_wordsFrom (hbase : 1 ≤ base) (maxLength : Nat) {w : Word} (hw : IsOver base w) :
    (wordsFrom base maxLength w).Pairwise Shortlex := by
  rw [wordsFrom, List.pairwise_iff_getElem]
  intro i j hi hj hij
  obtain ⟨hoveri, hranki⟩ := iterate_successor hbase hw i
  obtain ⟨hoverj, hrankj⟩ := iterate_successor hbase hw j
  rw [List.getElem_iterate, List.getElem_iterate, shortlex_iff_rank_lt hoveri hoverj, hranki, hrankj]
  omega

theorem not_shortlex_self (w : Word) : ¬ Shortlex w w := by
  rintro (hlt | ⟨-, hlex⟩)
  · exact Nat.lt_irrefl _ hlt
  · exact Std.Irrefl.irrefl (r := List.Lex (fun a b : Nat => a < b)) w hlex

instance : Std.Irrefl Shortlex := ⟨not_shortlex_self⟩

/-- No word of the length of a least word or of a greater one comes before it, and every shorter one does. -/
theorem shortlex_least_iff (hbase : 1 ≤ base) {w : Word} (hw : IsOver base w) (length : Nat) :
    Shortlex w (least length) ↔ w.length < length := by
  rw [shortlex_iff_rank_lt hw (isOver_least hbase length), rank_least]
  cases length with
  | zero => simp [shorter]
  | succ length =>
    rw [← length_le_iff_rank_lt hw]
    exact Nat.lt_succ_iff.symm

/-! ## The lengths of the first words -/

/-- **The first words of an enumeration are those of its first ranks.** -/
theorem mem_take_wordsFrom_iff (hbase : 1 ≤ base) (maxLength count : Nat) {w v : Word} (hw : IsOver base w) :
    v ∈ (wordsFrom base maxLength w).take count ↔
      v ∈ wordsFrom base maxLength w ∧ rank base v < rank base w + count := by
  simp only [wordsFrom, List.take_iterate, List.mem_iterate]
  constructor
  · rintro ⟨k, hk, rfl⟩
    have hrank := (iterate_successor hbase hw k).2
    exact ⟨⟨k, by omega, rfl⟩, by omega⟩
  · rintro ⟨⟨k, hk, rfl⟩, hlt⟩
    have hrank := (iterate_successor hbase hw k).2
    exact ⟨k, by omega, rfl⟩

/-- **The words of an enumeration from a least word on**, by their lengths and their ranks. -/
theorem mem_enumerate_least_iff (hbase : 1 ≤ base) (low high count : Nat) (v : Word) :
    v ∈ enumerate base high count (least low) ↔
      IsOver base v ∧ low ≤ v.length ∧ v.length ≤ high ∧ rank base v < shorter base low + count := by
  have hover := isOver_least hbase low
  have htake : enumerate base high count (least low) = (wordsFrom base high (least low)).take count :=
    enumerateFrom_eq hbase high count [] _ hover
  rw [htake, mem_take_wordsFrom_iff hbase high count hover, mem_wordsFrom_iff hbase high hover, rank_least, and_assoc]
  refine and_congr_right fun hv => ?_
  rw [shortlex_least_iff hbase hv]
  omega

/-- No word is shorter than the first one. -/
theorem forall_le_length_iff (hbase : 1 ≤ base) {low high : Nat} (h : low ≤ high) (count bound : Nat) :
    (∀ w ∈ enumerate base high count (least low), bound ≤ w.length) ↔ bound ≤ low ∨ count = 0 := by
  constructor
  · intro hall
    refine (Nat.eq_zero_or_pos count).elim .inr fun hcount => .inl ?_
    have hlength := length_least low
    have hrank : rank base (least low) < shorter base low + count := by
      rw [rank_least]
      omega
    exact hlength ▸ hall (least low)
      ((mem_enumerate_least_iff hbase ..).2 ⟨isOver_least hbase low, hlength.ge, hlength.le.trans h, hrank⟩)
  · rintro (hle | rfl) w hw
    · exact Nat.le_trans hle ((mem_enumerate_least_iff hbase ..).1 hw).2.1
    · cases hw

/-- The words go past their least length when the count goes past the number of words of that length. -/
theorem forall_length_le_iff (hbase : 1 ≤ base) (low high count : Nat) :
    (∀ w ∈ enumerate base high count (least low), w.length ≤ low) ↔ high ≤ low ∨ count ≤ base ^ low := by
  constructor
  · intro hall
    refine Classical.byContradiction fun hpast => ?_
    -- the least word of the next length would be among them
    have hlength := length_least (low + 1)
    have hrank : rank base (least (low + 1)) < shorter base low + count := by
      rw [rank_least, shorter]
      omega
    have hle := hall (least (low + 1))
      ((mem_enumerate_least_iff hbase ..).2 ⟨isOver_least hbase _, by omega, by omega, hrank⟩)
    omega
  · intro hends w hw
    obtain ⟨hover, -, hhigh, hrank⟩ := (mem_enumerate_least_iff hbase ..).1 hw
    rcases hends with hle | hcount
    · exact Nat.le_trans hhigh hle
    · rw [length_le_iff_rank_lt hover, shorter]
      omega

end

/-- **An enumeration is complete, in order and without repetition**: it comes to an end, and until then it gives the
words over the base that are not too long and not before its first, in shortlex order.  From a least word on these are
the words of every length from that word's on. -/
theorem enumerate_complete (base maxLength : Nat) (start : Word) (hbase : 1 ≤ base) (hstart : IsOver base start) :
    ∃ words : List Word, (∀ count, enumerate base maxLength count start = words.take count) ∧
      words.Pairwise Shortlex ∧ words.Nodup ∧
      (∀ w, w ∈ words ↔ IsOver base w ∧ w.length ≤ maxLength ∧ ¬ Shortlex w start) ∧
      ∀ length, start = least length →
        ∀ w, w ∈ words ↔ IsOver base w ∧ length ≤ w.length ∧ w.length ≤ maxLength := by
  have hpairwise := pairwise_wordsFrom hbase maxLength hstart
  refine ⟨wordsFrom base maxLength start, fun count => ?_, hpairwise, ?_, fun w => ?_, ?_⟩
  · rw [enumerate, enumerateFrom_eq hbase maxLength count [] start hstart]
    rfl
  · refine hpairwise.imp (fun hlt heq => ?_)
    rw [heq] at hlt
    exact not_shortlex_self _ hlt
  · exact mem_wordsFrom_iff hbase maxLength hstart
  · rintro length rfl w
    rw [mem_wordsFrom_iff hbase maxLength hstart]
    refine and_congr_right fun hw => ?_
    rw [shortlex_least_iff hbase hw]
    omega

/-- Over three symbols, where the carry of the third word runs through to a greater length. -/
theorem enumerate_past_greatest :
    (1 ≤ 3 ∧ IsOver 3 [2, 1]) ∧ ∃ words : List Word, (∀ count, enumerate 3 3 count [2, 1] = words.take count) ∧
      words.Pairwise Shortlex ∧ words.take 3 = [[2, 1], [2, 2], [0, 0, 0]] ∧ [2, 2, 2] ∈ words := by
  have hover : IsOver 3 [2, 1] := by decide
  obtain ⟨words, henumerate, hpairwise, -, hmem, -⟩ := enumerate_complete 3 3 [2, 1] (by decide) hover
  refine ⟨⟨by decide, hover⟩, words, henumerate, hpairwise, ?_, (hmem _).2 ⟨by decide, by decide, ?_⟩⟩
  · rw [← henumerate]
    decide
  · rintro (hlt | ⟨heq, -⟩)
    · exact absurd hlt (by decide)
    · exact absurd heq (by decide)

end Word
end BoundedTuring
