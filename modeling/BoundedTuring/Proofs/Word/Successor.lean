import BoundedTuring.Proofs.Word.Enumeration
/-!
# The successor counts

The successor of a word is the next word in shortlex order, with none between the two.  Within a length it is a counter:
the value goes up by one, until the greatest word of the length is followed by the least of the next.  So from a least
word on, the lengths change after as many steps as there are words of the length (`iterate_successor_least`).
-/
namespace BoundedTuring
namespace Word

section

variable {base : Nat}

/-! ## Least and greatest words -/

theorem isLeast_least (length : Nat) : isLeast (least length) = true := by
  simp [isLeast, least]

theorem isGreatest_iff (hbase : 1 ≤ base) (w : Word) : isGreatest base w = true ↔ w = greatest w.length base := by
  rw [isGreatest, greatest, List.all_eq_true, List.eq_replicate_iff, and_iff_right rfl]
  refine forall₂_congr fun s _ => ?_
  rw [beq_iff_eq]
  omega

theorem isOver_greatest (hbase : 1 ≤ base) (length : Nat) : IsOver base (greatest length base) := by
  intro s hs
  rw [List.eq_of_mem_replicate hs]
  omega

/-- **A word is the greatest of its length exactly if its value is.** -/
theorem value_add_one_eq_iff (hbase : 1 ≤ base) {w : Word} (hw : IsOver base w) :
    value base w + 1 = base ^ w.length ↔ isGreatest base w = true := by
  have hgreatest := value_greatest_succ hbase w.length
  rw [isGreatest_iff hbase]
  constructor
  · intro hvalue
    refine eq_of_rank_eq hw (isOver_greatest hbase _) ?_
    rw [rank, rank, length_greatest]
    omega
  · intro heq
    rw [← heq] at hgreatest
    exact hgreatest

/-! ## One step -/

/-- **The greatest word of a length is followed by the least of the next.** -/
theorem successor_of_isGreatest (hbase : 1 ≤ base) {w : Word} (hw : IsOver base w) (h : isGreatest base w = true) :
    successor base w = least (w.length + 1) := by
  have hvalue := (value_add_one_eq_iff hbase hw).2 h
  refine eq_of_rank_eq (isOver_successor hbase hw) (isOver_least hbase _) ?_
  rw [rank_successor hbase hw, rank_least, rank, shorter]
  omega

/-- **Any other word is followed by one of its length**, worth one more. -/
theorem successor_of_not_isGreatest (hbase : 1 ≤ base) {w : Word} (hw : IsOver base w)
    (h : isGreatest base w = false) :
    (successor base w).length = w.length ∧ value base (successor base w) = value base w + 1 := by
  have hbelow := value_lt w hw
  rw [← Bool.not_eq_true, ← value_add_one_eq_iff hbase hw] at h
  have hrank := rank_successor hbase hw
  -- the next rank is still below that of the least word of the next length
  have hlength : (successor base w).length = w.length := by
    rw [length_eq_iff_rank (isOver_successor hbase hw), hrank, rank, shorter]
    omega
  rw [rank, rank, hlength] at hrank
  exact ⟨hlength, by omega⟩

theorem shortlex_successor (hbase : 1 ≤ base) {w : Word} (hw : IsOver base w) : Shortlex w (successor base w) := by
  rw [shortlex_iff_rank_lt hw (isOver_successor hbase hw), rank_successor hbase hw]
  exact Nat.lt_succ_self _

/-- **Nothing lies between a word and its successor.** -/
theorem not_shortlex_between (hbase : 1 ≤ base) {w v : Word} (hw : IsOver base w) (hv : IsOver base v) :
    ¬ (Shortlex w v ∧ Shortlex v (successor base w)) := by
  rw [shortlex_iff_rank_lt hw hv, shortlex_iff_rank_lt hv (isOver_successor hbase hw), rank_successor hbase hw]
  omega

/-! ## Many steps -/

/-- **Counting on from the least word of a length goes through its words in the order of their values**: `k` steps lead
to the one worth `k`. -/
theorem iterate_successor_least (hbase : 1 ≤ base) {length k : Nat} (h : k < base ^ length) :
    ((successor base)^[k] (least length)).length = length ∧ value base ((successor base)^[k] (least length)) = k := by
  obtain ⟨hover, hrank⟩ := iterate_successor hbase (isOver_least hbase length) k
  rw [rank_least] at hrank
  have hlength : ((successor base)^[k] (least length)).length = length := by
    rw [length_eq_iff_rank hover, hrank, shorter]
    omega
  rw [rank, hlength] at hrank
  exact ⟨hlength, by omega⟩

/-- After as many steps as there are words of the length comes the least word of the next. -/
theorem iterate_successor_pow (hbase : 1 ≤ base) (length : Nat) :
    (successor base)^[base ^ length] (least length) = least (length + 1) := by
  obtain ⟨hover, hrank⟩ := iterate_successor hbase (isOver_least hbase length) (base ^ length)
  refine eq_of_rank_eq hover (isOver_least hbase _) ?_
  rw [hrank, rank_least, rank_least, shorter]

end

/-- **The successor is the next word in shortlex order.**  It is a word over the base, after the given one and with none
between.  The greatest word of a length is followed by the least of the next, any other by a word of its length that is
worth one more.  From the least word of a length on, the length changes first at the step whose number is that of the
words of the length. -/
theorem successor_is_next {base : Nat} (hbase : 1 ≤ base) :
    (∀ w : Word, IsOver base w →
      IsOver base (successor base w) ∧
      (isGreatest base w = true ↔ w = greatest w.length base) ∧
      (isGreatest base w = true →
        successor base w = least (w.length + 1) ∧ isLeast (successor base w) = true) ∧
      (isGreatest base w = false →
        (successor base w).length = w.length ∧ value base (successor base w) = value base w + 1) ∧
      Shortlex w (successor base w) ∧
      ∀ v : Word, IsOver base v → ¬ (Shortlex w v ∧ Shortlex v (successor base w))) ∧
    ∀ length : Nat,
      ((successor base)^[base ^ length] (least length)).length = length + 1 ∧
      ∀ k < base ^ length, ((successor base)^[k] (least length)).length = length := by
  refine ⟨fun w hw => ⟨isOver_successor hbase hw, isGreatest_iff hbase w, fun hgreatest => ?_,
    successor_of_not_isGreatest hbase hw, shortlex_successor hbase hw, fun v hv => not_shortlex_between hbase hw hv⟩,
    fun length => ⟨?_, fun k hk => (iterate_successor_least hbase hk).1⟩⟩
  · rw [successor_of_isGreatest hbase hw hgreatest]
    exact ⟨rfl, isLeast_least _⟩
  · rw [iterate_successor_pow hbase, length_least]

/-- Over three symbols the carry of 122 stops at its first symbol, and that of 222 runs through.  Of the words of four
symbols the last comes after eighty steps, and after one more the first of five. -/
theorem successors_over_three :
    (1 ≤ 3 ∧ IsOver 3 [1, 2, 2] ∧ IsOver 3 [2, 2, 2]) ∧
      (isGreatest 3 [1, 2, 2] = false ∧ successor 3 [1, 2, 2] = [2, 0, 0] ∧ value 3 [2, 0, 0] = 17 + 1) ∧
      ¬ (Shortlex [1, 2, 2] [2, 0, 1] ∧ Shortlex [2, 0, 1] [2, 0, 0]) ∧
      (isGreatest 3 [2, 2, 2] = true ∧ successor 3 [2, 2, 2] = least 4) ∧
      ((successor 3)^[81] (least 4)).length = 5 ∧ ((successor 3)^[80] (least 4)).length = 4 := by
  obtain ⟨hstep, hrun⟩ := successor_is_next (show 1 ≤ 3 by decide)
  have hstops : IsOver 3 [1, 2, 2] := by decide
  have hruns : IsOver 3 [2, 2, 2] := by decide
  have hnot : isGreatest 3 [1, 2, 2] = false := by decide
  have hgreatest : isGreatest 3 [2, 2, 2] = true := by decide
  obtain ⟨-, -, -, hcounts, -, hbetween⟩ := hstep [1, 2, 2] hstops
  obtain ⟨-, -, hleast, -⟩ := hstep [2, 2, 2] hruns
  have hsuccessor : successor 3 [1, 2, 2] = [2, 0, 0] := by decide
  rw [hsuccessor] at hcounts hbetween
  exact ⟨⟨by decide, hstops, hruns⟩, ⟨hnot, hsuccessor, (hcounts hnot).2⟩, hbetween [2, 0, 1] (by decide),
    ⟨hgreatest, (hleast hgreatest).1⟩, (hrun 4).1, (hrun 4).2 80 (by decide)⟩

end Word
end BoundedTuring
