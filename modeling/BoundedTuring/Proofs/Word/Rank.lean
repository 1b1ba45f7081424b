import BoundedTuring.Word.Shortlex
import Mathlib.Data.List.Lex
import Mathlib.Tactic.Ring
/-!
# The rank of a word

The rank of a word is how many words come before it: all shorter ones, and those of its length with a smaller value.
On words over a base the order of ranks is shortlex order (`shortlex_iff_rank_lt`), a word is told by its rank
(`eq_of_rank_eq`), and the successor has the next rank (`rank_successor`), however far the carry runs.
-/
namespace BoundedTuring
namespace Word

/-- How many words over a base are shorter than a length. -/
def shorter (base : Nat) : Nat → Nat
  | 0 => 0
  | length + 1 => shorter base length + base ^ length

def rank (base : Nat) (w : Word) : Nat := shorter base w.length + value base w

section

variable {base : Nat}

theorem shorter_mono (base : Nat) {m n : Nat} (h : m ≤ n) : shorter base m ≤ shorter base n := by
  induction n, h using Nat.le_induction with
  | base => exact Nat.le_refl _
  | succ n _ ih =>
    rw [shorter]
    omega

/-! ## Least and greatest words -/

@[simp] theorem length_least (length : Nat) : (least length).length = length := List.length_replicate

@[simp] theorem length_greatest (length base : Nat) : (greatest length base).length = length := List.length_replicate

theorem least_succ (length : Nat) : least (length + 1) = 0 :: least length := List.replicate_succ

theorem greatest_succ (length base : Nat) : greatest (length + 1) base = (base - 1) :: greatest length base :=
  List.replicate_succ

/-! ## Values -/

theorem foldl_value (n : Nat) (w : Word) :
    w.foldl (fun n s => n * base + s) n = n * base ^ w.length + value base w := by
  induction w generalizing n with
  | nil => simp [value]
  | cons s w ih =>
    rw [value, List.foldl_cons, List.foldl_cons, ih, ih (0 * base + s), List.length_cons]
    ring

theorem value_append (v w : Word) : value base (v ++ w) = value base v * base ^ w.length + value base w := by
  rw [value, List.foldl_append, foldl_value]
  rfl

theorem value_cons (s : Nat) (w : Word) : value base (s :: w) = s * base ^ w.length + value base w := by
  rw [value, List.foldl_cons, foldl_value, Nat.zero_mul, Nat.zero_add]

theorem value_least (base length : Nat) : value base (least length) = 0 := by
  induction length with
  | zero => rfl
  | succ length ih =>
    rw [least_succ, value_cons, ih]
    simp

/-- The greatest word of a length is followed by no other of its length. -/
theorem value_greatest_succ (hbase : 1 ≤ base) (length : Nat) :
    value base (greatest length base) + 1 = base ^ length := by
  induction length with
  | zero => rfl
  | succ length ih =>
    obtain ⟨b, rfl⟩ := Nat.exists_eq_add_of_le' hbase
    rw [greatest_succ, value_cons, length_greatest, Nat.add_assoc, ih, Nat.add_sub_cancel]
    ring

theorem IsOver.cons_iff (s : Nat) (w : Word) : IsOver base (s :: w) ↔ s < base ∧ IsOver base w := List.forall_mem_cons

theorem isOver_least (hbase : 1 ≤ base) (length : Nat) : IsOver base (least length) := by
  intro s hs
  rw [List.eq_of_mem_replicate hs]
  exact hbase

theorem value_lt (w : Word) (h : IsOver base w) : value base w < base ^ w.length := by
  induction w with
  | nil => simp [value]
  | cons s w ih =>
    obtain ⟨hs, hw⟩ := (IsOver.cons_iff s w).1 h
    have hle : (s + 1) * base ^ w.length ≤ base * base ^ w.length := Nat.mul_le_mul_right _ hs
    have hlt := ih hw
    rw [value_cons, List.length_cons, Nat.pow_succ']
    rw [Nat.succ_mul] at hle
    omega

/-! ## Order -/

/-- **Words of one length come in the order of their values.** -/
theorem lex_iff_value_lt : ∀ (v w : Word), v.length = w.length → IsOver base v → IsOver base w →
    (List.Lex (fun a b : Nat => a < b) v w ↔ value base v < value base w)
  | [], [], _, _, _ => by simp
  | a :: v, b :: w, hlength, hav, hbw => by
    have hv : IsOver base v := ((IsOver.cons_iff a v).1 hav).2
    have hw : IsOver base w := ((IsOver.cons_iff b w).1 hbw).2
    have htail : v.length = w.length := Nat.succ.inj hlength
    have hvlt := value_lt v hv
    have hwlt := value_lt w hw
    rw [value_cons, value_cons, htail]
    rw [htail] at hvlt
    -- the first symbols decide, for what follows is worth less than one of them
    rcases Nat.lt_trichotomy a b with hab | rfl | hab
    · have hle : (a + 1) * base ^ w.length ≤ b * base ^ w.length := Nat.mul_le_mul_right _ hab
      rw [Nat.succ_mul] at hle
      exact iff_of_true (.rel hab) (by omega)
    · rw [List.lex_cons_iff, lex_iff_value_lt v w htail hv hw]
      omega
    · have hle : (b + 1) * base ^ w.length ≤ a * base ^ w.length := Nat.mul_le_mul_right _ hab
      rw [Nat.succ_mul] at hle
      refine iff_of_false (fun hlex => ?_) (by omega)
      cases hlex with
      | rel hba => exact Nat.lt_asymm hab hba
      | cons _ => exact Nat.lt_irrefl _ hab

theorem rank_lt_of_length_lt {v w : Word} (hv : IsOver base v) (h : v.length < w.length) :
    rank base v < rank base w := by
  have hlt := value_lt v hv
  have hle : shorter base (v.length + 1) ≤ shorter base w.length := shorter_mono base h
  rw [shorter] at hle
  unfold rank
  omega

/-- **Shortlex order is the order of ranks.** -/
theorem shortlex_iff_rank_lt {v w : Word} (hv : IsOver base v) (hw : IsOver base w) :
    Shortlex v w ↔ rank base v < rank base w := by
  unfold Shortlex
  rcases Nat.lt_trichotomy v.length w.length with hlt | heq | hgt
  · exact iff_of_true (.inl hlt) (rank_lt_of_length_lt hv hlt)
  · rw [lex_iff_value_lt v w heq hv hw, rank, rank, heq]
    omega
  · have hrank := rank_lt_of_length_lt hw hgt
    exact iff_of_false (by omega) (by omega)

theorem eq_of_rank_eq {v w : Word} (hv : IsOver base v) (hw : IsOver base w) (h : rank base v = rank base w) :
    v = w := by
  have hvw : ¬ Shortlex v w := fun hlt => by
    rw [shortlex_iff_rank_lt hv hw] at hlt
    omega
  have hwv : ¬ Shortlex w v := fun hlt => by
    rw [shortlex_iff_rank_lt hw hv] at hlt
    omega
  have hlength : v.length = w.length := by
    unfold Shortlex at hvw hwv
    omega
  refine Std.Trichotomous.trichotomous (r := List.Lex (fun a b : Nat => a < b)) v w ?_ ?_
  · exact fun hlex => hvw (.inr ⟨hlength, hlex⟩)
  · exact fun hlex => hwv (.inr ⟨hlength.symm, hlex⟩)

theorem rank_least (length : Nat) : rank base (least length) = shorter base length := by
  rw [rank, length_least, value_least, Nat.add_zero]

theorem length_le_iff_rank_lt {w : Word} (hw : IsOver base w) (n : Nat) :
    w.length ≤ n ↔ rank base w < shorter base (n + 1) := by
  constructor
  · intro h
    rw [← rank_least]
    refine rank_lt_of_length_lt hw ?_
    rw [length_least]
    exact Nat.lt_succ_of_le h
  · intro h
    have hle : ¬ n + 1 ≤ w.length := fun hle => by
      have hmono := shorter_mono base hle
      unfold rank at h
      omega
    omega

/-- The words of a length have the ranks from that of the least of them to that of the least of the next length. -/
theorem length_eq_iff_rank {w : Word} (hw : IsOver base w) (n : Nat) :
    w.length = n ↔ shorter base n ≤ rank base w ∧ rank base w < shorter base (n + 1) := by
  have hlt := (length_le_iff_rank_lt hw w.length).1 (Nat.le_refl _)
  have hle : shorter base w.length ≤ rank base w := Nat.le_add_right _ _
  constructor
  · rintro rfl
    exact ⟨hle, hlt⟩
  · rintro ⟨hlow, hhigh⟩
    have hnot : ¬ w.length + 1 ≤ n := fun hshort => by
      have hmono := shorter_mono base hshort
      omega
    have hmost := (length_le_iff_rank_lt hw n).2 hhigh
    omega

/-! ## The successor -/

/-- The symbols behind a carry were the greatest and have become the least. -/
theorem rank_carry (hbase : 1 ≤ base) : ∀ (rest : Word) (k : Nat), IsOver base rest →
    rank base (carry base rest (least k)) = rank base (rest.reverse ++ greatest k base) + 1
  | [], k, _ => by
    have hgreatest := value_greatest_succ hbase k
    rw [carry, ← least_succ, rank_least, List.reverse_nil, List.nil_append, rank, length_greatest, shorter]
    omega
  | s :: rest, k, h => by
    obtain ⟨hs, hrest⟩ := (IsOver.cons_iff s rest).1 h
    unfold carry
    by_cases hlt : s + 1 < base
    · have hgreatest := value_greatest_succ hbase k
      rw [if_pos hlt, List.reverseAux_eq, List.reverse_cons, List.append_assoc]
      simp only [rank, List.length_append, List.length_cons, List.length_reverse, List.singleton_append, value_append,
        value_cons, value_least, length_least, length_greatest, Nat.succ_mul]
      omega
    · have hmax : s = base - 1 := by omega
      rw [if_neg hlt, ← least_succ, rank_carry hbase rest (k + 1) hrest, List.reverse_cons, List.append_assoc, hmax,
        List.singleton_append, ← greatest_succ]

/-- **The successor of a word has the next rank.** -/
theorem rank_successor (hbase : 1 ≤ base) {w : Word} (hw : IsOver base w) :
    rank base (successor base w) = rank base w + 1 := by
  have h := rank_carry hbase w.reverse 0 (fun s hs => hw s (List.mem_reverse.1 hs))
  rw [List.reverse_reverse] at h
  have hnil : w ++ greatest 0 base = w := List.append_nil w
  rw [hnil] at h
  exact h

theorem isOver_carry (hbase : 1 ≤ base) : ∀ (rest done : Word), IsOver base rest → IsOver base done →
    IsOver base (carry base rest done)
  | [], done, _, hdone => (IsOver.cons_iff 0 done).2 ⟨hbase, hdone⟩
  | s :: rest, done, h, hdone => by
    obtain ⟨-, hrest⟩ := (IsOver.cons_iff s rest).1 h
    unfold carry
    split
    · rename_i hlt
      intro symbol hsymbol
      rw [List.reverseAux_eq, List.mem_append, List.mem_reverse, List.mem_cons] at hsymbol
      rcases hsymbol with hmem | rfl | hmem
      · exact hrest symbol hmem
      · exact hlt
      · exact hdone symbol hmem
    · exact isOver_carry hbase rest (0 :: done) hrest ((IsOver.cons_iff 0 done).2 ⟨hbase, hdone⟩)

theorem isOver_successor (hbase : 1 ≤ base) {w : Word} (hw : IsOver base w) : IsOver base (successor base w) :=
  isOver_carry hbase w.reverse [] (fun s hs => hw s (List.mem_reverse.1 hs)) (by simp [IsOver])

end

end Word
end BoundedTuring
