/-!
# Arrays of cells

Reading an array with a default and counting in it, after one of its elements was set; and where an element stands in
an array that holds rows one after the other.
-/
namespace BoundedTuring
namespace Cells

/-! ## Reading -/

theorem getD_setIfInBounds {α : Type} (xs : Array α) (i j : Nat) (a d : α) (h : i < xs.size) :
    (xs.setIfInBounds i a).getD j d = if i = j then a else xs.getD j d := by
  rw [Array.getD_eq_getD_getElem?, Array.getD_eq_getD_getElem?, Array.getElem?_setIfInBounds]
  by_cases hij : i = j
  · rw [if_pos hij, if_pos hij, if_pos h, Option.getD_some]
  · rw [if_neg hij, if_neg hij]

theorem getD_eq_getElem {α : Type} (xs : Array α) (i : Nat) (d : α) (h : i < xs.size) : xs.getD i d = xs[i] := by
  rw [Array.getD_eq_getD_getElem?, Array.getElem?_eq_getElem h, Option.getD_some]

theorem setIfInBounds_getD {α : Type} (xs : Array α) (i : Nat) (d : α) : xs.setIfInBounds i (xs.getD i d) = xs := by
  apply Array.ext_getElem?
  intro j
  rw [Array.getElem?_setIfInBounds, Array.getD_eq_getD_getElem?]
  by_cases hij : i = j
  · subst hij
    rw [if_pos rfl]
    by_cases hi : i < xs.size
    · rw [if_pos hi, Array.getElem?_eq_getElem hi, Option.getD_some]
    · rw [if_neg hi, Array.getElem?_eq_none (Nat.le_of_not_lt hi)]
  · rw [if_neg hij]

theorem eq_of_getD {α : Type} {xs ys : Array α} (hsize : xs.size = ys.size) (d : Nat → α)
    (h : ∀ i < xs.size, xs.getD i (d i) = ys.getD i (d i)) : xs = ys := by
  refine Array.ext hsize (fun i hi hi' => ?_)
  rw [← getD_eq_getElem xs i (d i) hi, ← getD_eq_getElem ys i (d i) hi']
  exact h i hi

/-! ## Counting -/

/-- **Setting one element moves a count by what the element was and what it is.** -/
theorem countP_setIfInBounds {α : Type} (p : α → Bool) (xs : Array α) (i : Nat) (a d : α) (h : i < xs.size) :
    (xs.setIfInBounds i a).countP p + (p (xs.getD i d)).toNat = xs.countP p + (p a).toNat := by
  have hle : (if p xs[i] then 1 else 0) ≤ xs.countP p := Array.boole_getElem_le_countP h
  have hif : ∀ b : Bool, (if b then 1 else 0) = b.toNat := by decide
  rw [getD_eq_getElem xs i d h, Array.setIfInBounds, dif_pos h, Array.countP_set h]
  rw [hif] at hle
  rw [hif, hif]
  omega

theorem count_setIfInBounds (xs : Array Bool) (i : Nat) (b : Bool) (h : i < xs.size) :
    (xs.setIfInBounds i b).count true + (xs.getD i false).toNat = xs.count true + b.toNat := by
  have := countP_setIfInBounds (· == true) xs i b false h
  simpa [Array.count] using this

theorem count_true_eq_countP_range (xs : Array Bool) :
    xs.count true = (List.range xs.size).countP (fun i => xs.getD i false) := by
  have hlist : xs.toList = (List.range xs.size).map (fun i => xs.getD i false) := by
    refine List.ext_getElem (by simp) (fun i hi hi' => ?_)
    have hsize : i < xs.size := by simpa using hi
    rw [List.getElem_map, List.getElem_range, getD_eq_getElem xs i false hsize, Array.getElem_toList]
  rw [← Array.count_toList, List.count, hlist, List.countP_map]
  simp [Function.comp_def]

/-! ## Rows -/

section Rows

variable {row rows column size : Nat}

theorem place_lt (hrow : row < rows) (hcolumn : column < size) : row * size + column < rows * size := by
  have hle : (row + 1) * size ≤ rows * size := Nat.mul_le_mul_right _ hrow
  rw [Nat.succ_mul] at hle
  omega

theorem place_div (hcolumn : column < size) : (row * size + column) / size = row := by
  have hpos : 0 < size := by omega
  rw [Nat.mul_comm, Nat.mul_add_div hpos, Nat.div_eq_of_lt hcolumn, Nat.add_zero]

theorem place_mod (hcolumn : column < size) : (row * size + column) % size = column := by
  rw [Nat.mul_comm, Nat.mul_add_mod, Nat.mod_eq_of_lt hcolumn]

end Rows

end Cells
end BoundedTuring
