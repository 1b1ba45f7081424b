import BoundedTuring.Proofs.Bundled.Descriptions
import BoundedTuring.Proofs.Execution.Scan
import Mathlib.Tactic.Ring
/-!
# Matching letters

The bundled machine `anbn` marks the first a and the first b after it, goes back, and starts again behind the mark.  So
between two passes there are marked a's, as many as marked b's, and behind them a word of a's, b's and marked b's
(`ends_pass`).  Such a word stands for the one that was there at first, with an a for each mark before it and a b for
each mark in it; whether that one is matched is what the passes keep, and what the last of them finds out.
-/
namespace BoundedTuring
namespace Bundled

open Machine (Follows)

/-! ## Matched words -/

/-- Some letters a and as many letters b. -/
def matched (n : Nat) : Word := List.replicate n 0 ++ List.replicate n 1

def Matched (w : Word) : Prop := ∃ n, w = matched n

theorem length_matched (n : Nat) : (matched n).length = 2 * n := by
  rw [matched, List.length_append, List.length_replicate, List.length_replicate]
  omega

theorem matched_inj {m n : Nat} (h : matched m = matched n) : m = n := by
  have hlength := congrArg List.length h
  rw [length_matched, length_matched] at hlength
  omega

/-- A matched word is told by its length. -/
theorem matched_iff (w : Word) : w = matched (w.length / 2) ↔ Matched w := by
  constructor
  · intro h
    exact ⟨_, h⟩
  · rintro ⟨n, rfl⟩
    rw [length_matched, Nat.mul_div_cancel_left n (by decide)]

instance (w : Word) : Decidable (Matched w) := decidable_of_iff _ (matched_iff w)

/-! ## The machine -/

theorem alphabet_anbn : anbn.alphabet = markedLetters := Machine.alphabet_putAll ..

theorem acceptState_anbn : anbn.acceptState = 4 := Machine.acceptState_putAll ..

theorem rejectState_anbn : anbn.rejectState = 5 := Machine.rejectState_putAll ..

theorem blank_anbn : anbn.alphabet.blank = 5 := by
  rw [alphabet_anbn]
  rfl

theorem follows_anbnRules : anbn.Follows anbnRules where
  lookup := by decide
  running := by
    rw [acceptState_anbn]
    decide

theorem ends_accepted (before after : List Nat) : anbn.Ends 4 before after 0 .accepted :=
  Machine.ends_accepted acceptState_anbn before after

theorem ends_rejected (before after : List Nat) : anbn.Ends 5 before after 0 .rejected :=
  Machine.ends_rejected rejectState_anbn (by rw [acceptState_anbn]; decide) before after

/-! ## A pass -/

/-- Looking for a letter b to mark, state 1 crosses all else. -/
theorem rule_of_skipped {word : List Nat} (hword : ∀ s ∈ word, s = 0 ∨ s = 3) :
    ∀ s ∈ word, (⟨1, s⟩, ⟨1, s, .right⟩) ∈ anbnRules := by
  intro s hs
  rcases hword s hs with rfl | rfl <;> decide

/-- **A pass marks one letter of each kind.** -/
theorem ends_pass {before word after : List Nat} {steps : Nat} {outcome : Outcome} (hword : ∀ s ∈ word, s = 0 ∨ s = 3)
    (h : anbn.Ends 0 (2 :: before) (word ++ 3 :: after) steps outcome) :
    anbn.Ends 0 before (0 :: (word ++ 1 :: after)) (2 * word.length + 3 + steps) outcome := by
  have hback : ∀ s ∈ word.reverse, (⟨2, s⟩, ⟨2, s, .left⟩) ∈ anbnRules := fun s hs => by
    rcases hword s (List.mem_reverse.1 hs) with rfl | rfl <;> decide
  have hmark : anbn.Ends 2 before (2 :: (word.reverse.reverse ++ 3 :: after)) (steps + 1) outcome := by
    rw [List.reverse_reverse]
    exact follows_anbnRules.right (by decide) h
  have hturn : anbn.Ends 1 (word.reverse ++ 2 :: before) (1 :: after) _ outcome :=
    follows_anbnRules.turn (by decide) hback hmark
  have hscan := follows_anbnRules.scan (rule_of_skipped hword) hturn
  have hpass : anbn.Ends 0 before (0 :: (word ++ 1 :: after)) _ outcome := follows_anbnRules.right (by decide) hscan
  rw [List.length_reverse] at hpass
  have hsteps : word.length + (word.length + 1 + (steps + 1)) + 1 = 2 * word.length + 3 + steps := by omega
  rwa [hsteps] at hpass

/-! ## The last pass -/

/-- Behind a marked letter state 3 finds only marks, and accepts. -/
theorem ends_checked (count : Nat) (before : List Nat) :
    anbn.Ends 3 before (List.replicate count 3) (count + 1) .accepted := by
  have hover : ∀ s ∈ List.replicate count 3, (⟨3, s⟩, ⟨3, s, .right⟩) ∈ anbnRules := fun s hs => by
    rw [List.eq_of_mem_replicate hs]
    decide
  have hend := follows_anbnRules.scan_blank blank_anbn hover (by decide)
    (ends_accepted (5 :: ((List.replicate count 3).reverse ++ before)) [])
  rwa [List.length_replicate] at hend

/-- Or it finds a letter that is not marked, and rejects. -/
theorem exists_ends_checked : ∀ {word : List Nat}, (∀ s ∈ word, s = 0 ∨ s = 1 ∨ s = 3) → (∃ s ∈ word, s ≠ 3) →
    ∃ steps, ∀ before, anbn.Ends 3 before word steps .rejected
  | [], _, hletter => by
    obtain ⟨s, hs, -⟩ := hletter
    cases hs
  | s :: word, hword, hletter => by
    obtain ⟨hs, hrest⟩ := List.forall_mem_cons.1 hword
    rcases hs with rfl | rfl | rfl
    · exact ⟨1, fun before => follows_anbnRules.right (by decide) (ends_rejected (0 :: before) word)⟩
    · exact ⟨1, fun before => follows_anbnRules.right (by decide) (ends_rejected (1 :: before) word)⟩
    · have hletter : ∃ s ∈ word, s ≠ 3 := by simpa using hletter
      obtain ⟨steps, h⟩ := exists_ends_checked hrest hletter
      exact ⟨steps + 1, fun before => follows_anbnRules.right (by decide) (h (3 :: before))⟩

/-! ## Matched words are accepted -/

/-- **Behind so many marked letters, a word that is matched is accepted**, after a pass for each pair of its letters. -/
theorem ends_matched : ∀ (pairs marks : Nat) (before : List Nat),
    anbn.Ends 0 before (List.replicate pairs 0 ++ (List.replicate marks 3 ++ List.replicate pairs 1))
      (pairs * (2 * (marks + pairs) + 1) + (marks + pairs) + 1) .accepted
  | 0, 0, before => by
    have hend : anbn.Ends 0 before [] 1 .accepted :=
      follows_anbnRules.right_blank blank_anbn (by decide) (ends_accepted (5 :: before) [])
    exact hend
  | 0, marks + 1, before => by
    have hend : anbn.Ends 0 before (3 :: List.replicate marks 3) (marks + 1 + 1) .accepted :=
      follows_anbnRules.right (by decide) (ends_checked marks (3 :: before))
    simpa [List.replicate_succ] using hend
  | pairs + 1, marks, before => by
    have hword : ∀ s ∈ List.replicate pairs 0 ++ List.replicate marks 3, s = 0 ∨ s = 3 := fun s hs =>
      (List.mem_append.1 hs).imp List.eq_of_mem_replicate List.eq_of_mem_replicate
    have hnext := ends_matched pairs (marks + 1) (2 :: before)
    have hmarked : List.replicate pairs 0 ++ (List.replicate (marks + 1) 3 ++ List.replicate pairs 1) =
        (List.replicate pairs 0 ++ List.replicate marks 3) ++ 3 :: List.replicate pairs 1 := by
      simp [List.replicate_succ']
    have hunmarked : List.replicate (pairs + 1) 0 ++ (List.replicate marks 3 ++ List.replicate (pairs + 1) 1) =
        0 :: ((List.replicate pairs 0 ++ List.replicate marks 3) ++ 1 :: List.replicate pairs 1) := by
      simp [List.replicate_succ]
    have hsteps : 2 * (pairs + marks) + 3 + (pairs * (2 * (marks + 1 + pairs) + 1) + (marks + 1 + pairs) + 1) =
        (pairs + 1) * (2 * (marks + (pairs + 1)) + 1) + (marks + (pairs + 1)) + 1 := by ring
    rw [hmarked] at hnext
    have hpass := ends_pass hword hnext
    rwa [List.length_append, List.length_replicate, List.length_replicate, hsteps, ← hunmarked] at hpass

/-! ## All others are rejected -/

/-- The letter that a symbol stands for. -/
def unmark (symbol : Nat) : Nat := if symbol = 3 then 1 else symbol

/-- What a word stands for behind as many marked letters as there are marked ones in it. -/
def unmarked (word : List Nat) : Word := List.replicate (word.count 3) 0 ++ word.map unmark

/-- **A pass does not change what the word stands for.** -/
theorem unmarked_pass (word after : List Nat) :
    unmarked (0 :: (word ++ 1 :: after)) = unmarked (word ++ 3 :: after) := by
  have hcount : (0 :: (word ++ 1 :: after)).count 3 + 1 = (word ++ 3 :: after).count 3 := by
    simp [List.count_append, Nat.add_assoc]
  rw [unmarked, unmarked, ← hcount, List.replicate_succ', List.append_assoc]
  simp [unmark]

theorem unmarked_marks (count : Nat) : unmarked (List.replicate count 3) = matched count := by
  simp [unmarked, matched, unmark]

theorem skipped_of_not_mem {word : List Nat} (hword : ∀ s ∈ word, s = 0 ∨ s = 1 ∨ s = 3) (hone : 1 ∉ word) :
    ∀ s ∈ word, s = 0 ∨ s = 3 := by
  intro s hs
  rcases hword s hs with h | rfl | h
  · exact .inl h
  · exact absurd hs hone
  · exact .inr h

/-- **What does not stand for a matched word is rejected**, by induction on how many letters b are left to mark. -/
theorem exists_ends_unmatched : ∀ (count : Nat) {word : List Nat}, word.count 1 = count →
    (∀ s ∈ word, s = 0 ∨ s = 1 ∨ s = 3) → ¬ Matched (unmarked word) →
    ∃ steps, ∀ before, anbn.Ends 0 before word steps .rejected
  | _, [], _, _, hnot => absurd ⟨0, unmarked_marks 0⟩ hnot
  | count, s :: rest, hcount, hword, hnot => by
    obtain ⟨hs, hrest⟩ := List.forall_mem_cons.1 hword
    rcases hs with rfl | rfl | rfl
    case inl =>
      by_cases hone : 1 ∈ rest
      · -- a pass is made, and leaves one letter b less
        obtain ⟨word, after, rfl, hfirst⟩ := List.eq_append_cons_of_mem hone
        obtain ⟨hskipped, hafter⟩ := List.forall_mem_append.1 hrest
        have hnext : ∀ s ∈ word ++ 3 :: after, s = 0 ∨ s = 1 ∨ s = 3 := List.forall_mem_append.2
          ⟨hskipped, List.forall_mem_cons.2 ⟨.inr (.inr rfl), (List.forall_mem_cons.1 hafter).2⟩⟩
        have hless : (word ++ 3 :: after).count 1 + 1 = count := by
          rw [← hcount]
          simp [List.count_append, Nat.add_assoc]
        rw [unmarked_pass] at hnot
        obtain ⟨steps, h⟩ := exists_ends_unmatched (count - 1) (Nat.eq_sub_of_add_eq hless) hnext hnot
        exact ⟨_, fun before => ends_pass (skipped_of_not_mem hskipped hfirst) (h (2 :: before))⟩
      · -- there is no letter b to mark, so state 1 comes to the end
        have hend : ∀ before, anbn.Ends 1 before rest (rest.length + 1) .rejected := fun before =>
          follows_anbnRules.scan_blank blank_anbn (rule_of_skipped (skipped_of_not_mem hrest hone)) (by decide)
            (ends_rejected (5 :: (rest.reverse ++ before)) [])
        exact ⟨_, fun before => follows_anbnRules.right (by decide) (hend (2 :: before))⟩
    case inr.inl =>
      exact ⟨1, fun before => follows_anbnRules.right (by decide) (ends_rejected (1 :: before) rest)⟩
    case inr.inr =>
      by_cases hletter : ∃ s ∈ rest, s ≠ 3
      · obtain ⟨steps, h⟩ := exists_ends_checked hrest hletter
        exact ⟨steps + 1, fun before => follows_anbnRules.right (by decide) (h (3 :: before))⟩
      · refine absurd ⟨rest.length + 1, ?_⟩ hnot
        rw [← unmarked_marks, List.replicate_succ, ← List.eq_replicate_of_mem (by simpa using hletter)]
termination_by count => count

/-! ## Whole words -/

theorem haltsOn_matched (n : Nat) : anbn.HaltsOn (matched n) (2 * n ^ 2 + 2 * n + 1) .accepted := by
  have hends := ends_matched n 0 []
  have hsteps : n * (2 * (0 + n) + 1) + (0 + n) + 1 = 2 * n ^ 2 + 2 * n + 1 := by ring
  rw [hsteps] at hends
  refine hends.haltsOn (by rw [alphabet_anbn]; rfl) ?_
  rw [alphabet_anbn]
  intro s hs
  rcases List.mem_append.1 hs with hs | hs
  · rw [List.eq_of_mem_replicate hs]
    decide
  · rw [List.eq_of_mem_replicate hs]
    decide

/-- **A word without marks stands for itself**, and so is rejected if it is not matched. -/
theorem exists_haltsOn_unmatched {w : Word} (hw : Word.IsOver 2 w) (hnot : ¬ Matched w) :
    ∃ steps, anbn.HaltsOn w steps .rejected := by
  have hletters : ∀ s ∈ w, s = 0 ∨ s = 1 ∨ s = 3 := fun s hs => by
    have hlt := hw s hs
    omega
  have hunmarked : unmarked w = w := by
    have hmarks : w.count 3 = 0 := List.count_eq_zero_of_not_mem fun hmem => absurd (hw 3 hmem) (by decide)
    have hmap : w.map unmark = w := by
      refine (List.map_congr_left fun s hs => ?_).trans w.map_id
      exact if_neg (Nat.ne_of_lt (Nat.lt_trans (hw s hs) (by decide)))
    rw [unmarked, hmarks, hmap]
    rfl
  obtain ⟨steps, hends⟩ := exists_ends_unmatched (w.count 1) rfl hletters (hunmarked.symm ▸ hnot)
  exact ⟨steps, (hends []).haltsOn (by rw [alphabet_anbn]; rfl) (by rw [alphabet_anbn]; exact hw)⟩

/-- **The bundled machine `anbn` decides whether a word is some letters a and as many letters b.**  On every word over
the two letters it halts after some number of steps, whatever greater number it may make, and never has its head on the
marker.  It accepts exactly the matched words, the one with `n` pairs of letters after `2 * n ^ 2 + 2 * n + 1` steps. -/
theorem anbn_decides_matched : ∃ registered, Registry.bundled.byName "anbn" = .ok registered ∧
    registered.description.machine.alphabet.input.symbols = #["a", "b"] ∧
    ∀ w, Word.IsOver 2 w → ∃ steps,
      registered.description.machine.HaltsOn w steps (if Matched w then .accepted else .rejected) ∧
        ∀ n, w = matched n → steps = 2 * n ^ 2 + 2 * n + 1 := by
  obtain ⟨d₁, d₂, d₃, hbundled, -, -, hmachine⟩ := registered_bundled
  refine ⟨⟨"anbn", d₃⟩, by rw [hbundled]; simp [Registry.byName], ?_, fun w hw => ?_⟩
  · show d₃.machine.alphabet.input.symbols = _
    rw [hmachine, alphabet_anbn]
    rfl
  · show ∃ steps, d₃.machine.HaltsOn w steps _ ∧ _
    rw [hmachine]
    by_cases hmatched : Matched w
    · rw [if_pos hmatched]
      obtain ⟨n, rfl⟩ := hmatched
      exact ⟨_, haltsOn_matched n, fun k hk => by rw [matched_inj hk]⟩
    · rw [if_neg hmatched]
      obtain ⟨steps, hsteps⟩ := exists_haltsOn_unmatched hw hmatched
      exact ⟨steps, hsteps, fun n hn => absurd ⟨n, hn⟩ hmatched⟩

/-- Two pairs of letters take thirteen steps, and a letter a after a letter b is refused. -/
theorem anbn_on_two_words : ∃ registered, Registry.bundled.byName "anbn" = .ok registered ∧
    registered.description.machine.HaltsOn [0, 0, 1, 1] 13 .accepted ∧
    ∃ steps, registered.description.machine.HaltsOn [0, 1, 0] steps .rejected := by
  obtain ⟨registered, hname, -, hdecides⟩ := anbn_decides_matched
  obtain ⟨steps, hhalts, hsteps⟩ := hdecides [0, 0, 1, 1] (by decide)
  obtain ⟨steps', hhalts', -⟩ := hdecides [0, 1, 0] (by decide)
  rw [if_pos (by decide), hsteps 2 rfl] at hhalts
  rw [if_neg (by decide)] at hhalts'
  exact ⟨registered, hname, hhalts, steps', hhalts'⟩

end Bundled
end BoundedTuring
