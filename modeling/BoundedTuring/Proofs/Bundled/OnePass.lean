import BoundedTuring.Proofs.Bundled.Descriptions
import BoundedTuring.Proofs.Execution.Scan
import Mathlib.Algebra.Group.Nat.Even
/-!
# Words read in one pass

The bundled machines `even-length` and `contains-one` go right and write back what they read, so each halts after a step
for every symbol it reads, the blank behind the word included.  The first is in the state that tells whether an even
number of letters is behind it (`ends_parity`).  The second stops at a one, and otherwise at the blank (`ends_found`,
`ends_not_found`).
-/
namespace BoundedTuring
namespace Bundled

open Machine (Follows)

/-! ## Parity -/

/-- The transitions of the machine that tells even lengths: a letter takes it to its other state, and the blank to the
state that accepts from 0 and to the one that rejects from 1. -/
def evenLengthRules : List Entry := [
  (⟨0, 0⟩, ⟨1, 0, .right⟩), (⟨0, 1⟩, ⟨1, 1, .right⟩), (⟨0, 3⟩, ⟨2, 3, .right⟩),
  (⟨1, 0⟩, ⟨0, 0, .right⟩), (⟨1, 1⟩, ⟨0, 1, .right⟩), (⟨1, 3⟩, ⟨3, 3, .right⟩)]

theorem alphabet_evenLength : evenLength.alphabet = letters := Machine.alphabet_putAll ..

theorem acceptState_evenLength : evenLength.acceptState = 2 := Machine.acceptState_putAll ..

theorem rejectState_evenLength : evenLength.rejectState = 3 := Machine.rejectState_putAll ..

theorem blank_evenLength : evenLength.alphabet.blank = 3 := by
  rw [alphabet_evenLength]
  rfl

theorem follows_evenLengthRules : evenLength.Follows evenLengthRules where
  lookup := by decide
  running := by
    rw [acceptState_evenLength]
    decide

theorem rule_of_letter : ∀ state < 2, ∀ s < 2, (⟨state, s⟩, ⟨1 - state, s, .right⟩) ∈ evenLengthRules := by decide

theorem rule_of_end : ∀ state < 2, (⟨state, 3⟩, ⟨2 + state, 3, .right⟩) ∈ evenLengthRules := by decide

/-- The outcome from a state when so many letters are left. -/
def parityOutcome (state length : Nat) : Outcome := if Even (state + length) then .accepted else .rejected

/-- Each of the two states has a halting state of its own. -/
theorem ends_told {state : Nat} (hstate : state < 2) (before after : List Nat) :
    evenLength.Ends (2 + state) before after 0 (parityOutcome state 0) := by
  obtain rfl | rfl : state = 0 ∨ state = 1 := by omega
  · exact Machine.ends_accepted acceptState_evenLength before after
  · exact Machine.ends_rejected rejectState_evenLength (by rw [acceptState_evenLength]; decide) before after

/-- A letter changes the state, and so the parity it stands for. -/
theorem parityOutcome_succ {state : Nat} (hstate : state < 2) (length : Nat) :
    parityOutcome (1 - state) length = parityOutcome state (length + 1) := by
  have hiff : Even (1 - state + length) ↔ Even (state + (length + 1)) := by
    rw [Nat.even_iff, Nat.even_iff]
    omega
  unfold parityOutcome
  simp only [hiff]

/-- **The state tells the parity of what has been read.** -/
theorem ends_parity : ∀ {word : Word} {state : Nat} (before : List Nat), Word.IsOver 2 word → state < 2 →
    evenLength.Ends state before word (word.length + 1) (parityOutcome state word.length)
  | [], state, before, _, hstate =>
    follows_evenLengthRules.right_blank blank_evenLength (rule_of_end state hstate) (ends_told hstate (3 :: before) [])
  | s :: word, state, before, hword, hstate => by
    obtain ⟨hs, hrest⟩ := List.forall_mem_cons.1 hword
    have hnext := ends_parity (s :: before) hrest (show 1 - state < 2 by omega)
    rw [parityOutcome_succ hstate] at hnext
    exact follows_evenLengthRules.right (rule_of_letter state hstate s hs) hnext

theorem haltsOn_evenLength {w : Word} (hw : Word.IsOver 2 w) :
    evenLength.HaltsOn w (w.length + 1) (if Even w.length then .accepted else .rejected) := by
  have hends := ends_parity [] hw (show 0 < 2 by decide)
  rw [parityOutcome, Nat.zero_add] at hends
  exact hends.haltsOn (by rw [alphabet_evenLength]; rfl) (by rw [alphabet_evenLength]; exact hw)

/-! ## Looking for a one -/

/-- The transitions of the machine that looks for a one. -/
def containsOneRules : List Entry := [
  (⟨0, 0⟩, ⟨0, 0, .right⟩), (⟨0, 1⟩, ⟨1, 1, .right⟩), (⟨0, 3⟩, ⟨2, 3, .right⟩)]

theorem alphabet_containsOne : containsOne.alphabet = .binary .leftEnd := Machine.alphabet_putAll ..

theorem acceptState_containsOne : containsOne.acceptState = 1 := Machine.acceptState_putAll ..

theorem rejectState_containsOne : containsOne.rejectState = 2 := Machine.rejectState_putAll ..

theorem blank_containsOne : containsOne.alphabet.blank = 3 := by
  rw [alphabet_containsOne]
  rfl

theorem follows_containsOneRules : containsOne.Follows containsOneRules where
  lookup := by decide
  running := by
    rw [acceptState_containsOne]
    decide

/-- Symbols without a one among them are zeros, and are passed over. -/
theorem rule_of_not_mem {word : Word} (hword : Word.IsOver 2 word) (hone : 1 ∉ word) :
    ∀ s ∈ word, (⟨0, s⟩, ⟨0, s, .right⟩) ∈ containsOneRules := by
  intro s hs
  have hlt := hword s hs
  have hne : s ≠ 1 := fun heq => hone (heq ▸ hs)
  obtain rfl : s = 0 := by omega
  decide

/-- **The machine stops behind the first one.** -/
theorem ends_found {zeros : Word} (hzeros : Word.IsOver 2 zeros) (hone : 1 ∉ zeros) (rest : Word) :
    containsOne.Ends 0 [] (zeros ++ 1 :: rest) (zeros.length + 1) .accepted := by
  have hend := Machine.ends_accepted acceptState_containsOne
  exact follows_containsOneRules.scan (rule_of_not_mem hzeros hone)
    (follows_containsOneRules.right (by decide) (hend (1 :: (zeros.reverse ++ [])) rest))

/-- **Without a one it reads the whole word** and the blank behind it. -/
theorem ends_not_found {word : Word} (hword : Word.IsOver 2 word) (hone : 1 ∉ word) :
    containsOne.Ends 0 [] word (word.length + 1) .rejected := by
  have hend := Machine.ends_rejected rejectState_containsOne (by rw [acceptState_containsOne]; decide)
  exact follows_containsOneRules.scan_blank blank_containsOne (rule_of_not_mem hword hone) (by decide)
    (hend (3 :: (word.reverse ++ [])) [])

theorem haltsOn_containsOne {w : Word} {steps : Nat} {outcome : Outcome} (hw : Word.IsOver 2 w)
    (h : containsOne.Ends 0 [] w steps outcome) : containsOne.HaltsOn w steps outcome :=
  h.haltsOn (by rw [alphabet_containsOne]; rfl) (by rw [alphabet_containsOne]; exact hw)

/-- A word with a one in it is split at the first one. -/
theorem exists_split_at_one {w : Word} (hone : 1 ∈ w) :
    ∃ zeros rest, w = zeros ++ 1 :: rest ∧ 1 ∉ zeros ∧ zeros.length = w.idxOf 1 := by
  obtain ⟨zeros, rest, rfl, hnot⟩ := List.eq_append_cons_of_mem hone
  refine ⟨zeros, rest, rfl, hnot, ?_⟩
  rw [List.idxOf_append_of_notMem hnot, List.idxOf_cons_self, Nat.add_zero]

/-! ## As they are bundled -/

/-- **The other two bundled machines decide their languages in one pass.**  On a word over its two symbols each halts
after the steps it takes to read what it needs, whatever greater number it may make: `even-length` after a step for each
letter and one for the blank, and it accepts the words of even length; `contains-one` after the step on the first one,
which accepts, or after the step on the blank, which rejects, if the word has no one in it. -/
theorem one_pass_machines_decide :
    (∃ registered, Registry.bundled.byName "even-length" = .ok registered ∧
      registered.description.machine.alphabet.input.symbols = #["a", "b"] ∧
      ∀ w, Word.IsOver 2 w → registered.description.machine.HaltsOn w (w.length + 1)
        (if Even w.length then .accepted else .rejected)) ∧
    ∃ registered, Registry.bundled.byName "contains-one" = .ok registered ∧
      registered.description.machine.alphabet.input.symbols = #["0", "1"] ∧
      ∀ w, Word.IsOver 2 w →
        (1 ∈ w → registered.description.machine.HaltsOn w (w.idxOf 1 + 1) .accepted) ∧
        (1 ∉ w → registered.description.machine.HaltsOn w (w.length + 1) .rejected) := by
  obtain ⟨d₁, d₂, d₃, hbundled, hfinder, hparity, -⟩ := registered_bundled
  constructor
  · refine ⟨⟨"even-length", d₂⟩, by rw [hbundled]; simp [Registry.byName], ?_, fun w hw => ?_⟩
    · show d₂.machine.alphabet.input.symbols = _
      rw [hparity, alphabet_evenLength]
      rfl
    · show d₂.machine.HaltsOn w _ _
      rw [hparity]
      exact haltsOn_evenLength hw
  · refine ⟨⟨"contains-one", d₁⟩, by rw [hbundled]; simp [Registry.byName], ?_, fun w hw => ?_⟩
    · show d₁.machine.alphabet.input.symbols = _
      rw [hfinder, alphabet_containsOne]
      rfl
    · show (1 ∈ w → d₁.machine.HaltsOn w _ _) ∧ (1 ∉ w → d₁.machine.HaltsOn w _ _)
      rw [hfinder]
      refine ⟨fun hone => ?_, fun hone => haltsOn_containsOne hw (ends_not_found hw hone)⟩
      obtain ⟨zeros, rest, hsplit, hnot, hlength⟩ := exists_split_at_one hone
      have hzeros : Word.IsOver 2 zeros := fun s hs => hw s (hsplit ▸ List.mem_append_left _ hs)
      have hends := ends_found hzeros hnot rest
      rw [← hsplit, hlength] at hends
      exact haltsOn_containsOne hw hends

/-- Three letters are refused after four steps, and of the word 0010 the last symbol is not read. -/
theorem one_pass_on_two_words :
    (∃ registered, Registry.bundled.byName "even-length" = .ok registered ∧
      registered.description.machine.HaltsOn [1, 0, 1] 4 .rejected) ∧
    ∃ registered, Registry.bundled.byName "contains-one" = .ok registered ∧
      registered.description.machine.HaltsOn [0, 0, 1, 0] 3 .accepted := by
  obtain ⟨⟨parity, hparity, -, heven⟩, finder, hfinder, -, hone⟩ := one_pass_machines_decide
  have hhalts := heven [1, 0, 1] (by decide)
  rw [if_neg (by decide)] at hhalts
  exact ⟨⟨parity, hparity, hhalts⟩, finder, hfinder, (hone [0, 0, 1, 0] (by decide)).1 (by decide)⟩

end Bundled
end BoundedTuring
