import BoundedTuring.Word
/-!
# Shortlex order and values

Shortlex order on words, and the value of a word as a numeral.  Words of one length come in the order of their
values.
-/
namespace BoundedTuring
namespace Word

def IsOver (base : Nat) (w : Word) : Prop := ∀ s ∈ w, s < base

instance (base : Nat) (w : Word) : Decidable (IsOver base w) := inferInstanceAs (Decidable (∀ s ∈ w, s < base))

/-- Shorter words come first, words of one length in lexicographic order. -/
def Shortlex (v w : Word) : Prop :=
  v.length < w.length ∨ (v.length = w.length ∧ List.Lex (fun a b : Nat => a < b) v w)

/-- The value of a word as a numeral to a base, first symbol first. -/
def value (base : Nat) (w : Word) : Nat := w.foldl (fun n s => n * base + s) 0

end Word
end BoundedTuring
