import BoundedTuring.Error
import Mathlib.Data.List.Forall2
/-!
# When an operation succeeds

An operation that can meet a fault is a chain of checks and of smaller operations.  It succeeds exactly when all of
them do, with what the last one gives: `bind_ok_iff` for an operation in front, `check_ok_iff` for one that gives
nothing, `guard_ok_iff` for a condition that refuses.  The first of these hold of any kind of failure.  Its failures are
those of its parts, so they are of a kind that all of those are of (`FailsOnly`).
-/
namespace BoundedTuring
namespace Result

variable {ε α β : Type}

theorem bind_ok_iff (x : Except ε α) (f : α → Except ε β) (b : β) : x >>= f = .ok b ↔ ∃ a, x = .ok a ∧ f a = .ok b := by
  cases x with
  | error e => simp [bind, Except.bind]
  | ok a => simp [bind, Except.bind]

theorem check_ok_iff (x : Except ε Unit) (f : Unit → Except ε β) (b : β) :
    x >>= f = .ok b ↔ x = .ok () ∧ f () = .ok b := by
  rw [bind_ok_iff]
  exact ⟨fun ⟨_, hx, hf⟩ => ⟨hx, hf⟩, fun ⟨hx, hf⟩ => ⟨(), hx, hf⟩⟩

theorem pure_ok_iff (a b : α) : (pure a : Except ε α) = .ok b ↔ a = b := by simp [pure, Except.pure]

theorem map_ok_iff (f : α → β) (x : Except ε α) (b : β) : f <$> x = .ok b ↔ ∃ a, x = .ok a ∧ f a = b := by
  cases x with
  | error e => simp [Functor.map, Except.map]
  | ok a => simp [Functor.map, Except.map]

theorem map_error_iff (f : α → β) (x : Except ε α) (e : ε) : f <$> x = .error e ↔ x = .error e := by
  cases x with
  | error e => simp [Functor.map, Except.map]
  | ok a => simp [Functor.map, Except.map]

/-- **An operation on each element succeeds exactly if it does on all of them.** -/
theorem mapM_ok_iff (f : α → Except ε β) : ∀ (xs : List α) (ys : List β),
    xs.mapM f = .ok ys ↔ List.Forall₂ (fun x y => f x = .ok y) xs ys
  | [], ys => by
    rw [List.mapM_nil, pure_ok_iff, List.forall₂_nil_left_iff]
    exact eq_comm
  | x :: xs, ys => by
    rw [List.mapM_cons, List.forall₂_cons_left_iff]
    simp only [bind_ok_iff, pure_ok_iff, mapM_ok_iff f xs]
    constructor
    · rintro ⟨y, hy, ys', hys, rfl⟩
      exact ⟨y, ys', hy, hys, rfl⟩
    · rintro ⟨y, ys', hy, hys, rfl⟩
      exact ⟨y, hy, ys', hys, rfl⟩

/-- **If every element can be taken to one of a kind, the list can be taken to a list of them.** -/
theorem mapM_ok_of_forall {f : α → Except ε β} {R : β → α → Prop} :
    ∀ xs : List α, (∀ x ∈ xs, ∃ y, f x = .ok y ∧ R y x) → ∃ ys, xs.mapM f = .ok ys ∧ List.Forall₂ R ys xs
  | [], _ => ⟨[], rfl, .nil⟩
  | x :: xs, h => by
    obtain ⟨⟨y, hy, hR⟩, hrest⟩ := List.forall_mem_cons.1 h
    obtain ⟨ys, hys, hall⟩ := mapM_ok_of_forall xs hrest
    refine ⟨y :: ys, ?_, .cons hR hall⟩
    rw [List.mapM_cons, hy]
    show (xs.mapM f >>= fun ys => pure (y :: ys)) = _
    rw [hys]
    rfl

/-- **A condition that refuses, in front of the rest.** -/
theorem guard_ok_iff (c : Prop) [Decidable c] (fault : Fault) (f : α → Result β) (rest : Result β) (b : β) :
    (if c then Result.fail fault >>= f else rest) = .ok b ↔ ¬ c ∧ rest = .ok b := by
  by_cases hc : c
  · simp [hc, bind, Except.bind, Result.fail]
  · simp [hc]

/-- **A condition that refuses, at the end.** -/
theorem refuse_ok_iff (c : Prop) [Decidable c] (fault : Fault) (x : Result α) (a : α) :
    (if c then Result.fail fault else x) = .ok a ↔ ¬ c ∧ x = .ok a := by
  by_cases hc : c
  · simp [hc, Result.fail]
  · simp [hc]

/-- **A condition that accepts, at the end.** -/
theorem accept_ok_iff (c : Prop) [Decidable c] (fault : Fault) (x : Result α) (a : α) :
    (if c then x else Result.fail fault) = .ok a ↔ c ∧ x = .ok a := by
  by_cases hc : c
  · simp [hc]
  · simp [hc, Result.fail]

/-- An operation that succeeds exactly under a condition, with a result of a certain kind. -/
def SucceedsIff (x : Result α) (condition : Prop) (kind : α → Prop) : Prop :=
  ((∃ a, x = .ok a) ↔ condition) ∧ ∀ a, x = .ok a → kind a

theorem succeedsIff_of_ok_iff {x : Result α} {condition : Prop} {kind : α → Prop} (a : α)
    (h : ∀ b, x = .ok b ↔ condition ∧ a = b) (hkind : condition → kind a) : x.SucceedsIff condition kind := by
  constructor
  · constructor
    · rintro ⟨b, hb⟩
      exact ((h b).1 hb).1
    · intro hc
      exact ⟨a, (h a).2 ⟨hc, rfl⟩⟩
  · intro b hb
    obtain ⟨hc, rfl⟩ := (h b).1 hb
    exact hkind hc

/-! ## What is left when it fails -/

/-- What an operation gives, or what was there before it if it fails. -/
def getD (x : Result α) (a : α) : α :=
  match x with
  | .ok b => b
  | .error _ => a

/-- **Whatever holds before an operation and after its success holds afterwards.** -/
theorem getD_induct {P : α → Prop} (x : Result α) (a : α) (hbefore : P a) (hok : ∀ b, x = .ok b → P b) :
    P (x.getD a) := by
  cases x with
  | error e => exact hbefore
  | ok b => exact hok b rfl

theorem getD_of_failed {x : Result α} {a : α} (h : ¬ ∃ b, x = .ok b) : x.getD a = a := by
  cases x with
  | error e => rfl
  | ok b => exact absurd ⟨b, rfl⟩ h

/-! ## What it fails with -/

/-- An operation that, if it fails, fails with errors of some kind only. -/
structure FailsOnly (Kind : ε → Prop) (x : Except ε α) : Prop where
  of_error : ∀ e, x = .error e → Kind e

namespace FailsOnly

variable {Kind : ε → Prop}

theorem mono {Kind' : ε → Prop} {x : Except ε α} (hx : FailsOnly Kind x) (h : ∀ e, Kind e → Kind' e) :
    FailsOnly Kind' x :=
  ⟨fun e he => h e (hx.of_error e he)⟩

theorem ok (a : α) : FailsOnly Kind (.ok a) := ⟨nofun⟩

theorem pure (a : α) : FailsOnly Kind (Pure.pure a : Except ε α) := ⟨nofun⟩

theorem error {e : ε} (h : Kind e) : FailsOnly Kind (.error e : Except ε α) := by
  refine ⟨?_⟩
  rintro _ ⟨⟩
  exact h

theorem bind {x : Except ε α} {f : α → Except ε β} (hx : FailsOnly Kind x) (hf : ∀ a, FailsOnly Kind (f a)) :
    FailsOnly Kind (x >>= f) := by
  cases x with
  | error e => exact error (hx.of_error e rfl)
  | ok a => exact hf a

theorem map {x : Except ε α} {f : α → β} (hx : FailsOnly Kind x) : FailsOnly Kind (f <$> x) := by
  cases x with
  | error e => exact error (hx.of_error e rfl)
  | ok a => exact ok (f a)

theorem ite {c : Prop} [Decidable c] {x y : Except ε α} (hx : FailsOnly Kind x) (hy : FailsOnly Kind y) :
    FailsOnly Kind (if c then x else y) := by
  split
  · exact hx
  · exact hy

end FailsOnly

end Result
end BoundedTuring
