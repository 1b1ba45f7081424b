import BoundedTuring.CommandLine.Command
import BoundedTuring.Proofs.Result
/-!
# What a command prints

A command prints behind what has been printed, and whether it goes on does not depend on that.  So what a command that
succeeds prints is what its parts print, one after the other (`Prints.bind`), and it has passed the check it began with
(`ok_of_answer_check_bind`).
-/
namespace BoundedTuring
namespace CommandLine

/-- A command that gives a value after it has printed a text behind whatever was printed before. -/
def Prints {α : Type} (c : Command α) (a : α) (text : String) : Prop :=
  ∀ before, (ExceptT.run c).run before = (.ok a, before ++ text)

section

variable {α β : Type} {c : Command α} {f : α → Command β} {a : α} {b : β} {x : Result α} {text text' : String}

/-! ## Parts of commands -/

theorem prints_pure (a : α) : Prints (pure a) a "" := fun before => by
  rw [String.append_empty]
  rfl

theorem Prints.bind (h : Prints c a text) (hf : Prints (f a) b text') : Prints (c >>= f) b (text ++ text') := by
  intro before
  rw [ExceptT.run_bind, StateT.run_bind, h before]
  exact (hf (before ++ text)).trans (by rw [String.append_assoc])

theorem prints_print (text : String) : Prints (print text) () text := fun _ => rfl

theorem prints_check (hx : x = .ok a) : Prints (check x) a "" := by
  rw [hx]
  exact prints_pure a

theorem Prints.silent_bind (h : Prints c a "") (hf : Prints (f a) b text) : Prints (c >>= f) b text := by
  have hboth := h.bind hf
  rwa [String.empty_append] at hboth

/-- A check that succeeds prints nothing and hands on what it gives. -/
theorem Prints.check_bind (hx : x = .ok a) (hf : Prints (f a) b text) : Prints (check x >>= f) b text :=
  (prints_check hx).silent_bind hf

/-! ## Answers -/

theorem answer_of_prints {c : Command Unit} (h : Prints c () text) : answer c = ⟨0, text, ""⟩ := by
  unfold answer
  rw [h "", String.empty_append]

/-- **A command that succeeds after a check passed the check.** -/
theorem ok_of_answer_check_bind {f : α → Command Unit} {output : String}
    (h : answer (check x >>= f) = ⟨0, output, ""⟩) : ∃ a, x = .ok a := by
  cases hx : x with
  | ok a => exact ⟨a, rfl⟩
  | error e =>
    rw [hx] at h
    cases congrArg Answer.code h

end

end CommandLine
end BoundedTuring
