import BoundedTuring.Text.Line
/-!
# The lines of a text

`Lines` says what the lines of a text are: the longest pieces without a line feed or a carriage return, with one line
ending between any two of them.  `lines` finds them (`lines_iff`).
-/
namespace BoundedTuring
namespace Text

/-- A piece that lies within one line. -/
def WithinLine (piece : List Char) : Prop := ∀ c ∈ piece, c ≠ '\n' ∧ c ≠ '\r'

instance (piece : List Char) : Decidable (WithinLine piece) := List.decidableBAll ..

/-- What ends a line in front of the rest of a text.  A carriage return and a line feed after it are one ending. -/
inductive LineEnding : List Char → List Char → Prop
  | feed (rest : List Char) : LineEnding ['\n'] rest
  | returnFeed (rest : List Char) : LineEnding ['\r', '\n'] rest
  | carriage {rest : List Char} (h : rest.head? ≠ some '\n') : LineEnding ['\r'] rest

inductive Lines : List Char → List (List Char) → Prop
  | last {line : List Char} (h : WithinLine line) : Lines line [line]
  | next {line ending rest : List Char} {ls : List (List Char)} (h : WithinLine line) (he : LineEnding ending rest)
      (hrest : Lines rest ls) : Lines (line ++ ending ++ rest) (line :: ls)

theorem withinLine_cons_iff (c : Char) (piece : List Char) :
    WithinLine (c :: piece) ↔ (c ≠ '\n' ∧ c ≠ '\r') ∧ WithinLine piece := List.forall_mem_cons

/-! ## What the reader does -/

theorem linesFrom_append (done : List (List Char)) (rest : List Char) : ∀ (piece line : List Char), WithinLine piece →
    linesFrom line done (piece ++ rest) = linesFrom (piece.reverse ++ line) done rest
  | [], line, _ => rfl
  | c :: piece, line, h => by
    obtain ⟨⟨hfeed, hreturn⟩, hpiece⟩ := (withinLine_cons_iff c piece).1 h
    have hstep : linesFrom line done (c :: (piece ++ rest)) = linesFrom (c :: line) done (piece ++ rest) := by
      rw [linesFrom]
      · exact fun _ hc => absurd hc hreturn
      · exact hreturn
      · exact hfeed
    rw [List.cons_append, hstep, linesFrom_append done rest piece (c :: line) hpiece]
    simp

theorem linesFrom_ending (line : List Char) (done : List (List Char)) {ending rest : List Char}
    (h : LineEnding ending rest) : linesFrom line done (ending ++ rest) = linesFrom [] (line.reverse :: done) rest := by
  cases h with
  | feed => rfl
  | returnFeed => rfl
  | carriage hhead =>
    cases rest with
    | nil => rfl
    | cons c rest =>
      have hc : c ≠ '\n' := fun hc => hhead (congrArg some hc)
      show linesFrom line done ('\r' :: c :: rest) = _
      rw [linesFrom]
      exact fun tail htail => hc (List.cons.inj htail).1

theorem Lines.linesFrom_eq {text : List Char} {ls : List (List Char)} (h : Lines text ls) (done : List (List Char)) :
    linesFrom [] done text = done.reverse ++ ls := by
  induction h generalizing done with
  | @last line h =>
    have happend := linesFrom_append done [] line [] h
    rw [List.append_nil, List.append_nil] at happend
    rw [happend]
    simp [linesFrom]
  | @next line ending rest ls h he hrest ih =>
    rw [List.append_assoc, linesFrom_append done _ line [] h, linesFrom_ending _ done he, ih]
    simp

/-! ## Every text has lines -/

theorem Lines.cons {c : Char} (hfeed : c ≠ '\n') (hreturn : c ≠ '\r') {text : List Char} {ls : List (List Char)}
    (h : Lines text ls) : ∃ ls', Lines (c :: text) ls' := by
  cases h with
  | last h => exact ⟨_, .last ((withinLine_cons_iff ..).2 ⟨⟨hfeed, hreturn⟩, h⟩)⟩
  | @next line ending rest ls h he hrest =>
    have hline : WithinLine (c :: line) := (withinLine_cons_iff ..).2 ⟨⟨hfeed, hreturn⟩, h⟩
    exact ⟨_, .next hline he hrest⟩

theorem withinLine_nil : WithinLine [] := nofun

theorem exists_lines : ∀ text : List Char, ∃ ls, Lines text ls
  | [] => ⟨_, .last withinLine_nil⟩
  | c :: rest => by
    obtain ⟨ls, hls⟩ := exists_lines rest
    by_cases hfeed : c = '\n'
    · subst hfeed
      exact ⟨_, .next withinLine_nil (.feed rest) hls⟩
    · by_cases hreturn : c = '\r'
      · subst hreturn
        by_cases hhead : rest.head? = some '\n'
        · obtain ⟨tail, rfl⟩ := List.head?_eq_some_iff.1 hhead
          obtain ⟨ls', hls'⟩ := exists_lines tail
          exact ⟨_, .next withinLine_nil (.returnFeed tail) hls'⟩
        · exact ⟨_, .next withinLine_nil (.carriage hhead) hls⟩
      · exact hls.cons hfeed hreturn

/-- **A text has one list of lines, the one that is read.** -/
theorem lines_iff (text : List Char) (ls : List (List Char)) : Lines text ls ↔ lines text = ls := by
  constructor
  · intro h
    exact h.linesFrom_eq []
  · rintro rfl
    obtain ⟨ls, hls⟩ := exists_lines text
    have heq : lines text = ls := hls.linesFrom_eq []
    rw [heq]
    exact hls

/-! ## Lines put together -/

/-- **Lines with a line feed after each read back, and then an empty one.** -/
theorem Lines.flatMap_feed : ∀ (ls : List (List Char)), (∀ line ∈ ls, WithinLine line) →
    Lines (ls.flatMap (· ++ ['\n'])) (ls ++ [[]])
  | [], _ => .last withinLine_nil
  | line :: ls, h => by
    obtain ⟨hline, hrest⟩ := List.forall_mem_cons.1 h
    rw [List.flatMap_cons]
    exact .next hline (.feed _) (Lines.flatMap_feed ls hrest)

/-- Lines written one after the other read back, and then an empty one. -/
theorem lines_join {lines : List String} (h : ∀ line ∈ lines, WithinLine line.toList) :
    Lines (String.join (lines.map (· ++ "\n"))).toList (lines.map String.toList ++ [[]]) := by
  have hjoin : (String.join (lines.map (· ++ "\n"))).toList = (lines.map String.toList).flatMap (· ++ ['\n']) := by
    rw [String.toList_join, List.flatMap_map, List.flatMap_map]
    simp
  rw [hjoin]
  refine Lines.flatMap_feed _ (fun line hline => ?_)
  obtain ⟨text, htext, rfl⟩ := List.mem_map.1 hline
  exact h text htext

/-- **Lines with a line feed between any two read back.** -/
theorem Lines.intercalate_feed : ∀ {ls : List (List Char)}, ls ≠ [] → (∀ line ∈ ls, WithinLine line) →
    Lines (['\n'].intercalate ls) ls
  | [], hne, _ => absurd rfl hne
  | [line], _, h => by
    rw [List.intercalate_singleton]
    exact .last (h line List.mem_cons_self)
  | line :: second :: ls, _, h => by
    obtain ⟨hline, hrest⟩ := List.forall_mem_cons.1 h
    rw [List.intercalate_cons_cons]
    exact .next hline (.feed _) (Lines.intercalate_feed (List.cons_ne_nil second ls) hrest)

theorem lines_intercalate {lines : List String} (hne : lines ≠ []) (h : ∀ line ∈ lines, WithinLine line.toList) :
    Lines ("\n".intercalate lines).toList (lines.map String.toList) := by
  rw [String.toList_intercalate]
  refine Lines.intercalate_feed (by simpa using hne) (fun line hline => ?_)
  obtain ⟨text, htext, rfl⟩ := List.mem_map.1 hline
  exact h text htext

end Text
end BoundedTuring
