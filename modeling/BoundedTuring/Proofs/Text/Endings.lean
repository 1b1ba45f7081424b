import BoundedTuring.Proofs.Text.Fields
import Mathlib.Data.List.Flatten
import Mathlib.Data.List.Forall2
import Mathlib.Data.String.Basic
/-!
# Texts with other lines

A text is its lines with its line endings between them.  Other lines can take their place: they are then the lines of
the new text (`Lines.lines_layOut`), unless an empty line comes to stand where none was and makes one ending of a
carriage return in front of it and a line feed after it.  If they have the same characters, so has the text
(`Lines.relaid_perm`).
-/
namespace BoundedTuring
namespace Text

/-- The line endings of a text. -/
def endings : List Char → List (List Char)
  | [] => []
  | '\r' :: '\n' :: rest => ['\r', '\n'] :: endings rest
  | '\r' :: rest => ['\r'] :: endings rest
  | '\n' :: rest => ['\n'] :: endings rest
  | _ :: rest => endings rest

/-- Lines with line endings between them. -/
def layOut : List (List Char) → List (List Char) → List Char
  | [], _ => []
  | line :: _, [] => line
  | line :: lines, ending :: endings => line ++ ending ++ layOut lines endings

/-- A text with other lines and its own line endings. -/
def relaid (text : String) (lines : List (List Char)) : String := String.ofList (layOut lines (endings text.toList))

/-! ## The endings of a text -/

theorem endings_append (rest : List Char) : ∀ piece : List Char, WithinLine piece →
    endings (piece ++ rest) = endings rest
  | [], _ => rfl
  | c :: piece, h => by
    obtain ⟨⟨hfeed, hreturn⟩, hpiece⟩ := (withinLine_cons_iff c piece).1 h
    rw [List.cons_append, endings, endings_append rest piece hpiece]
    · exact fun _ hc => absurd hc hreturn
    · exact hreturn
    · exact hfeed

theorem endings_within {line : List Char} (h : WithinLine line) : endings line = [] := by
  have happend := endings_append [] line h
  rwa [List.append_nil] at happend

theorem endings_ending {ending rest : List Char} (h : LineEnding ending rest) :
    endings (ending ++ rest) = ending :: endings rest := by
  cases h with
  | feed => rfl
  | returnFeed => rfl
  | carriage hhead =>
    cases rest with
    | nil => rfl
    | cons c rest =>
      have hc : c ≠ '\n' := fun hc => hhead (congrArg some hc)
      show endings ('\r' :: c :: rest) = _
      rw [endings]
      exact fun tail htail => hc (List.cons.inj htail).1

theorem endings_line {line ending rest : List Char} (h : WithinLine line) (he : LineEnding ending rest) :
    endings (line ++ ending ++ rest) = ending :: endings rest := by
  rw [List.append_assoc, endings_append _ line h, endings_ending he]

theorem LineEnding.ne_nil {ending rest : List Char} (h : LineEnding ending rest) : ending ≠ [] := by cases h <;> nofun

/-! ## Laying out other lines -/

/-- A line that can take the place of another one. -/
structure StandsFor (line line' : List Char) : Prop where
  within : WithinLine line → WithinLine line'
  empty : line' = [] → line = []

section

variable {text : List Char} {lines : List (List Char)}

theorem head?_layOut (h : Lines text lines) {lines' : List (List Char)} (hall : List.Forall₂ StandsFor lines lines')
    (hhead : text.head? ≠ some '\n') : (layOut lines' (endings text)).head? ≠ some '\n' := by
  have hwithin : ∀ {line : List Char}, WithinLine line → line.head? ≠ some '\n' := fun h hfeed =>
    (h '\n' (List.mem_of_mem_head? hfeed)).1 rfl
  cases h with
  | last h =>
    obtain _ | ⟨hline, _ | _⟩ := hall
    rw [endings_within h]
    exact hwithin (hline.within h)
  | @next line ending rest lines h he hrest =>
    obtain _ | @⟨_, line', _, _, hline, _⟩ := hall
    rw [endings_line h he]
    cases line' with
    | nil =>
      -- the line was empty, so both texts begin with the ending after it
      obtain rfl := hline.empty rfl
      obtain ⟨c, ending, rfl⟩ := List.exists_cons_of_ne_nil he.ne_nil
      exact hhead
    | cons c line' =>
      have hc : (c :: line').head? ≠ some '\n' := hwithin (hline.within h)
      exact hc

/-- **Lines that stand for the lines of a text are the lines of the text with them in their place.** -/
theorem Lines.lines_layOut (h : Lines text lines) : ∀ {lines'}, List.Forall₂ StandsFor lines lines' →
    Lines (layOut lines' (endings text)) lines' := by
  induction h with
  | @last line h =>
    rintro _ (_ | ⟨hline, _ | _⟩)
    rw [endings_within h]
    exact .last (hline.within h)
  | @next line ending rest lines h he hrest ih =>
    rintro _ (_ | ⟨hline, hall⟩)
    rw [endings_line h he]
    refine .next (hline.within h) ?_ (ih hall)
    cases he with
    | feed => exact .feed _
    | returnFeed => exact .returnFeed _
    | carriage hhead => exact .carriage (head?_layOut hrest hall hhead)

/-- With its own lines a text is itself. -/
theorem Lines.layOut_self (h : Lines text lines) : layOut lines (endings text) = text := by
  induction h with
  | @last line h =>
    rw [endings_within h]
    rfl
  | @next line ending rest lines h he hrest ih => rw [endings_line h he, layOut, ih]

theorem Lines.withinLine (h : Lines text lines) : ∀ line ∈ lines, WithinLine line := by
  induction h with
  | last h => simpa using h
  | next h _ _ ih => exact List.forall_mem_cons.2 ⟨h, ih⟩

theorem Lines.length_eq (h : Lines text lines) : lines.length = (endings text).length + 1 := by
  induction h with
  | @last line h =>
    rw [endings_within h]
    rfl
  | @next line ending rest lines h he hrest ih => rw [endings_line h he, List.length_cons, List.length_cons, ih]

end

theorem layOut_perm : ∀ {lines endings : List (List Char)}, lines.length = endings.length + 1 →
    (layOut lines endings).Perm (lines.flatten ++ endings.flatten)
  | [line], [], _ => by simp [layOut]
  | _ :: _ :: _, [], h => by cases h
  | line :: lines, ending :: endings, h => by
    have ih : (layOut lines endings).Perm _ := layOut_perm (Nat.succ.inj h)
    rw [layOut, List.flatten_cons, List.flatten_cons, List.append_assoc, List.append_assoc]
    refine List.Perm.append_left line ((ih.append_left ending).trans ?_)
    rw [← List.append_assoc, ← List.append_assoc]
    exact List.perm_append_comm.append_right _

/-- **A text with its lines in another order, and each line's characters, has the same characters.** -/
theorem Lines.relaid_perm {text : List Char} {lines lines' : List (List Char)} (h : Lines text lines)
    (hlength : lines'.length = lines.length) (hperm : lines'.flatten.Perm lines.flatten) :
    (layOut lines' (endings text)).Perm text := by
  have hnew := layOut_perm (hlength.trans h.length_eq)
  have hold := layOut_perm h.length_eq
  rw [h.layOut_self] at hold
  exact (hnew.trans (hperm.append_right _)).trans hold.symm

/-! ## Sizes -/

theorem utf8Len_perm {cs cs' : List Char} (h : cs.Perm cs') : String.utf8Len cs = String.utf8Len cs' := by
  induction h with
  | nil => rfl
  | cons c _ ih => rw [String.utf8Len_cons, String.utf8Len_cons, ih]
  | swap c c' cs =>
    rw [String.utf8Len_cons, String.utf8Len_cons, String.utf8Len_cons, String.utf8Len_cons]
    exact Nat.add_right_comm ..
  | trans _ _ ih ih' => exact ih.trans ih'

/-- **A text that is laid out anew is as long**, if the lines have the same characters. -/
theorem utf8ByteSize_relaid {text : String} {lines lines' : List (List Char)} (h : Lines text.toList lines)
    (hlength : lines'.length = lines.length) (hperm : lines'.flatten.Perm lines.flatten) :
    (relaid text lines').utf8ByteSize = text.utf8ByteSize := by
  rw [relaid, String.utf8ByteSize_ofList, utf8Len_perm (h.relaid_perm hlength hperm), String.utf8Len_toList]

end Text
end BoundedTuring
