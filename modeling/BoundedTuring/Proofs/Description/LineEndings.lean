import BoundedTuring.Proofs.Description.LeftToRight
/-!
# Line endings

A text without carriage returns keeps its lines when each of its line feeds is replaced by a carriage return, or by one
and a line feed (`lines_convert`): the first leaves no line feed that could make one ending with it, and the second is
one ending wherever it stands.  Descriptions are read from their lines, so they are read alike
(`RefusesInOrder.readAlike`); only the picture of a line that is not laid out as expected is drawn from the text.
-/
namespace BoundedTuring

/-! ## Conventions -/

namespace Text

/-- What the lines of a text are ended with. -/
inductive Convention where
  | feed
  | returnFeed
  | carriage
  deriving DecidableEq, Repr

namespace Convention

def ending : Convention → List Char
  | feed => ['\n']
  | returnFeed => ['\r', '\n']
  | carriage => ['\r']

/-- What stands for a character where lines are ended in another way than with a line feed. -/
def standFor (k : Convention) (c : Char) : List Char := if c = '\n' then k.ending else [c]

/-- A text with the ending of a convention in the place of every line feed. -/
def convert (k : Convention) (text : String) : String := String.ofList (text.toList.flatMap k.standFor)

section

variable (k : Convention)

theorem flatMap_standFor_within : ∀ {piece : List Char}, WithinLine piece → piece.flatMap k.standFor = piece
  | [], _ => rfl
  | c :: piece, h => by
    obtain ⟨⟨hfeed, -⟩, hpiece⟩ := (withinLine_cons_iff c piece).1 h
    rw [List.flatMap_cons, flatMap_standFor_within hpiece, standFor, if_neg hfeed, List.singleton_append]

/-- **In a converted text what a convention writes is one ending.** -/
theorem lineEnding_ending (rest : List Char) : LineEnding k.ending (rest.flatMap k.standFor) := by
  cases k with
  | feed => exact .feed _
  | returnFeed => exact .returnFeed _
  | carriage =>
    -- no line feed is left that a carriage return could be followed by
    have hnone : '\n' ∉ rest.flatMap carriage.standFor := by
      intro hmem
      obtain ⟨c, -, hc⟩ := List.mem_flatMap.1 hmem
      by_cases hfeed : c = '\n'
      · simp [standFor, ending, hfeed] at hc
      · simp [standFor, hfeed, Ne.symm hfeed] at hc
    exact .carriage fun hhead => hnone (List.mem_of_mem_head? hhead)

theorem lines_flatMap {text : List Char} {lines : List (List Char)} (h : Lines text lines) (hreturn : '\r' ∉ text) :
    Lines (text.flatMap k.standFor) lines := by
  induction h with
  | last h =>
    rw [k.flatMap_standFor_within h]
    exact .last h
  | @next line ending rest lines h he _ ih =>
    simp only [List.mem_append, not_or] at hreturn
    obtain ⟨⟨-, hending⟩, hrest⟩ := hreturn
    cases he with
    | feed =>
      have hfeed : ['\n'].flatMap k.standFor = k.ending := by simp [standFor]
      rw [List.flatMap_append, List.flatMap_append, k.flatMap_standFor_within h, hfeed]
      exact .next h (k.lineEnding_ending rest) (ih hrest)
    | returnFeed | carriage => simp at hending

/-- **A converted text has the lines it had.** -/
theorem lines_convert {text : String} (hreturn : '\r' ∉ text.toList) :
    lines (k.convert text).toList = lines text.toList := by
  rw [convert, String.toList_ofList]
  exact (lines_iff ..).1 (k.lines_flatMap ((lines_iff ..).2 rfl) hreturn)

end

end Convention
end Text

/-! ## Reading texts with the same lines -/

variable {α : Type}

/-- Texts that a parser reads alike: as the same, or with the same error, up to the picture of the line on which a fault
of layout is met. -/
structure ReadAlike (parse : String → Result α) (text other : String) : Prop where
  parsed : ∀ a, parse text = .ok a → parse other = .ok a
  refused : ∀ e, parse text = .error e → e.kind ≠ .layout → parse other = .error e
  misplaced : ∀ e, parse text = .error e → e.kind = .layout → ∃ number expectation,
    e = .ofFault (.layout (picture text.toList number expectation)) ∧
      parse other = .error (.ofFault (.layout (picture other.toList number expectation)))

/-- **A description is read from its lines.** -/
theorem RefusesInOrder.readAlike {reader : Remaining → Reading α} (h : RefusesInOrder reader) {text other : String}
    (hsize : text.utf8ByteSize ≤ maxDescriptionSize) (hother : other.utf8ByteSize ≤ maxDescriptionSize)
    (hlines : Text.lines other.toList = Text.lines text.toList) : ReadAlike (readDescription reader) text other := by
  cases hread : reader ⟨1, Text.lines text.toList⟩ with
  | ok a =>
    have htext := (readDescription_ok_iff ..).2 ⟨hsize, hread⟩
    have hsame := (readDescription_ok_iff reader other a).2 ⟨hother, by rw [hlines, hread]⟩
    constructor
    · intro b hb
      rwa [← Except.ok.inj (htext.symm.trans hb)]
    · intro e he
      cases htext.symm.trans he
    · intro e he
      cases htext.symm.trans he
  | error refusal =>
    have htext := readDescription_of_refused hsize hread
    have hsame : readDescription reader other = .error (refusal.inText other) :=
      readDescription_of_refused hother (by rw [hlines, hread])
    constructor
    · intro b hb
      cases htext.symm.trans hb
    · intro e he hkind
      obtain rfl := Except.error.inj (htext.symm.trans he)
      cases refusal with
      | error e => exact hsame
      | layout number expectation => exact absurd rfl hkind
    · intro e he hkind
      obtain rfl := Except.error.inj (htext.symm.trans he)
      cases refusal with
      | layout number expectation => exact ⟨number, expectation, rfl, hsame⟩
      | error e =>
        -- an error in words is of no such kind
        rcases h.of_error _ _ hread with ⟨what, number, heq⟩ | ⟨body, line, rest, -, hon, -⟩
        · obtain rfl := Refusal.error.inj heq
          cases hkind
        · cases hon with
          | error hworded => exact absurd hkind (Fault.kind_ne_layout hworded)

/-- **Line endings don't matter.**  If a text has no carriage returns, then with every line feed replaced by one, or by
one and a line feed, it is read as the same description, comments included, or refused with the same error; or its layout
is refused on the same line, for not being as expected in the same way. -/
theorem line_endings_immaterial {text : String} (hreturn : '\r' ∉ text.toList)
    (hsize : text.utf8ByteSize ≤ maxDescriptionSize) (k : Text.Convention)
    (hconverted : (k.convert text).utf8ByteSize ≤ maxDescriptionSize) :
    (∀ mode, ReadAlike (MachineDescription.parse mode) text (k.convert text)) ∧
      ReadAlike AutomatonDescription.parse text (k.convert text) := by
  have hlines := k.lines_convert hreturn
  exact ⟨fun mode => (MachineDescription.read_refusesInOrder mode).readAlike hsize hconverted hlines,
    AutomatonDescription.read_refusesInOrder.readAlike hsize hconverted hlines⟩

/-- A description with comments, one with a word where a number should be, and one with a space too many, with every
line feed replaced. -/
theorem converted_descriptions_read_alike :
    (∃ d, MachineDescription.parse .twoWay "3 3 2\n0 1\n0\n1 0 2\none\n\ntwo\n" = .ok d ∧ d.comments = "one\n\ntwo" ∧
      MachineDescription.parse .twoWay "3 3 2\r\n0 1\r\n0\r\n1 0 2\r\none\r\n\r\ntwo\r\n" = .ok d ∧
      MachineDescription.parse .twoWay "3 3 2\r0 1\r0\r1 0 2\rone\r\rtwo\r" = .ok d) ∧
    AutomatonDescription.parse "1 1 0 x\r\na" = .error ⟨.notNumber "number of transitions" "x", [1]⟩ ∧
    ∃ picture, AutomatonDescription.parse "1  1\ra" = .error (.ofFault (.layout picture)) := by
  refine ⟨?parsed, ?refused, ?misplaced⟩
  case parsed =>
    have hread : MachineDescription.comments <$> MachineDescription.readOver .twoWay ["0", "1"] 2 (.binary .twoWay)
        ⟨1, ["3 3 2", "0 1", "0", "1 0 2", "one", "", "two", ""].map String.toList⟩ = .ok "one\n\ntwo" := by
      decide +kernel
    obtain ⟨d, hd, hcomments⟩ := (Result.map_ok_iff ..).1 hread
    have hd := MachineDescription.parse_ok_of_readOver (Alphabet.ofList_binary .twoWay) (by decide) (by decide) hd
    have htext : "\n".intercalate ["3 3 2", "0 1", "0", "1 0 2", "one", "", "two", ""] =
        "3 3 2\n0 1\n0\n1 0 2\none\n\ntwo\n" := by decide +kernel
    rw [htext] at hd
    have hreturn : '\r' ∉ "3 3 2\n0 1\n0\n1 0 2\none\n\ntwo\n".toList := by decide +kernel
    have hfeed := (line_endings_immaterial hreturn (by decide +kernel) .returnFeed (by decide +kernel)).1 .twoWay
    have hcarriage := (line_endings_immaterial hreturn (by decide +kernel) .carriage (by decide +kernel)).1 .twoWay
    exact ⟨d, hd, hcomments, hfeed.parsed d hd, hcarriage.parsed d hd⟩
  case refused =>
    have herror : AutomatonDescription.parse "1 1 0 x\na" = .error ⟨.notNumber "number of transitions" "x", [1]⟩ := by
      decide +kernel
    have hreturn : '\r' ∉ "1 1 0 x\na".toList := by decide +kernel
    exact (line_endings_immaterial hreturn (by decide +kernel) .returnFeed (by decide +kernel)).2.refused _ herror nofun
  case misplaced =>
    have herror : AutomatonDescription.parse "1  1\na" =
        .error (.ofFault (.layout (picture "1  1\na".toList 1 .fields))) := by decide +kernel
    have hreturn : '\r' ∉ "1  1\na".toList := by decide +kernel
    obtain ⟨number, expectation, -, hother⟩ :=
      (line_endings_immaterial hreturn (by decide +kernel) .carriage (by decide +kernel)).2.misplaced _ herror rfl
    exact ⟨_, hother⟩

end BoundedTuring
