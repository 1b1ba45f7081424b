import BoundedTuring.Proofs.Description.Acceptance
import BoundedTuring.Proofs.Description.Automaton.Acceptance
import BoundedTuring.Proofs.Description.Evaluation
import BoundedTuring.Proofs.Description.Refusals
/-!
# Reading from left to right

A description is decided line by line.  Its reader refuses on the first line with which it cannot go on, whatever comes
after it (`RefusesInOrder`): this holds of a reader that takes one line and goes on with such a reader, and so of one
that takes as many lines as a line before them says.  What a text describes, its comments apart, is decided by the lines
up to its settings.
-/
namespace BoundedTuring

open Result (FailsOnly)

variable {α β γ σ : Type}

/-! ## Refusing in order -/

/-- A reader that refuses on one of its lines, in sight of no line after it, or for want of a line. -/
structure RefusesInOrder (reader : Remaining → Reading α) : Prop where
  of_error : ∀ r refusal, reader r = .error refusal →
    (∃ what number, refusal = .error (.ofFault (.missingLine what number))) ∨
    ∃ body line rest, r.lines = body ++ line :: rest ∧ refusal.On (r.next + body.length) ∧
      ∀ others, reader ⟨r.next, body ++ line :: others⟩ = .error refusal

namespace RefusesInOrder

/-- **A line is read, and then the rest.** -/
theorem line (what : String) {f : Line → Reading β} {g : β → Remaining → Reading α} {k : Line × Remaining → Reading α}
    (hk : ∀ line rest, k (line, rest) = f line >>= fun b => g b rest) (hf : ∀ line, RefusesOn line (f line))
    (hg : ∀ b, RefusesInOrder (g b)) : RefusesInOrder (fun rest => rest.line what >>= k) := by
  have hcons : ∀ next text lines, ((⟨next, text :: lines⟩ : Remaining).line what >>= k) =
      f ⟨next, text⟩ >>= fun b => g b ⟨next + 1, lines⟩ := fun next text lines => hk ⟨next, text⟩ ⟨next + 1, lines⟩
  refine ⟨?_⟩
  rintro ⟨next, lines⟩ refusal h
  cases lines with
  | nil => exact .inl ⟨what, next, (Except.error.inj h).symm⟩
  | cons text lines =>
    rw [hcons] at h
    cases hb : f ⟨next, text⟩ with
    | error refusal' =>
      rw [hb] at h
      obtain rfl := Except.error.inj h
      refine .inr ⟨[], text, lines, rfl, (hf ⟨next, text⟩).of_error _ hb, fun others => ?_⟩
      rw [List.nil_append, hcons, hb]
      rfl
    | ok b =>
      rw [hb] at h
      refine ((hg b).of_error ⟨next + 1, lines⟩ refusal h).imp id ?_
      rintro ⟨body, line, rest, rfl, hon, hsame⟩
      refine ⟨text :: body, line, rest, rfl, ?_, fun others => ?_⟩
      · have hnumber : next + (text :: body).length = next + 1 + body.length := by
          rw [List.length_cons]
          omega
        rwa [hnumber]
      · rw [List.cons_append, hcons, hb]
        exact hsame others

/-- **So are lines that are read one after the other.** -/
theorem each (what : String) {read : σ → Line → Reading σ} {k : σ × Remaining → Reading α}
    (hread : ∀ s line, RefusesOn line (read s line)) (hk : ∀ s, RefusesInOrder (fun rest => k (s, rest))) :
    ∀ (count : Nat) (s : σ), RefusesInOrder (fun rest => readEach what read count s rest >>= k)
  | 0, s => hk s
  | count + 1, s => by
    simp only [readEach, bind_assoc]
    exact line what (fun _ _ => rfl) (hread s) fun s => each what hread hk count s

/-- **The settings line is the last that is read**, if there is one. -/
theorem optional {f : Line → Reading β} {standard : β} {k : β × Remaining → α} (hf : ∀ line, RefusesOn line (f line)) :
    RefusesInOrder (fun rest => do
      let found ← (match rest.line? with
        | some (line, rest) => do return (← f line, rest)
        | none => .ok (standard, rest) : Reading (β × Remaining))
      return k found) := by
  refine ⟨?_⟩
  rintro ⟨next, lines⟩ refusal h
  cases lines with
  | nil => cases h
  | cons text lines =>
    replace h : ((do return (← f ⟨next, text⟩, ⟨next + 1, lines⟩) : Reading (β × Remaining)) >>=
      fun found => pure (k found)) = .error refusal := h
    cases hb : f ⟨next, text⟩ with
    | ok b =>
      rw [hb] at h
      cases h
    | error refusal' =>
      rw [hb] at h
      obtain rfl := Except.error.inj h
      refine .inr ⟨[], text, lines, rfl, (hf ⟨next, text⟩).of_error _ hb, fun others => ?_⟩
      show ((do return (← f ⟨next, text⟩, ⟨next + 1, others⟩) : Reading (β × Remaining)) >>=
        fun found => pure (k found)) = .error refusal'
      rw [hb]
      rfl

end RefusesInOrder

theorem MachineDescription.read_refusesInOrder (mode : TapeMode) : RefusesInOrder (read mode) := by
  unfold read
  refine .line "header" (fun _ _ => rfl) (readHeader_refusesOn mode) fun header => ?_
  refine .line "tape symbols" (fun _ _ => rfl) (readSymbols_refusesOn mode header) fun m => ?_
  refine .line "transition count" (fun _ _ => rfl) readCount_refusesOn fun count => ?_
  rw [readTransitions_eq_readEach]
  refine .each "transition" readTransition_refusesOn (fun m => ?_) count m
  exact .optional (Settings.read_refusesOn m.alphabet.input)

theorem AutomatonDescription.read_refusesInOrder : RefusesInOrder read := by
  unfold read
  refine .line "header" (fun _ _ => rfl) readHeader_refusesOn fun header => ?_
  refine .line "input alphabet" (fun _ _ => rfl) (readSymbols_refusesOn header) fun d => ?_
  refine .line "accepting states" (fun _ _ => rfl) (readAccepting_refusesOn d header.acceptingCount) fun d => ?_
  rw [readTransitions_eq_readEach]
  refine .each "transition" readTransition_refusesOn (fun d => ?_) header.transitionCount d
  exact .optional (Settings.readAutomaton_refusesOn d.input)

/-! ## Texts that begin alike -/

/-- Another text within the limit whose first lines are those of a text. -/
structure BeginsAlike (count : Nat) (text other : String) : Prop where
  size : other.utf8ByteSize ≤ maxDescriptionSize
  lines : (Text.lines other.toList).take count = (Text.lines text.toList).take count

theorem exists_others (further : Nat) {start rest lines : List α}
    (h : lines.take (start.length + further) = (start ++ rest).take (start.length + further)) :
    ∃ others, lines = start ++ others ∧ others.take further = rest.take further := by
  rw [List.take_length_add_append] at h
  obtain ⟨others, rfl⟩ : start <+: lines := List.IsPrefix.trans ⟨_, h.symm⟩ (List.take_prefix ..)
  rw [List.take_length_add_append] at h
  exact ⟨others, rfl, List.append_cancel_left h⟩

/-- What a refusal comes to in a text. -/
def Refusal.inText (text : String) : Refusal → Error
  | .error e => e
  | .layout number expectation => .ofFault (.layout (picture text.toList number expectation))

theorem readDescription_of_refused {reader : Remaining → Reading α} {text : String} {refusal : Refusal}
    (hsize : text.utf8ByteSize ≤ maxDescriptionSize) (h : reader ⟨1, Text.lines text.toList⟩ = .error refusal) :
    readDescription reader text = .error (refusal.inText text) := by
  rw [readDescription, if_neg (Nat.not_lt.2 hsize), h]
  cases refusal <;> rfl

/-- **What a text is refused for on a line, every text that begins with the same lines is refused for.** -/
theorem RefusesInOrder.readDescription_error {reader : Remaining → Reading α} (h : RefusesInOrder reader)
    {text : String} {e : Error} (hsize : text.utf8ByteSize ≤ maxDescriptionSize)
    (herror : readDescription reader text = .error e) :
    (∃ what number, e = .ofFault (.missingLine what number)) ∨
    ∃ (number : Nat) (refusal : Refusal), (1 ≤ number ∧ number ≤ (Text.lines text.toList).length) ∧ refusal.On number ∧
      e = refusal.inText text ∧
      ∀ other, BeginsAlike number text other → readDescription reader other = .error (refusal.inText other) := by
  cases hread : reader ⟨1, Text.lines text.toList⟩ with
  | ok a => cases ((readDescription_ok_iff ..).2 ⟨hsize, hread⟩).symm.trans herror
  | error refusal =>
    obtain rfl := Except.error.inj ((readDescription_of_refused hsize hread).symm.trans herror)
    refine (h.of_error _ refusal hread).imp ?_ ?_
    · rintro ⟨what, number, rfl⟩
      exact ⟨what, number, rfl⟩
    · rintro ⟨body, line, rest, (hlines : Text.lines text.toList = _), hon, hsame⟩
      refine ⟨1 + body.length, refusal, ⟨Nat.le_add_right .., ?_⟩, hon, rfl, fun other hother => ?_⟩
      · rw [hlines, List.length_append, List.length_cons]
        omega
      · have hstart := hother.lines
        have hlength : (body ++ [line]).length = 1 + body.length := by
          rw [List.length_append, List.length_singleton, Nat.add_comm]
        rw [hlines, List.append_cons, ← hlength] at hstart
        obtain ⟨others, hothers, -⟩ := exists_others 0 hstart
        rw [List.append_assoc] at hothers
        refine readDescription_of_refused hother.size ?_
        rw [hothers]
        exact hsame others

/-! ## What comes after the settings -/

/-- A line that may be missing is read, or missing, in all lines that begin alike. -/
theorem optional_of_same {read : Line → Reading β} {standard b : β} {number : Nat}
    {lines others rest : List (List Char)}
    (h : lines = [] ∧ standard = b ∧ rest = [] ∨ ∃ line, lines = line :: rest ∧ read ⟨number, line⟩ = .ok b)
    (hsame : others.take 1 = lines.take 1) :
    ∃ rest', others = [] ∧ standard = b ∧ rest' = [] ∨
      ∃ line, others = line :: rest' ∧ read ⟨number, line⟩ = .ok b := by
  rcases h with ⟨rfl, rfl, rfl⟩ | ⟨line, rfl, hread⟩
  · rw [List.take_nil, List.take_eq_nil_iff] at hsame
    exact ⟨[], .inl ⟨hsame.resolve_left Nat.one_ne_zero, rfl, rfl⟩⟩
  · cases others with
    | nil => cases hsame
    | cons line' others =>
      obtain ⟨rfl, -⟩ := List.cons.inj hsame
      exact ⟨others, .inr ⟨line', rfl, hread⟩⟩

namespace MachineDescription

theorem Ending.of_same {a : InputAlphabet} {number : Nat} {rest others comments : List (List Char)} {s : Settings}
    (h : Ending a number rest s comments) (hsame : others.take 1 = rest.take 1) :
    ∃ comments', Ending a number others s comments' := by
  have hread := (Remaining.optional_ok_iff ⟨number, rest⟩ ..).1 ((readSettings_ok_iff a ⟨number, rest⟩ ..).2 h)
  obtain ⟨comments', hothers⟩ := optional_of_same hread hsame
  refine ⟨comments', (readSettings_ok_iff a ⟨number, others⟩ ..).1 ?_⟩
  exact (Remaining.optional_ok_iff ⟨number, others⟩ ..).2 hothers

/-- **The lines up to the settings have all contents but the comments.** -/
theorem Written.of_same {mode : TapeMode} {lines others : List (List Char)} {c : Contents} (h : Written mode lines c)
    (hsame : others.take (4 + c.transitions.length) = lines.take (4 + c.transitions.length)) :
    ∃ comments, Written mode others { c with comments } := by
  obtain ⟨header, symbols, count, body, rest, tapeSize, inputSize, rfl, hheader, hsymbols, hcount, hall, hnodup,
    hending⟩ := h
  have hlength : 4 + c.transitions.length = (header :: symbols :: count :: body).length + 1 := by
    simp only [List.length_cons, hall.length_eq]
    omega
  rw [hlength] at hsame
  obtain ⟨others, rfl, hrest⟩ := exists_others 1 hsame
  obtain ⟨comments, hending⟩ := hending.of_same hrest
  exact ⟨comments, header, symbols, count, body, others, tapeSize, inputSize, rfl, hheader, hsymbols, hcount, hall,
    hnodup, hending⟩

end MachineDescription

namespace AutomatonDescription

theorem Ending.of_same {a : InputAlphabet} {number : Nat} {rest others comments : List (List Char)}
    {c : SimulationConfig} (h : Ending a number rest c comments) (hsame : others.take 1 = rest.take 1) :
    ∃ comments', Ending a number others c comments' := by
  have hread := (Remaining.optional_ok_iff ⟨number, rest⟩ ..).1 ((readSettings_ok_iff a ⟨number, rest⟩ ..).2 h)
  obtain ⟨comments', hothers⟩ := optional_of_same hread hsame
  refine ⟨comments', (readSettings_ok_iff a ⟨number, others⟩ ..).1 ?_⟩
  exact (Remaining.optional_ok_iff ⟨number, others⟩ ..).2 hothers

theorem Written.of_same {lines others : List (List Char)} {c : Contents} (h : Written lines c)
    (hsame : others.take (4 + c.transitions.length) = lines.take (4 + c.transitions.length)) :
    ∃ comments, Written others { c with comments } := by
  obtain ⟨header, symbols, accepting, body, rest, inputSize, rfl, hheader, hsymbols, haccepting, hall, hnodup,
    hending⟩ := h
  have hlength : 4 + c.transitions.length = (header :: symbols :: accepting :: body).length + 1 := by
    simp only [List.length_cons, hall.length_eq]
    omega
  rw [hlength] at hsame
  obtain ⟨others, rfl, hrest⟩ := exists_others 1 hsame
  obtain ⟨comments, hending⟩ := hending.of_same hrest
  exact ⟨comments, header, symbols, accepting, body, others, inputSize, rfl, hheader, hsymbols, haccepting, hall,
    hnodup, hending⟩

end AutomatonDescription

/-! ## Deciding in order -/

/-- A parser that decides a text from left to right.  `settingsLine` is the number of the settings line of what it
reads, whether the text has one or not, and `withComments` puts other comments in place of those that were read. -/
structure DecidedInOrder (parse : String → Result α) (settingsLine : α → Nat) (withComments : α → String → α) :
    Prop where
  /-- An error names one line in front of its words, and is there whatever comes after the line.  (The picture of a
  fault of layout may show more of the text, and it takes the whole of it to miss a line.) -/
  refused : ∀ text e, text.utf8ByteSize ≤ maxDescriptionSize → parse text = .error e → e.kind ≠ .layout →
    (∀ what number, e ≠ .ofFault (.missingLine what number)) → ∃ (number : Nat) (words : String),
      (1 ≤ number ∧ number ≤ (Text.lines text.toList).length) ∧ e.cause = s!"line {number}: " ++ words ∧
      (∀ n : Nat, ¬ s!"line {n}: ".toList <+: words.toList) ∧
      ∀ other, BeginsAlike number text other → parse other = .error e
  misplaced : ∀ text e, text.utf8ByteSize ≤ maxDescriptionSize → parse text = .error e → e.kind = .layout →
    ∃ number expectation, (1 ≤ number ∧ number ≤ (Text.lines text.toList).length) ∧
      e = .ofFault (.layout (picture text.toList number expectation)) ∧
      ∀ other, BeginsAlike number text other →
        parse other = .error (.ofFault (.layout (picture other.toList number expectation)))
  accepted : ∀ text a, parse text = .ok a → ∀ other, BeginsAlike (settingsLine a) text other →
    ∃ comments, parse other = .ok (withComments a comments)

theorem RefusesInOrder.decided {reader : Remaining → Reading α} (h : RefusesInOrder reader) {settingsLine : α → Nat}
    {withComments : α → String → α} (haccepted : ∀ text a, readDescription reader text = .ok a →
      ∀ other, BeginsAlike (settingsLine a) text other → ∃ comments,
        readDescription reader other = .ok (withComments a comments)) :
    DecidedInOrder (readDescription reader) settingsLine withComments where
  refused text e hsize herror hkind hpresent := by
    rcases h.readDescription_error hsize herror with
      ⟨what, number, hmissing⟩ | ⟨number, refusal, hrange, hon, rfl, hsame⟩
    · exact absurd hmissing (hpresent what number)
    · cases hon with
      | layout => exact absurd rfl hkind
      | @error fault hworded =>
        refine ⟨number, fault.cause, hrange, ?_, (Fault.unmarked_cause hworded).not_line, hsame⟩
        simp [Refusal.inText, Error.cause]
  misplaced text e hsize herror hkind := by
    rcases h.readDescription_error hsize herror with ⟨what, number, rfl⟩ | ⟨number, refusal, hrange, hon, rfl, hsame⟩
    · cases hkind
    · cases hon with
      | layout expectation => exact ⟨number, expectation, hrange, rfl, hsame⟩
      | error hworded => exact absurd hkind (Fault.kind_ne_layout hworded)
  accepted := haccepted

/-- **Descriptions are decided from left to right**, those of machines, whatever the tape, and those of automata. -/
theorem descriptions_decided_in_order :
    (∀ mode, DecidedInOrder (MachineDescription.parse mode) (fun d => 4 + d.machine.table.definedCount)
      (fun d comments => { d with comments })) ∧
    DecidedInOrder AutomatonDescription.parse (fun d => 4 + d.automaton.definedCount)
      (fun d comments => { d with comments }) := by
  refine ⟨fun mode => (MachineDescription.read_refusesInOrder mode).decided ?machines,
    AutomatonDescription.read_refusesInOrder.decided ?automata⟩
  case machines =>
    intro text d hd other hother
    obtain ⟨-, hread⟩ := (readDescription_ok_iff ..).1 hd
    obtain ⟨c, hwritten, rfl⟩ := MachineDescription.written_of_read hread
    have hstart := hother.lines
    rw [hwritten.describes.count] at hstart
    obtain ⟨comments, hwritten⟩ := hwritten.of_same hstart
    exact ⟨_, (readDescription_ok_iff ..).2 ⟨hother.size, hwritten.read_ok⟩⟩
  case automata =>
    intro text d hd other hother
    obtain ⟨-, hread⟩ := (readDescription_ok_iff ..).1 hd
    obtain ⟨c, hwritten, rfl⟩ := AutomatonDescription.written_of_read hread
    have hstart := hother.lines
    rw [hwritten.describes.definedCount] at hstart
    obtain ⟨comments, hwritten⟩ := hwritten.of_same hstart
    exact ⟨_, (readDescription_ok_iff ..).2 ⟨hother.size, hwritten.read_ok⟩⟩

/-- A header that is refused is refused in front of anything, and under a settings line anything is a comment. -/
theorem header_and_settings_decide :
    (∀ other, BeginsAlike 1 "3 x 2" other →
      MachineDescription.parse .leftEnd other = .error ⟨.notNumber "tape alphabet size" "x", [1]⟩) ∧
    (∀ other, BeginsAlike 1 "1  1" other →
      ∃ picture, AutomatonDescription.parse other = .error (.ofFault (.layout picture))) ∧
    ∀ other, BeginsAlike 4 "3 3 2\n0 1\n0\n1 0 2 default 0110" other →
      ∃ d, MachineDescription.parse .twoWay other = .ok d ∧ d.config = ⟨0, 4, [0, 1, 1, 0], 1, .unbounded⟩ := by
  obtain ⟨onMachines, onAutomata⟩ := descriptions_decided_in_order
  refine ⟨?refused, ?misplaced, ?accepted⟩
  case refused =>
    have herror : MachineDescription.parse .leftEnd "3 x 2" = .error ⟨.notNumber "tape alphabet size" "x", [1]⟩ := by
      decide +kernel
    obtain ⟨number, -, hrange, -, -, hsame⟩ :=
      (onMachines .leftEnd).refused _ _ (by decide +kernel) herror nofun nofun
    have hlines : (Text.lines "3 x 2".toList).length = 1 := by decide +kernel
    obtain rfl : number = 1 := by omega
    exact hsame
  case misplaced =>
    have herror : AutomatonDescription.parse "1  1" =
        .error (.ofFault (.layout (picture "1  1".toList 1 .fields))) := by decide +kernel
    obtain ⟨number, expectation, hrange, -, hsame⟩ := onAutomata.misplaced _ _ (by decide +kernel) herror rfl
    have hlines : (Text.lines "1  1".toList).length = 1 := by decide +kernel
    obtain rfl : number = 1 := by omega
    exact fun other hother => ⟨_, hsame other hother⟩
  case accepted =>
    have hread : (fun d => (d.config, d.machine.table.definedCount)) <$>
        MachineDescription.readOver .twoWay ["0", "1"] 2 (.binary .twoWay)
          ⟨1, ["3 3 2", "0 1", "0", "1 0 2 default 0110"].map String.toList⟩ =
        .ok (⟨0, 4, [0, 1, 1, 0], 1, .unbounded⟩, 0) := by decide +kernel
    obtain ⟨d, hd, hresult⟩ := (Result.map_ok_iff ..).1 hread
    obtain ⟨hconfig, hcount⟩ := Prod.mk.inj hresult
    have hd := MachineDescription.parse_ok_of_readOver (Alphabet.ofList_binary .twoWay) (by decide) (by decide) hd
    intro other hother
    have hstart : BeginsAlike (4 + d.machine.table.definedCount) "3 3 2\n0 1\n0\n1 0 2 default 0110" other := by
      rw [hcount]
      exact hother
    obtain ⟨comments, hother⟩ := (onMachines .twoWay).accepted _ d hd other hstart
    exact ⟨_, hother, hconfig⟩

end BoundedTuring
