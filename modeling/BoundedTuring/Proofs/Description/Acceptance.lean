import BoundedTuring.Proofs.Description.Entries
import BoundedTuring.Proofs.Description.Format
/-!
# Which texts are descriptions

The lines of transitions are read one after the other, each into the table that those before it made, which drops out
of what is accepted (`readTransitions_ok_iff`): lines are read if they are in the format (`written_of_read`,
`Written.read_ok`), and then the machine has the transitions on them and no others (`Written.describes`).
-/
namespace BoundedTuring
namespace MachineDescription

open Table (View)

/-! ## The transitions -/

/-- Entries of different keys, none of which a map has. -/
def Fresh (v : View) (entries : List Entry) : Prop :=
  (entries.map Prod.fst).Nodup ∧ ∀ e ∈ entries, v.at? e.1 = none

section Transitions

variable {m : Machine}

/-- What the registration that a line asks for leaves. -/
theorem TransitionLine.edit_put (hm : m.Reachable) (hstill : m.table.stillAllowed = true) {line : List Char} {e : Entry}
    (hline : TransitionLine m.alphabet m.stateCount line e) (hfree : m.table.view.at? e.1 = none) :
    (m.edit (.put e.1 e.2 false)).stateCount = m.stateCount ∧
      (m.edit (.put e.1 e.2 false)).table.stillAllowed = true ∧
      (m.edit (.put e.1 e.2 false)).table.view = m.table.view.insert e.1 e.2 := by
  obtain ⟨u, hu⟩ := hline.put_ok hm hstill hfree
  have hedit : m.edit (.put e.1 e.2 false) = { m with table := u } := by
    rw [Machine.edit, (Machine.put_ok_iff_table ..).2 ⟨u, hu, rfl⟩]
    rfl
  have hb := Table.sameBounds_put hu
  rw [hedit]
  exact ⟨hb.stateCount, hb.stillAllowed.trans hstill, hm.sound.view_put hu⟩

theorem readTransitions_eq_readEach : readTransitions = readEach "transition" readTransition := by
  funext count
  induction count with
  | zero => rfl
  | succ count ih =>
    funext m rest
    rw [readTransitions, readEach, ih]

/-- The transitions of machines over an alphabet with some number of states are read as entries. -/
theorem entryReader (a : Alphabet) (states : Nat) :
    EntryReader (fun m : Machine => m.Reachable ∧ m.table.stillAllowed = true ∧ m.alphabet = a ∧ m.stateCount = states)
      (TransitionLine a states) (fun m => m.table.view.at?) (fun m e => m.edit (.put e.1 e.2 false))
      readTransition where
  ok_iff := by
    rintro m ⟨hm, hstill, rfl, rfl⟩ line m'
    exact readTransition_ok_iff hm hstill line m'
  made := by
    rintro m text e ⟨hm, hstill, rfl, rfl⟩ he hfree
    obtain ⟨hstates, hstill', -⟩ := he.edit_put hm hstill hfree
    exact ⟨hm.edit _, hstill', Machine.edit_alphabet .., hstates⟩
  at?_insert := by
    rintro m text e ⟨hm, hstill, rfl, rfl⟩ he hfree
    obtain ⟨-, -, hview⟩ := he.edit_put hm hstill hfree
    show (m.edit (.put e.1 e.2 false)).table.view.at? = _
    rw [hview]
    rfl

/-- **Transitions are read from lines of their kind with fresh keys**, and are what is registered. -/
theorem readTransitions_ok_iff (count : Nat) {m : Machine} (hm : m.Reachable) (hstill : m.table.stillAllowed = true)
    (rest rest' : Remaining) (m' : Machine) : readTransitions count m rest = .ok (m', rest') ↔
      ∃ body entries, rest.lines = body ++ rest'.lines ∧ body.length = count ∧ rest'.next = rest.next + count ∧
        List.Forall₂ (TransitionLine m.alphabet m.stateCount) body entries ∧ Fresh m.table.view entries ∧
        m.putAll entries = m' := by
  rw [readTransitions_eq_readEach]
  exact (entryReader m.alphabet m.stateCount).readEach_ok_iff _ count ⟨hm, hstill, rfl, rfl⟩ rest rest' m'

end Transitions

/-! ## The whole -/

theorem readSettings_ok_iff (a : InputAlphabet) (rest : Remaining) (s : Settings) (comments : List (List Char)) :
    (∃ next, readSettings a rest = .ok (s, ⟨next, comments⟩)) ↔ Ending a rest.next rest.lines s comments := by
  refine (Remaining.optional_ok_iff rest (Settings.read a) .standard s comments).trans ?_
  generalize rest.lines = lines
  constructor
  · rintro (⟨rfl, rfl, rfl⟩ | ⟨line, rfl, hread⟩)
    · exact .absent
    · exact .settings comments hread
  · intro h
    cases h with
    | absent => exact .inl ⟨rfl, rfl, rfl⟩
    | empty => exact .inr ⟨[], rfl, rfl⟩
    | settings _ hread => exact .inr ⟨_, rfl, hread⟩

/-- The machine with the transitions that are written. -/
def Contents.machine (c : Contents) : Machine := (blankMachine c.states c.alphabet).putAll c.transitions

def Contents.description (c : Contents) : MachineDescription :=
  ⟨c.machine, c.settings.config, c.settings.trace, (⟨0, c.comments⟩ : Remaining).comments⟩

theorem reachable_blankMachine {states : Nat} {a : Alphabet} (hstates : minStateCount ≤ states ∧ states ≤ maxStateCount)
    (ha : a.Built) : (blankMachine states a).Reachable := by
  obtain ⟨userSymbols, inputSize, mode, ha⟩ := ha
  exact .empty ((Machine.empty_ok_iff ..).2 ⟨ha, (Table.empty_ok_iff ..).2 ⟨hstates, rfl⟩⟩)

theorem fresh_blankMachine_iff (states : Nat) (a : Alphabet) (entries : List Entry) :
    Fresh (blankMachine states a).table.view entries ↔ (entries.map Prod.fst).Nodup :=
  and_iff_left fun _ _ => Table.at?_blankSlate ..

/-- **What is read was written in the format.** -/
theorem written_of_read {mode : TapeMode} {lines : List (List Char)} {d : MachineDescription}
    (hread : read mode ⟨1, lines⟩ = .ok d) : ∃ c, Written mode lines c ∧ c.description = d := by
  unfold read at hread
  simp only [Result.bind_ok_iff, Result.pure_ok_iff, readHeader_ok_iff, readCount_ok_iff] at hread
  obtain ⟨⟨line₁, rest₁⟩, hline₁, h, ⟨tapeSize, hheader, huser⟩, ⟨line₂, rest₂⟩, hline₂, m, hsymbols, ⟨line₃, rest₃⟩,
    hline₃, count, hcount, ⟨m', rest₄⟩, htransitions, ⟨s, rest₅⟩, hsettings, rfl⟩ := hread
  obtain ⟨hlines₁, -, (hnext₁ : rest₁.next = 1 + 1)⟩ := (Remaining.line_ok_iff ..).1 hline₁
  obtain ⟨hlines₂, -, (hnext₂ : rest₂.next = rest₁.next + 1)⟩ := (Remaining.line_ok_iff ..).1 hline₂
  obtain ⟨hlines₃, -, (hnext₃ : rest₃.next = rest₂.next + 1)⟩ := (Remaining.line_ok_iff ..).1 hline₃
  obtain ⟨a, ⟨names, hfields, hlength, halphabet⟩, rfl⟩ :=
    (readSymbols_ok_iff mode h line₂ m hheader.states_range huser).1 hsymbols
  have hm := reachable_blankMachine hheader.states_range ⟨names, h.inputSize, mode, halphabet⟩
  obtain ⟨body, entries, hbody, hcountEq, hnext₄, hall, hfresh, rfl⟩ :=
    (readTransitions_ok_iff count hm rfl rest₃ rest₄ m').1 htransitions
  have hending := (readSettings_ok_iff _ rest₄ s rest₅.lines).1 ⟨rest₅.next, hsettings⟩
  refine ⟨⟨h.states, a, entries, s, rest₅.lines⟩, ⟨line₁.text, line₂.text, line₃.text, body, rest₄.lines, tapeSize,
    h.inputSize, ?_, hheader, ⟨names, hfields, hlength, halphabet⟩, hcountEq ▸ hcount, hall,
    (fresh_blankMachine_iff ..).1 hfresh, ?_⟩, rfl⟩
  · rw [← hbody, ← hlines₃, ← hlines₂, ← hlines₁]
  · rw [Machine.putAll_eq] at hending
    have hnumber : rest₄.next = 4 + body.length := by omega
    rwa [hnumber] at hending

/-- **What is written in the format is read.** -/
theorem Written.read_ok {mode : TapeMode} {lines : List (List Char)} {c : Contents} (h : Written mode lines c) :
    read mode ⟨1, lines⟩ = .ok c.description := by
  obtain ⟨header, symbols, count, body, rest, tapeSize, inputSize, rfl, hheader, hsymbols, hcount, hall, hnodup,
    hending⟩ := h
  obtain ⟨names, hfields, hlength, halphabet⟩ := hsymbols
  have hm := reachable_blankMachine hheader.states_range ⟨names, inputSize, mode, halphabet⟩
  have hinput : c.machine.alphabet.input = c.alphabet.input := by
    rw [Contents.machine, Machine.putAll_eq]
    rfl
  rw [← hinput] at hending
  obtain ⟨next, hsettings⟩ := (readSettings_ok_iff c.machine.alphabet.input ⟨4 + body.length, rest⟩ _ _).2 hending
  unfold read
  simp only [Result.bind_ok_iff, Result.pure_ok_iff, readHeader_ok_iff, readCount_ok_iff]
  refine ⟨(⟨1, header⟩, ⟨2, symbols :: count :: (body ++ rest)⟩), rfl,
    ⟨c.states, tapeSize - mode.specialSymbols.length, inputSize⟩, ⟨tapeSize, hheader, rfl⟩,
    (⟨2, symbols⟩, ⟨3, count :: (body ++ rest)⟩), rfl, blankMachine c.states c.alphabet, ?_,
    (⟨3, count⟩, ⟨4, body ++ rest⟩), rfl, body.length, hcount, (c.machine, ⟨4 + body.length, rest⟩), ?_, _,
    hsettings, rfl⟩
  · exact (readSymbols_ok_iff mode _ _ _ hheader.states_range rfl).2 ⟨_, ⟨names, hfields, hlength, halphabet⟩, rfl⟩
  · exact (readTransitions_ok_iff _ hm rfl ..).2
      ⟨body, c.transitions, rfl, rfl, rfl, hall, (fresh_blankMachine_iff ..).2 hnodup, rfl⟩

/-! ## What is described -/

/-- A description with certain contents: its machine has exactly the transitions that are listed, in whatever order. -/
structure Describes (c : Contents) (d : MachineDescription) : Prop where
  reachable : d.machine.Reachable
  alphabet : d.machine.alphabet = c.alphabet
  states : d.machine.stateCount = c.states
  still : d.machine.table.stillAllowed = true
  entries : d.machine.table.entries.Perm c.transitions
  count : d.machine.table.definedCount = c.transitions.length
  config : d.config = c.settings.config
  trace : d.trace = c.settings.trace
  comments : CommentText c.comments d.comments

/-- There is one description with certain contents. -/
theorem Describes.unique {c : Contents} {d d' : MachineDescription} (h : Describes c d) (h' : Describes c d') :
    d = d' := by
  have halphabet : d.machine.alphabet = d'.machine.alphabet := h.alphabet.trans h'.alphabet.symm
  have hb : Table.SameBounds d.machine.table d'.machine.table := by
    refine ⟨h'.states.trans h.states.symm, ?_, ?_, h'.still.trans h.still.symm⟩
    · rw [h'.reachable.table.alphabetSize_eq, h.reachable.table.alphabetSize_eq, halphabet]
    · rw [h'.reachable.table.marker_eq, h.reachable.table.marker_eq, halphabet]
  have htable := h.reachable.sound.ext_perm h'.reachable.sound hb (h.entries.trans h'.entries.symm)
  have hcomments := (Remaining.comments_eq_iff ⟨0, c.comments⟩ _).2 h.comments
  rw [(Remaining.comments_eq_iff ⟨0, c.comments⟩ _).2 h'.comments] at hcomments
  obtain ⟨⟨alphabet, table⟩, config, trace, comments⟩ := d
  obtain ⟨⟨alphabet', table'⟩, config', trace', comments'⟩ := d'
  simp only at halphabet htable hcomments
  rw [halphabet, htable, hcomments, show config = config' from h.config.trans h'.config.symm,
    show trace = trace' from h.trace.trans h'.trace.symm]

theorem exists_line_of_mem {a : Alphabet} {states : Nat} {body : List (List Char)} {entries : List Entry}
    (h : List.Forall₂ (TransitionLine a states) body entries) {e : Entry} (he : e ∈ entries) :
    ∃ line, TransitionLine a states line e := by
  induction h with
  | nil => cases he
  | cons hline _ ih =>
    rcases List.mem_cons.1 he with rfl | he
    · exact ⟨_, hline⟩
    · exact ih he

/-- **What is written is described by what is read.** -/
theorem Written.describes {mode : TapeMode} {lines : List (List Char)} {c : Contents} (h : Written mode lines c) :
    Describes c c.description := by
  obtain ⟨header, symbols, count, body, rest, tapeSize, inputSize, -, hheader, ⟨names, -, -, halphabet⟩, -, hall,
    hnodup, -⟩ := h
  have hblank := reachable_blankMachine hheader.states_range ⟨names, inputSize, mode, halphabet⟩
  have hmachine : c.machine = { blankMachine c.states c.alphabet with
      table := (blankMachine c.states c.alphabet).table.putValid c.transitions } := Machine.putAll_eq ..
  have hb := Table.sameBounds_putValid c.transitions (blankMachine c.states c.alphabet).table
  have hreachable : c.machine.Reachable := hblank.putAll c.transitions
  have hmem : ∀ e, e ∈ c.machine.table.entries ↔ e ∈ c.transitions := fun e => by
    rw [hreachable.sound.mem_entries_iff_at?, hmachine, hblank.sound.at?_putValid_eq_some_iff _
      ⟨hnodup, fun _ _ => Table.at?_blankSlate ..⟩, blankMachine, Table.at?_blankSlate]
    constructor
    · rintro (hnone | ⟨hlisted, -⟩)
      · cases hnone
      · exact hlisted
    · intro hlisted
      obtain ⟨line, hline⟩ := exists_line_of_mem hall hlisted
      exact .inr ⟨hlisted, hline.valid hblank rfl⟩
  have hdistinct : c.machine.table.entries.Nodup :=
    List.Nodup.of_map Prod.fst (Table.nodup_keys_of_ordered (Table.entries_ordered _))
  have hentries : c.machine.table.entries.Perm c.transitions :=
    (List.perm_ext_iff_of_nodup hdistinct (List.Nodup.of_map Prod.fst hnodup)).2 hmem
  refine ⟨hreachable, ?_, ?_, ?_, hentries, ?_, rfl, rfl, (Remaining.comments_eq_iff ⟨0, c.comments⟩ _).1 rfl⟩
  · show c.machine.alphabet = _
    rw [hmachine]
    rfl
  · show c.machine.stateCount = _
    rw [hmachine]
    exact hb.stateCount
  · show c.machine.table.stillAllowed = _
    rw [hmachine]
    exact hb.stillAllowed
  · rw [← hentries.length_eq]
    exact hreachable.sound.length_entries.symm

/-- **A text is read as a description exactly if its lines are in the format and that is what they describe.** -/
theorem parse_ok_iff (mode : TapeMode) (text : String) (d : MachineDescription) :
    parse mode text = .ok d ↔ text.utf8ByteSize ≤ maxDescriptionSize ∧
      ∃ lines c, Text.Lines text.toList lines ∧ Written mode lines c ∧ Describes c d := by
  rw [parse, readDescription_ok_iff]
  refine and_congr_right fun _ => ?_
  constructor
  · intro hread
    obtain ⟨c, hwritten, rfl⟩ := written_of_read hread
    exact ⟨_, c, (Text.lines_iff ..).2 rfl, hwritten, hwritten.describes⟩
  · rintro ⟨lines, c, hlines, hwritten, hd⟩
    rw [(Text.lines_iff ..).1 hlines, hwritten.read_ok, hwritten.describes.unique hd]

/-- **Every machine that is read is one that a history leads to.** -/
theorem reachable_of_parse {mode : TapeMode} {text : String} {d : MachineDescription} (h : parse mode text = .ok d) :
    d.machine.Reachable := by
  obtain ⟨-, lines, c, -, -, hd⟩ := (parse_ok_iff ..).1 h
  exact hd.reachable

/-- **A text is accepted if its lines are in the format, and read as the one description with their contents.** -/
theorem parse_accepts_format (mode : TapeMode) (text : String) :
    ((∃ d, parse mode text = .ok d) ↔ text.utf8ByteSize ≤ maxDescriptionSize ∧
      ∃ lines c, Text.Lines text.toList lines ∧ Written mode lines c) ∧
    ∀ d, parse mode text = .ok d ↔ text.utf8ByteSize ≤ maxDescriptionSize ∧
      ∃ lines c, Text.Lines text.toList lines ∧ Written mode lines c ∧ Describes c d := by
  refine ⟨?_, parse_ok_iff mode text⟩
  simp only [parse_ok_iff]
  constructor
  · rintro ⟨d, hsize, lines, c, hlines, hwritten, -⟩
    exact ⟨hsize, lines, c, hlines, hwritten⟩
  · rintro ⟨hsize, lines, c, hlines, hwritten⟩
    exact ⟨c.description, hsize, lines, c, hlines, hwritten, hwritten.describes⟩

end MachineDescription
end BoundedTuring
