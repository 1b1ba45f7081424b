import BoundedTuring.Description.Machine
import BoundedTuring.Proofs.Description.Reading
import BoundedTuring.Proofs.Machine.Registration
import Mathlib.Data.List.Forall2
/-!
# The format of machine descriptions

`Written` says, line by line, which descriptions are in the format and what they describe, in terms of the fields and
numerals on the lines and of nothing the reader does.  Each reader of a line accepts exactly the lines of its kind, and
a line of a transition only if the key is free in the table that has been built so far.
-/
namespace BoundedTuring
namespace MachineDescription

open Text (HasFields IsNumeral)

/-! ## The lines -/

/-- The line with the numbers of states, of tape symbols and of input symbols. -/
structure HeaderLine (mode : TapeMode) (line : List Char) (states tapeSize inputSize : Nat) : Prop where
  fields : ∃ n t i, HasFields line [n, t, i] ∧ IsNumeral n states ∧ IsNumeral t tapeSize ∧ IsNumeral i inputSize
  states_range : minStateCount ≤ states ∧ states ≤ maxStateCount
  room : mode.specialSymbols.length ≤ tapeSize

/-- The line with the tape symbols that are not special, from which the alphabet is made. -/
def SymbolsLine (mode : TapeMode) (line : List Char) (tapeSize inputSize : Nat) (a : Alphabet) : Prop :=
  ∃ names, HasFields line names ∧ names.length = tapeSize - mode.specialSymbols.length ∧
    Alphabet.ofList names inputSize mode = .ok a

def CountLine (line : List Char) (count : Nat) : Prop := ∃ c, HasFields line [c] ∧ IsNumeral c count

/-- The line of a transition of a machine over an alphabet with some number of states.  Only a tape with a left end has
a marker: on a two-way tape a user symbol may have its name, and is a symbol like any other. -/
structure TransitionLine (a : Alphabet) (states : Nat) (line : List Char) (e : Entry) : Prop where
  fields : ∃ q read r write direction, HasFields line [q, read, r, write, direction] ∧
    IsNumeral q e.1.state ∧ a.symbols[e.1.symbol]? = some read ∧ IsNumeral r e.2.next ∧
    a.symbols[e.2.write]? = some write ∧ e.2.direction.letter = direction ∧
    (a.mode = .leftEnd → read = markerName → write = markerName ∧ direction = "R")
  state_lt : e.1.state < states - 2
  next_lt : e.2.next < states

/-- The lines after the transitions: none, or a settings line, which may be empty, and comments. -/
inductive Ending (a : InputAlphabet) (number : Nat) : List (List Char) → Settings → List (List Char) → Prop
  | absent : Ending a number [] .standard []
  | empty (comments : List (List Char)) : Ending a number ([] :: comments) .standard comments
  | settings {line : List Char} {s : Settings} (comments : List (List Char))
    (h : Settings.read a ⟨number, line⟩ = .ok s) : Ending a number (line :: comments) s comments

/-! ## The whole -/

/-- What a description says. -/
structure Contents where
  states : Nat
  alphabet : Alphabet
  /-- The transitions in the order of their lines. -/
  transitions : List Entry
  settings : Settings
  comments : List (List Char)

/-- The lines of a description with certain contents. -/
def Written (mode : TapeMode) (lines : List (List Char)) (c : Contents) : Prop :=
  ∃ header symbols count body rest tapeSize inputSize,
    lines = header :: symbols :: count :: (body ++ rest) ∧
    HeaderLine mode header c.states tapeSize inputSize ∧
    SymbolsLine mode symbols tapeSize inputSize c.alphabet ∧
    CountLine count body.length ∧
    List.Forall₂ (TransitionLine c.alphabet c.states) body c.transitions ∧
    (c.transitions.map Prod.fst).Nodup ∧
    Ending c.alphabet.input (4 + body.length) rest c.settings c.comments

/-! ## Reading the first lines -/

theorem readHeader_ok_iff (mode : TapeMode) (line : Line) (h : Header) :
    readHeader mode line = .ok h ↔ ∃ tapeSize, HeaderLine mode line.text h.states tapeSize h.inputSize ∧
      h.userSize = tapeSize - mode.specialSymbols.length := by
  unfold readHeader
  rw [Result.bind_ok_iff]
  constructor
  · rintro ⟨fields, hfields, hread⟩
    rw [Line.fields_ok_iff] at hfields
    split at hread
    · rename_i n t i
      simp only [Result.bind_ok_iff, Line.readNumber_ok_iff, Line.check_ok_iff] at hread
      obtain ⟨states, hn, tapeSize, ht, inputSize, hi, _, hstates, hread⟩ := hread
      split at hread
      · simp at hread
      · rename_i hroom
        obtain rfl := (Result.pure_ok_iff ..).1 hread
        have hrange := (Table.checkStateCount_ok_iff states).1 hstates
        exact ⟨tapeSize, ⟨⟨n, t, i, hfields, hn, ht, hi⟩, hrange, Nat.le_of_not_lt hroom⟩, rfl⟩
    · simp at hread
  · rintro ⟨tapeSize, ⟨⟨n, t, i, hfields, hn, ht, hi⟩, hrange, hroom⟩, huser⟩
    have hstates := (Table.checkStateCount_ok_iff h.states).2 hrange
    refine ⟨[n, t, i], (Line.fields_ok_iff ..).2 hfields, ?_⟩
    simp only [Result.bind_ok_iff, Line.readNumber_ok_iff, Line.check_ok_iff]
    refine ⟨h.states, hn, tapeSize, ht, h.inputSize, hi, (), hstates, ?_⟩
    rw [if_neg (Nat.not_lt.2 hroom), Result.pure_ok_iff, ← huser]

/-- The machine that is made before any transition is read. -/
def blankMachine (states : Nat) (a : Alphabet) : Machine :=
  ⟨a, Table.blankSlate states a.size a.marker? true⟩

theorem readSymbols_ok_iff (mode : TapeMode) (h : Header) (line : Line) (m : Machine) {tapeSize : Nat}
    (hstates : minStateCount ≤ h.states ∧ h.states ≤ maxStateCount)
    (huser : h.userSize = tapeSize - mode.specialSymbols.length) :
    readSymbols mode h line = .ok m ↔
      ∃ a, SymbolsLine mode line.text tapeSize h.inputSize a ∧ blankMachine h.states a = m := by
  unfold readSymbols SymbolsLine
  simp only [Result.bind_ok_iff, Line.fieldsOf_ok_iff, Line.check_ok_iff, Machine.empty_ok_iff, Table.empty_ok_iff,
    huser]
  constructor
  · rintro ⟨names, ⟨hfields, hlength⟩, halphabet, -, htable⟩
    exact ⟨m.alphabet, ⟨names, hfields, hlength, halphabet⟩, by rw [blankMachine, htable]⟩
  · rintro ⟨a, ⟨names, hfields, hlength, halphabet⟩, rfl⟩
    exact ⟨names, ⟨hfields, hlength⟩, halphabet, hstates, rfl⟩

theorem readCount_ok_iff (line : Line) (count : Nat) : readCount line = .ok count ↔ CountLine line.text count := by
  unfold readCount CountLine
  rw [Result.bind_ok_iff]
  constructor
  · rintro ⟨fields, hfields, hread⟩
    split at hread
    · rename_i c
      exact ⟨c, (Line.fields_ok_iff ..).1 hfields, (Line.readNumber_ok_iff ..).1 hread⟩
    · simp at hread
  · rintro ⟨c, hfields, hc⟩
    exact ⟨[c], (Line.fields_ok_iff ..).2 hfields, (Line.readNumber_ok_iff ..).2 hc⟩

/-! ## Reading transitions -/

section Transitions

variable {m : Machine}

/-- **Within the bounds of the table and by its rule for the marker** is, in names, what a line must say. -/
theorem admitted_iff_named (hm : m.Reachable) (hstill : m.table.stillAllowed = true) {key : Key} {t : Transition}
    {read write : String} (hread : m.alphabet.symbols[key.symbol]? = some read)
    (hwrite : m.alphabet.symbols[t.write]? = some write) :
    m.table.InRange key ∧ m.table.Admits key t ↔ key.state < m.stateCount - 2 ∧ t.next < m.stateCount ∧
      (m.alphabet.mode = .leftEnd → read = markerName → write = markerName ∧ t.direction.letter = "R") := by
  have hsize := hm.table.alphabetSize_eq
  have hmarker := hm.table.marker_eq
  have hname := hm.built.marker?_eq_some_iff_name hread
  have hreadLt : key.symbol < m.alphabet.size := (Array.getElem?_eq_some_iff.1 hread).1
  have hwriteLt : t.write < m.alphabet.size := (Array.getElem?_eq_some_iff.1 hwrite).1
  have hright : t.direction.letter = "R" ↔ t.direction = .right := by cases t.direction <;> decide
  constructor
  · rintro ⟨⟨hstate, -⟩, ⟨hnext, -, -, hrule⟩⟩
    refine ⟨hstate, hnext, fun hmode hmarked => ?_⟩
    obtain ⟨hsame, hdirection⟩ := hrule (hmarker.trans (hname.2 ⟨hmode, hmarked⟩))
    rw [hsame, hread] at hwrite
    exact ⟨(Option.some.inj hwrite).symm.trans hmarked, hright.2 hdirection⟩
  · rintro ⟨hstate, hnext, hrule⟩
    refine ⟨⟨hstate, hsize ▸ hreadLt⟩, hnext, hsize ▸ hwriteLt, fun _ => hstill, fun hmark => ?_⟩
    obtain ⟨hmode, hmarked⟩ := hname.1 (hmarker.symm.trans hmark)
    obtain ⟨hwritten, hletter⟩ := hrule hmode hmarked
    refine ⟨?_, hright.1 hletter⟩
    have hindex := (hm.built.indexOf?_eq_some_iff write t.write).2 hwrite
    rw [hwritten, ← hmarked, (hm.built.indexOf?_eq_some_iff read key.symbol).2 hread] at hindex
    exact (Option.some.inj hindex).symm

/-- The registration that a line asks for is valid. -/
theorem TransitionLine.valid (hm : m.Reachable) (hstill : m.table.stillAllowed = true) {line : List Char} {e : Entry}
    (hline : TransitionLine m.alphabet m.stateCount line e) : m.table.InRange e.1 ∧ m.table.Admits e.1 e.2 := by
  obtain ⟨q, read, r, write, direction, -, -, hread, -, hwrite, hletter, hrule⟩ := hline.fields
  exact (admitted_iff_named hm hstill hread hwrite).2
    ⟨hline.state_lt, hline.next_lt, fun hmode hmarked => hletter ▸ hrule hmode hmarked⟩

/-- It succeeds if its key is free. -/
theorem TransitionLine.put_ok (hm : m.Reachable) (hstill : m.table.stillAllowed = true) {line : List Char} {e : Entry}
    (hline : TransitionLine m.alphabet m.stateCount line e) (hfree : m.table.view.at? e.1 = none) :
    ∃ u, m.table.put e.1 e.2 false = .ok u := by
  obtain ⟨hin, hadmits⟩ := hline.valid hm hstill
  exact (Table.put_succeeds_iff ..).2 ⟨hin, hadmits, .inl hfree⟩

/-- **A transition is read from a line of its kind whose key is free.** -/
theorem readTransition_ok_iff (hm : m.Reachable) (hstill : m.table.stillAllowed = true) (line : Line) (m' : Machine) :
    readTransition m line = .ok m' ↔ ∃ e, TransitionLine m.alphabet m.stateCount line.text e ∧
      m.table.view.at? e.1 = none ∧ m.edit (.put e.1 e.2 false) = m' := by
  unfold readTransition
  rw [Result.bind_ok_iff]
  constructor
  · rintro ⟨fields, hfields, hread⟩
    rw [Line.fields_ok_iff] at hfields
    split at hread
    · rename_i q read r write direction
      simp only [Result.bind_ok_iff, Line.readNumber_ok_iff, Line.check_ok_iff, Result.pure_ok_iff] at hread
      obtain ⟨state, hq, next, hr, ⟨key, m''⟩, hput, rfl⟩ := hread
      obtain ⟨i, j, d, hi, hj, hd, -, hput⟩ := (Machine.putByName_ok_iff ..).1 hput
      have hi := (hm.built.indexOf?_eq_some_iff read i).1 hi
      have hj := (hm.built.indexOf?_eq_some_iff write j).1 hj
      obtain ⟨u, htable, -⟩ := (Machine.put_ok_iff_table ..).1 hput
      obtain ⟨hin, hadmits, hfree⟩ := (Table.put_succeeds_iff ..).1 ⟨u, htable⟩
      obtain ⟨hstate, hnext, hrule⟩ := (admitted_iff_named hm hstill hi hj).1 ⟨hin, hadmits⟩
      refine ⟨(⟨state, i⟩, ⟨next, j, d⟩), ⟨?_, hstate, hnext⟩, hfree.resolve_right Bool.false_ne_true, ?_⟩
      · exact ⟨q, read, r, write, direction, hfields, hq, hi, hr, hj, hd, hd ▸ hrule⟩
      · rw [Machine.edit, hput]
        rfl
    · simp at hread
  · rintro ⟨⟨key, t⟩, hline, hfree, rfl⟩
    obtain ⟨u, hu⟩ := hline.put_ok hm hstill hfree
    obtain ⟨q, read, r, write, direction, hfields, hq, hread, hr, hwrite, hd, -⟩ := hline.fields
    refine ⟨[q, read, r, write, direction], (Line.fields_ok_iff ..).2 hfields, ?_⟩
    simp only [Result.bind_ok_iff, Line.readNumber_ok_iff, Line.check_ok_iff, Result.pure_ok_iff]
    have hput : m.put key t false = .ok { m with table := u } := (Machine.put_ok_iff_table ..).2 ⟨u, hu, rfl⟩
    refine ⟨key.state, hq, t.next, hr, (key, m.edit (.put key t false)), ?_, rfl⟩
    refine (Machine.putByName_ok_iff ..).2 ⟨key.symbol, t.write, t.direction, ?_, ?_, hd, rfl, ?_⟩
    · exact (hm.built.indexOf?_eq_some_iff ..).2 hread
    · exact (hm.built.indexOf?_eq_some_iff ..).2 hwrite
    · rw [Machine.edit, hput]
      rfl

end Transitions

end MachineDescription
end BoundedTuring
