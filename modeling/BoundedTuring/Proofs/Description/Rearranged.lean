import BoundedTuring.Proofs.Alphabet.Reordered
import BoundedTuring.Proofs.Description.Acceptance
import BoundedTuring.Proofs.Description.Automaton.Acceptance
import BoundedTuring.Proofs.Description.Evaluation
import BoundedTuring.Proofs.Text.Endings
import Mathlib.Data.List.Perm.Basic
/-!
# Descriptions in another order

The order of the transitions says nothing, nor that of the symbols of a kind, nor that of the accepting states: an
alphabet is sorted, and contents have one description whatever the order of their transitions (`Describes.unique`).  So
lines can be rearranged (`Rearranged`) and describe the same, in any text that has them as its lines; one of them is the
first text with these lines in the place of its own.
-/
namespace BoundedTuring

open Text (HasFields StandsFor WithinLine endings layOut)

/-! ## Lines rearranged -/

/-- The same line, or one whose fields are those of the first in an order that is as good. -/
inductive FieldsReordered (AsGood : List String → List String → Prop) : List Char → List Char → Prop
  | same (line : List Char) : FieldsReordered AsGood line line
  | reordered {line line' : List Char} {fields fields' : List String} (h : HasFields line fields)
    (h' : HasFields line' fields') (horder : AsGood fields fields') : FieldsReordered AsGood line line'

/-- The lines of a description rearranged: those of its transitions, of which there are `count`, among themselves, and
the second and the third line each in a way of its own. -/
inductive Rearranged (Second Third : List Char → List Char → Prop) (count : Nat) :
    List (List Char) → List (List Char) → Prop
  | intro (header : List Char) {second second' third third' : List Char} (hsecond : Second second second')
    (hthird : Third third third') {body body' : List (List Char)} (hcount : body.length = count)
    (hbody : body.Perm body') (rest : List (List Char)) :
    Rearranged Second Third count (header :: second :: third :: (body ++ rest))
      (header :: second' :: third' :: (body' ++ rest))

/-! ## Their texts -/

theorem intercalate_eq_layOut (separator : Char) : ∀ pieces : List (List Char),
    [separator].intercalate pieces = layOut pieces (List.replicate (pieces.length - 1) [separator])
  | [] => rfl
  | [piece] => List.intercalate_singleton
  | piece :: next :: rest => by
    rw [List.intercalate_cons_cons, intercalate_eq_layOut separator (next :: rest)]
    rfl

theorem intercalate_perm (separator : Char) {pieces pieces' : List (List Char)} (h : pieces.Perm pieces') :
    ([separator].intercalate pieces).Perm ([separator].intercalate pieces') := by
  cases pieces with
  | nil => rw [h.symm.eq_nil]
  | cons piece rest =>
    have hlength := h.length_eq
    rw [intercalate_eq_layOut, intercalate_eq_layOut, ← hlength]
    refine (Text.layOut_perm (by simp)).trans ((h.flatten.append_right _).trans (Text.layOut_perm ?_).symm)
    rw [← hlength]
    simp

theorem FieldsReordered.perm {AsGood : List String → List String → Prop}
    (hperm : ∀ fields fields', AsGood fields fields' → fields.Perm fields') {line line' : List Char}
    (h : FieldsReordered AsGood line line') : line'.Perm line := by
  cases h with
  | same => exact .refl _
  | reordered h h' horder =>
    rw [h.joined, h'.joined]
    exact intercalate_perm ' ' ((hperm _ _ horder).symm.map _)

theorem Text.StandsFor.of_perm {line line' : List Char} (h : line'.Perm line) : StandsFor line line' where
  within hwithin c hc := hwithin c (h.mem_iff.1 hc)
  empty hnil := (hnil ▸ h).symm.eq_nil

theorem Text.HasFields.ne_nil {line : List Char} {fields : List String} (h : HasFields line fields) : line ≠ [] := by
  rintro rfl
  obtain ⟨field, rfl, hfield⟩ := List.map_eq_singleton_iff.1 h.splitOn.symm
  exact (h.each field List.mem_cons_self).1 (String.toList_eq_nil_iff.1 hfield)

namespace Rearranged

variable {Second Third : List Char → List Char → Prop} {count : Nat} {lines lines' : List (List Char)}

/-- **Rearranged lines can stand in a text for those that were**, and have the same characters. -/
theorem standsFor (h : Rearranged Second Third count lines lines') (hsecond : ∀ l l', Second l l' → l'.Perm l)
    (hthird : ∀ l l', Third l l' → l'.Perm l) (hwithin : ∀ line ∈ lines, WithinLine line)
    (hbody : ∀ line ∈ (lines.drop 3).take count, line ≠ []) :
    List.Forall₂ StandsFor lines lines' ∧ lines'.flatten.Perm lines.flatten := by
  obtain ⟨header, hsecond', hthird', rfl, hperm, rest⟩ := h
  rename_i second second' third third' body body'
  have hsecond := hsecond _ _ hsecond'
  have hthird := hthird _ _ hthird'
  rw [List.drop_succ_cons, List.drop_succ_cons, List.drop_succ_cons, List.drop_zero, List.take_left] at hbody
  have hself : ∀ lines : List (List Char), List.Forall₂ StandsFor lines lines := fun lines =>
    List.forall₂_same.2 fun line _ => ⟨id, id⟩
  have hmoved : List.Forall₂ StandsFor body body' := by
    refine List.forall₂_iff_zip.2 ⟨hperm.length_eq, fun {line line'} hmem => ?_⟩
    have hline' : line' ∈ body := hperm.mem_iff.2 (List.of_mem_zip hmem).2
    exact ⟨fun _ => hwithin line' (by simp [hline']), fun hnil => absurd hnil (hbody line' hline')⟩
  constructor
  · refine .cons ⟨id, id⟩ (.cons (.of_perm hsecond) (.cons (.of_perm hthird) ?_))
    exact List.rel_append hmoved (hself rest)
  · simp only [List.flatten_cons, List.flatten_append]
    refine List.Perm.append_left _ (hsecond.append (hthird.append ?_))
    exact hperm.symm.flatten.append_right _

/-- **So the text with these lines in the place of its own has them as its lines, and is as long.** -/
theorem lines_relaid (h : Rearranged Second Third count lines lines') (hsecond : ∀ l l', Second l l' → l'.Perm l)
    (hthird : ∀ l l', Third l l' → l'.Perm l) {text : String} (hlines : Text.Lines text.toList lines)
    (hbody : ∀ line ∈ (lines.drop 3).take count, line ≠ []) :
    Text.Lines (Text.relaid text lines').toList lines' ∧
      (Text.relaid text lines').utf8ByteSize = text.utf8ByteSize := by
  obtain ⟨hall, hperm⟩ := h.standsFor hsecond hthird hlines.withinLine hbody
  refine ⟨?_, Text.utf8ByteSize_relaid hlines hall.length_eq.symm hperm⟩
  rw [Text.relaid, String.toList_ofList]
  exact hlines.lines_layOut hall

end Rearranged

theorem Text.HasFields.unique {line : List Char} {fields fields' : List String} (h : HasFields line fields)
    (h' : HasFields line fields') : fields = fields' :=
  Option.some.inj (((Text.fields?_eq_some_iff ..).2 h).symm.trans ((Text.fields?_eq_some_iff ..).2 h'))

/-! ## Descriptions of machines -/

namespace MachineDescription

/-- The lines of a machine's description rearranged: its transitions among themselves, its input symbols among
themselves, and its other user symbols among themselves. -/
abbrev Rearranges (d : MachineDescription) : List (List Char) → List (List Char) → Prop :=
  Rearranged (FieldsReordered (Reordered d.machine.alphabet.inputSize)) Eq d.machine.table.definedCount

theorem SymbolsLine.of_reordered {mode : TapeMode} {line line' : List Char} {tapeSize inputSize : Nat} {a : Alphabet}
    (h : SymbolsLine mode line tapeSize inputSize a) (hline : FieldsReordered (Reordered a.inputSize) line line') :
    SymbolsLine mode line' tapeSize inputSize a := by
  obtain ⟨names, hfields, hlength, ha⟩ := h
  rw [Alphabet.inputSize_of_ofList ha] at hline
  cases hline with
  | same => exact ⟨names, hfields, hlength, ha⟩
  | reordered h h' horder =>
    obtain rfl := hfields.unique h
    exact ⟨_, h', horder.perm.length_eq ▸ hlength, Alphabet.ofList_of_reordered horder ha⟩

/-- **Rearranged lines have the same contents**, but for the order of the transitions. -/
theorem Written.rearranged {mode : TapeMode} {lines lines' : List (List Char)} {c : Contents} (h : Written mode lines c)
    (hr : Rearranged (FieldsReordered (Reordered c.alphabet.inputSize)) Eq c.transitions.length lines lines') :
    ∃ transitions, c.transitions.Perm transitions ∧ Written mode lines' { c with transitions } := by
  obtain ⟨header, symbols, count, body, rest, tapeSize, inputSize, hlines, hheader, hsymbols, hcount, hall, hnodup,
    hending⟩ := h
  obtain ⟨header', hsymbols', rfl, hlength, hperm, rest'⟩ := hr
  rename_i symbols₁ symbols₂ count' body₁ body₂
  simp only [List.cons.injEq] at hlines
  obtain ⟨rfl, rfl, rfl, hlines⟩ := hlines
  obtain ⟨rfl, rfl⟩ := List.append_inj hlines (hlength.trans hall.length_eq.symm)
  obtain ⟨transitions, hall', htransitions⟩ := List.perm_comp_forall₂ hperm.symm hall
  refine ⟨transitions, htransitions.symm, header', symbols₂, count', body₂, rest', tapeSize, inputSize, rfl, hheader,
    hsymbols.of_reordered hsymbols', hperm.length_eq ▸ hcount, hall', ?_, hperm.length_eq ▸ hending⟩
  exact (htransitions.map Prod.fst).nodup_iff.2 hnodup

theorem Describes.of_perm {c : Contents} {d : MachineDescription} (h : Describes c d) {transitions : List Entry}
    (hperm : c.transitions.Perm transitions) : Describes { c with transitions } d :=
  { h with
    entries := h.entries.trans hperm
    count := h.count.trans hperm.length_eq }

theorem Written.transition_ne_nil {mode : TapeMode} {lines : List (List Char)} {c : Contents}
    (h : Written mode lines c) : ∀ line ∈ (lines.drop 3).take c.transitions.length, line ≠ [] := by
  obtain ⟨header, symbols, count, body, rest, tapeSize, inputSize, rfl, -, -, -, hall, -, -⟩ := h
  rw [← hall.length_eq, List.drop_succ_cons, List.drop_succ_cons, List.drop_succ_cons, List.drop_zero, List.take_left]
  refine ((List.forall₂_and_left ..).1 (hall.imp fun line e hline => ⟨?_, hline⟩)).1
  obtain ⟨_, _, _, _, _, hfields, -⟩ := hline.fields
  exact hfields.ne_nil

end MachineDescription

/-! ## Descriptions of automata -/

namespace AutomatonDescription

/-- The lines of an automaton's description rearranged: its transitions, its input symbols and its accepting states,
each of them among themselves. -/
abbrev Rearranges (d : AutomatonDescription) : List (List Char) → List (List Char) → Prop :=
  Rearranged (FieldsReordered List.Perm) (FieldsReordered List.Perm) d.automaton.definedCount

theorem SymbolsLine.of_reordered {line line' : List Char} {inputSize : Nat} {input : InputAlphabet}
    (h : SymbolsLine line inputSize input) (hline : FieldsReordered List.Perm line line') :
    SymbolsLine line' inputSize input := by
  obtain ⟨names, hfields, hlength, hinput⟩ := h
  cases hline with
  | same => exact ⟨names, hfields, hlength, hinput⟩
  | reordered h h' horder =>
    obtain rfl := hfields.unique h
    exact ⟨_, h', horder.length_eq ▸ hlength, InputAlphabet.ofListAvoiding_of_perm horder hinput⟩

theorem AcceptingLine.of_reordered {states : Nat} {line line' : List Char} {accepting : List Nat}
    (h : AcceptingLine states line accepting) (hline : FieldsReordered List.Perm line line') :
    ∃ accepting', accepting.Perm accepting' ∧ AcceptingLine states line' accepting' := by
  cases hline with
  | same => exact ⟨accepting, .refl _, h⟩
  | reordered hfields hfields' horder =>
    cases h with
    | none => exact absurd rfl hfields.ne_nil
    | some hfields'' hall hnodup hlt =>
      obtain rfl := hfields.unique hfields''
      obtain ⟨accepting', hall', haccepting⟩ := List.perm_comp_forall₂ horder.symm hall
      refine ⟨accepting', haccepting.symm, .some hfields' hall' (haccepting.nodup_iff.2 hnodup) fun q hq => ?_⟩
      exact hlt q (haccepting.mem_iff.1 hq)

/-- **Rearranged lines have the same contents**, but for the order of the accepting states and of the transitions. -/
theorem Written.rearranged {lines lines' : List (List Char)} {c : Contents} (h : Written lines c)
    (hr : Rearranged (FieldsReordered List.Perm) (FieldsReordered List.Perm) c.transitions.length lines lines') :
    ∃ accepting transitions, c.accepting.Perm accepting ∧ c.transitions.Perm transitions ∧
      Written lines' { c with accepting, transitions } := by
  obtain ⟨header, symbols, accepting, body, rest, inputSize, hlines, hheader, hsymbols, haccepting, hall, hnodup,
    hending⟩ := h
  obtain ⟨header', hsymbols', haccepting', hlength, hperm, rest'⟩ := hr
  rename_i symbols₁ symbols₂ accepting₁ accepting₂ body₁ body₂
  simp only [List.cons.injEq] at hlines
  obtain ⟨rfl, rfl, rfl, hlines⟩ := hlines
  obtain ⟨rfl, rfl⟩ := List.append_inj hlines (hlength.trans hall.length_eq.symm)
  obtain ⟨transitions, hall', htransitions⟩ := List.perm_comp_forall₂ hperm.symm hall
  obtain ⟨states, hstates, haccepting⟩ := haccepting.of_reordered haccepting'
  refine ⟨states, transitions, hstates, htransitions.symm, header', symbols₂, accepting₂, body₂, rest', inputSize, rfl,
    ?_, hsymbols.of_reordered hsymbols', haccepting, hall', ?_, hperm.length_eq ▸ hending⟩
  · rw [← hperm.length_eq]
    exact hstates.length_eq ▸ hheader
  · exact (htransitions.map Prod.fst).nodup_iff.2 hnodup

theorem Describes.of_perm {c : Contents} {d : AutomatonDescription} (h : Describes c d) {accepting : List Nat}
    {transitions : List (Key × Nat)} (haccepting : c.accepting.Perm accepting)
    (htransitions : c.transitions.Perm transitions) : Describes { c with accepting, transitions } d :=
  { h with
    acceptingStates := by
      have hperm : d.automaton.acceptingStates.Perm accepting := by
        rw [h.acceptingStates]
        exact (List.mergeSort_perm ..).trans haccepting
      have hnodup := (Automaton.acceptingStates_ordered d.automaton).imp Nat.ne_of_lt
      exact Automaton.acceptingStates_eq_mergeSort (hperm.nodup_iff.1 hnodup) fun q => hperm.mem_iff
    acceptingCount := h.acceptingCount.trans haccepting.length_eq
    listed := fun key next hmem => h.listed key next (htransitions.mem_iff.2 hmem)
    unlisted := fun key hstate hsymbol hnot =>
      h.unlisted key hstate hsymbol fun hmem => hnot ((htransitions.map Prod.fst).mem_iff.1 hmem)
    defined := fun key next => (h.defined key next).trans htransitions.mem_iff
    definedCount := h.definedCount.trans htransitions.length_eq }

theorem Written.transition_ne_nil {lines : List (List Char)} {c : Contents} (h : Written lines c) :
    ∀ line ∈ (lines.drop 3).take c.transitions.length, line ≠ [] := by
  obtain ⟨header, symbols, accepting, body, rest, inputSize, rfl, -, -, -, hall, -, -⟩ := h
  rw [← hall.length_eq, List.drop_succ_cons, List.drop_succ_cons, List.drop_succ_cons, List.drop_zero, List.take_left]
  refine ((List.forall₂_and_left ..).1 (hall.imp fun line e hline => ⟨?_, hline⟩)).1
  obtain ⟨_, _, _, hfields, -⟩ := hline.fields
  exact hfields.ne_nil

end AutomatonDescription

/-! ## No difference -/

/-- A parser to which lines that are rearranged in some way, which may depend on what it read, make no difference. -/
structure OrderFree {α : Type} (parse : String → Result α)
    (Rearranges : α → List (List Char) → List (List Char) → Prop) : Prop where
  /-- In the text itself, between its line endings. -/
  relaid : ∀ text a, parse text = .ok a → ∀ lines, Rearranges a (Text.lines text.toList) lines →
    parse (Text.relaid text lines) = .ok a
  /-- In every text of these lines, whatever its line endings, that is not too long. -/
  anywhere : ∀ text a, parse text = .ok a → ∀ other, other.utf8ByteSize ≤ maxDescriptionSize →
    Rearranges a (Text.lines text.toList) (Text.lines other.toList) → parse other = .ok a

/-- If rearranged lines are read anywhere, they are in the text itself, provided that it has them as its lines. -/
theorem orderFree_of_anywhere {α : Type} {parse : String → Result α}
    {Rearranges : α → List (List Char) → List (List Char) → Prop}
    (hanywhere : ∀ text a, parse text = .ok a → text.utf8ByteSize ≤ maxDescriptionSize ∧
      ∀ other, other.utf8ByteSize ≤ maxDescriptionSize →
        Rearranges a (Text.lines text.toList) (Text.lines other.toList) → parse other = .ok a)
    (hrelaid : ∀ text a, parse text = .ok a → ∀ lines, Rearranges a (Text.lines text.toList) lines →
      Text.Lines (Text.relaid text lines).toList lines ∧ (Text.relaid text lines).utf8ByteSize = text.utf8ByteSize) :
    OrderFree parse Rearranges where
  relaid text a ha lines hr := by
    obtain ⟨hlines, hsize⟩ := hrelaid text a ha lines hr
    obtain ⟨hlimit, hother⟩ := hanywhere text a ha
    refine hother _ (hsize ▸ hlimit) ?_
    rwa [(Text.lines_iff ..).1 hlines]
  anywhere text a ha := (hanywhere text a ha).2

theorem MachineDescription.orderFree (mode : TapeMode) : OrderFree (parse mode) Rearranges := by
  refine orderFree_of_anywhere (fun text d hd => ?anywhere) fun text d hd lines hr => ?relaid
  all_goals
    obtain ⟨hsize, hread⟩ := (readDescription_ok_iff ..).1 hd
    obtain ⟨c, hwritten, rfl⟩ := written_of_read hread
    have hc := hwritten.describes
  case anywhere =>
    refine ⟨hsize, fun other hother hr => ?_⟩
    rw [Rearranges, hc.alphabet, hc.count] at hr
    obtain ⟨transitions, hperm, hwritten'⟩ := hwritten.rearranged hr
    rw [← hwritten'.describes.unique (hc.of_perm hperm)]
    exact (readDescription_ok_iff ..).2 ⟨hother, hwritten'.read_ok⟩
  case relaid =>
    refine hr.lines_relaid (fun _ _ h => h.perm fun _ _ h => h.perm) ?_ ((Text.lines_iff ..).2 rfl) ?_
    · rintro line _ rfl
      exact .refl line
    · rw [hc.count]
      exact hwritten.transition_ne_nil

theorem AutomatonDescription.orderFree : OrderFree parse Rearranges := by
  refine orderFree_of_anywhere (fun text d hd => ?anywhere) fun text d hd lines hr => ?relaid
  all_goals
    obtain ⟨hsize, hread⟩ := (readDescription_ok_iff ..).1 hd
    obtain ⟨c, hwritten, rfl⟩ := written_of_read hread
    have hc := hwritten.describes
  case anywhere =>
    refine ⟨hsize, fun other hother hr => ?_⟩
    rw [Rearranges, hc.definedCount] at hr
    obtain ⟨accepting, transitions, haccepting, htransitions, hwritten'⟩ := hwritten.rearranged hr
    rw [← hwritten'.describes.unique (hc.of_perm haccepting htransitions)]
    exact (readDescription_ok_iff ..).2 ⟨hother, hwritten'.read_ok⟩
  case relaid =>
    have hfields : ∀ line line', FieldsReordered List.Perm line line' → line'.Perm line :=
      fun _ _ h => h.perm fun _ _ h => h
    refine hr.lines_relaid hfields hfields ((Text.lines_iff ..).2 rfl) ?_
    rw [hc.definedCount]
    exact hwritten.transition_ne_nil

/-- **Order carries no meaning** where transitions, symbols of one kind or accepting states are listed. -/
theorem order_carries_no_meaning :
    (∀ mode, OrderFree (MachineDescription.parse mode) MachineDescription.Rearranges) ∧
      OrderFree AutomatonDescription.parse AutomatonDescription.Rearranges :=
  ⟨MachineDescription.orderFree, AutomatonDescription.orderFree⟩

/-- Two transitions and two symbols change places, and then the line endings are others too. -/
theorem flips_in_another_order : ∃ d,
    MachineDescription.parse .twoWay "3 3 2\n0 1\n2\n0 0 0 1 R\n0 1 0 0 R" = .ok d ∧
      MachineDescription.parse .twoWay "3 3 2\n1 0\n2\n0 1 0 0 R\n0 0 0 1 R" = .ok d ∧
      MachineDescription.parse .twoWay "3 3 2\r\n1 0\r2\n0 1 0 0 R\r0 0 0 1 R" = .ok d := by
  have hread : (fun d => (d.machine.alphabet.inputSize, d.machine.table.definedCount)) <$>
      MachineDescription.readOver .twoWay ["0", "1"] 2 (.binary .twoWay)
        ⟨1, ["3 3 2", "0 1", "2", "0 0 0 1 R", "0 1 0 0 R"].map String.toList⟩ = .ok (2, 2) := by decide +kernel
  obtain ⟨d, hd, hsizes⟩ := (Result.map_ok_iff ..).1 hread
  obtain ⟨hinput, hcount⟩ := Prod.mk.inj hsizes
  have hd : MachineDescription.parse .twoWay "3 3 2\n0 1\n2\n0 0 0 1 R\n0 1 0 0 R" = .ok d :=
    MachineDescription.parse_ok_of_readOver (Alphabet.ofList_binary .twoWay) (by decide) (by decide) hd
  have hsymbols : FieldsReordered (Reordered 2) "0 1".toList "1 0".toList :=
    .reordered ((Text.fields?_eq_some_iff _ ["0", "1"]).1 (by decide +kernel))
      ((Text.fields?_eq_some_iff _ ["1", "0"]).1 (by decide +kernel)) ⟨by decide, by decide⟩
  have hrearranges : d.Rearranges (["3 3 2", "0 1", "2", "0 0 0 1 R", "0 1 0 0 R"].map String.toList)
      (["3 3 2", "1 0", "2", "0 1 0 0 R", "0 0 0 1 R"].map String.toList) := by
    rw [MachineDescription.Rearranges, hinput, hcount]
    exact .intro "3 3 2".toList hsymbols rfl rfl (.swap "0 1 0 0 R".toList "0 0 0 1 R".toList []) []
  have hlines : Text.lines "3 3 2\n0 1\n2\n0 0 0 1 R\n0 1 0 0 R".toList =
      ["3 3 2", "0 1", "2", "0 0 0 1 R", "0 1 0 0 R"].map String.toList := by decide +kernel
  refine ⟨d, hd, ?relaid, ?anywhere⟩
  case relaid =>
    have hrelaid := (order_carries_no_meaning.1 .twoWay).relaid _ d hd _ (hlines ▸ hrearranges)
    have htext : Text.relaid "3 3 2\n0 1\n2\n0 0 0 1 R\n0 1 0 0 R"
        (["3 3 2", "1 0", "2", "0 1 0 0 R", "0 0 0 1 R"].map String.toList) =
          "3 3 2\n1 0\n2\n0 1 0 0 R\n0 0 0 1 R" := by decide +kernel
    rwa [htext] at hrelaid
  case anywhere =>
    refine (order_carries_no_meaning.1 .twoWay).anywhere _ d hd _ (by decide +kernel) ?_
    have hother : Text.lines "3 3 2\r\n1 0\r2\n0 1 0 0 R\r0 0 0 1 R".toList =
        ["3 3 2", "1 0", "2", "0 1 0 0 R", "0 0 0 1 R"].map String.toList := by decide +kernel
    rw [hother]
    exact hlines ▸ hrearranges

end BoundedTuring
