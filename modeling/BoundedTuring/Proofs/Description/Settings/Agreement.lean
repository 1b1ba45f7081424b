import BoundedTuring.Proofs.Description.Settings.Format
/-!
# Settings of machines and of automata

A settings line of an automaton begins as one of a machine does, and its fourth field has the initial word that stands
in the fifth of a machine's.  What is read depends on the number of the line and on its fields alone, and so do the
errors, so the two readers make the same of lines whose fields correspond (`Correspond.read_eq`).
-/
namespace BoundedTuring

namespace Line

variable {line line' : Line}

theorem check_congr {α : Type} (h : line.number = line'.number) (x : Result α) : line.check x = line'.check x := by
  cases x with
  | ok a => rfl
  | error e => rw [check, check, h]

theorem readNumber_congr (h : line.number = line'.number) (name text : String) :
    line.readNumber name text = line'.readNumber name text := by
  unfold readNumber
  cases Text.numeral? text.toList with
  | some n => rfl
  | none => exact check_congr h _

end Line

namespace Settings

open Text (IsField)

/-- The settings that a machine has where an automaton has a configuration. -/
def untraced (config : SimulationConfig) : Settings := ⟨config, false⟩

section Congruence

variable {line line' : Line} {fields fields' : List String}

theorem numberAt_congr {index : Nat} (hnumber : line.number = line'.number)
    (hfield : field? fields index = field? fields' index) (name : String) (standard : Nat) :
    numberAt line fields index name standard = numberAt line' fields' index name standard := by
  unfold numberAt
  rw [hfield]
  cases field? fields' index with
  | some text => exact Line.readNumber_congr hnumber name text
  | none => rfl

/-- **The range depends on the number of the line, the first three fields and whether there are two, or three.** -/
theorem readRange_congr (hnumber : line.number = line'.number) (htwo : fields.length = 2 ↔ fields'.length = 2)
    (hthree : 3 ≤ fields.length ↔ 3 ≤ fields'.length)
    (hfields : ∀ index < 3, field? fields index = field? fields' index) :
    readRange line fields = readRange line' fields' := by
  unfold readRange
  simp only [htwo, hthree, numberAt_congr hnumber (hfields 0 (by decide)),
    numberAt_congr hnumber (hfields 1 (by decide)), numberAt_congr hnumber (hfields 2 (by decide))]

theorem limits_of_readRange {c : SimulationConfig} (h : readRange line fields = .ok c) : c.limits = .unbounded := by
  cases (readRange_ok_iff ..).1 h with
  | nothing => rfl
  | words => rfl

end Congruence

/-- The fields of a machine's line and those of an automaton's that ask for the same: they have the same range, the
initial word in its two places, and nothing else. -/
structure Correspond (fields fields' : List String) : Prop where
  nil_iff : fields = [] ↔ fields' = []
  two_iff : fields.length = 2 ↔ fields'.length = 2
  three_iff : 3 ≤ fields.length ↔ 3 ≤ fields'.length
  range : ∀ index < 3, field? fields index = field? fields' index
  maxSteps : field? fields 3 = none
  initial : field? fields 4 = field? fields' 3
  trace : field? fields 5 = none
  timed : field? fields 6 = none

theorem correspond_self {fields : List String} (h : fields.length ≤ 3) : Correspond fields fields := by
  have hnone (index : Nat) (hindex : 3 ≤ index) : field? fields index = none :=
    field?_eq_none_of_le (Nat.le_trans h hindex)
  refine ⟨.rfl, .rfl, .rfl, fun _ _ => rfl, hnone 3 (by decide), ?_, hnone 5 (by decide), hnone 6 (by decide)⟩
  rw [hnone 4 (by decide), hnone 3 (by decide)]

theorem correspond_of_default (count first second initial : String) {word : String} (hword : isDefault word = true) :
    Correspond [count, first, second, word, initial] [count, first, second, initial] := by
  refine ⟨by simp, by simp, by simp, fun index hindex => ?_, ?_, rfl, rfl, rfl⟩
  · obtain rfl | rfl | rfl : index = 0 ∨ index = 1 ∨ index = 2 := by omega
    · rfl
    · rfl
    · rfl
  · refine Option.filter_eq_none_iff.2 fun field hfield => ?_
    cases hfield
    simp [hword]

section

variable {a : InputAlphabet} {line line' : Line} {fields fields' : List String}

/-- Nothing but the initial word is read further on. -/
theorem Correspond.readFurther_eq (h : Correspond fields fields') (hnumber : line.number = line'.number)
    {c : SimulationConfig} (hlimits : c.limits = .unbounded) :
    readFurther a line fields c = untraced <$> readInitial a line' fields' 3 c := by
  have hsteps : numberAt line fields 3 "max steps" defaultMaxSteps = .ok defaultMaxSteps := by
    rw [numberAt, h.maxSteps]
  have htrace : readTrace line fields = .ok false := by rw [readTrace, h.trace]
  have htime : readTimeBound line fields = .ok none := by rw [readTimeBound, h.timed]
  obtain ⟨minLength, maxLength, initial, stringCount, limits⟩ := c
  subst hlimits
  simp only [readFurther, hsteps, htrace, htime]
  unfold readInitial
  rw [h.initial]
  cases field? fields' 3 with
  | none => rfl
  | some text =>
    dsimp only
    rw [Line.check_congr hnumber]
    cases line'.check (a.tokenize text) with
    | error e => rfl
    | ok w => rfl

/-- **Lines of corresponding fields and the same number are read as the same configuration, or refused for the same
reason.** -/
theorem Correspond.read_eq (h : Correspond fields fields') (hnumber : line.number = line'.number)
    (hread : readFields line maxMachineSettings = .ok fields)
    (hread' : readFields line' maxAutomatonSettings = .ok fields') :
    read a line = untraced <$> readAutomaton a line' := by
  have hvalidate (c : SimulationConfig) : (line.check (c.validate a.size) >>= fun config => pure (untraced config)) =
      untraced <$> line'.check (c.validate a.size) := by
    rw [Line.check_congr hnumber, map_eq_pure_bind]
  unfold read readAutomaton
  rw [hread, hread']
  dsimp only [bind, Except.bind]
  by_cases hnil : fields = []
  · rw [if_pos (List.isEmpty_iff.2 hnil), if_pos (List.isEmpty_iff.2 (h.nil_iff.1 hnil))]
    rfl
  have hnil' : ¬ fields' = [] := fun hnil' => hnil (h.nil_iff.2 hnil')
  rw [if_neg (mt List.isEmpty_iff.1 hnil), if_neg (mt List.isEmpty_iff.1 hnil'),
    readRange_congr hnumber h.two_iff h.three_iff h.range]
  cases hrange : readRange line' fields' with
  | error e => rfl
  | ok c =>
    dsimp only
    by_cases hzero : c.stringCount = 0
    · rw [if_pos hzero, if_pos hzero]
      exact hvalidate c
    · rw [if_neg hzero, if_neg hzero, h.readFurther_eq hnumber (limits_of_readRange hrange)]
      cases readInitial a line' fields' 3 c with
      | error e => rfl
      | ok c => exact hvalidate c

end

/-- A line that has no fields, and isn't empty, is refused for its layout. -/
theorem readFields_error {line : Line} (h : ∀ fields, ¬ LineFields line.text fields) (most : Nat) :
    readFields line most = .error (.layout line.number .fields) := by
  have hempty : ¬ line.text.isEmpty = true := fun hempty => h [] (.inr ⟨List.isEmpty_iff.1 hempty, rfl⟩)
  have hnone : Text.fields? line.text = none :=
    Option.eq_none_iff_forall_ne_some.2 fun fields hfields =>
      h fields (.inl ((Text.fields?_eq_some_iff ..).1 hfields))
  rw [readFields, if_neg hempty, Line.fields, hnone]
  rfl

/-- What the readers of settings lines, of a machine and of an automaton, make of a line: the same of few fields, the
same of four with `default` in front of the last one, and the same refusal if there are no fields in it. -/
structure Agree (a : InputAlphabet) (line : Line) : Prop where
  few : ∀ fields, LineFields line.text fields → fields.length ≤ 3 → read a line = untraced <$> readAutomaton a line
  four : ∀ count first second initial word : String, LineFields line.text [count, first, second, initial] →
    isDefault word = true →
    read a (Line.ofFields line.number [count, first, second, word, initial]) = untraced <$> readAutomaton a line
  unread : (∀ fields, ¬ LineFields line.text fields) →
    read a line = .error (.layout line.number .fields) ∧ readAutomaton a line = .error (.layout line.number .fields)

/-- **The readers of settings lines agree**, in what they read and in why they refuse. -/
theorem readers_agree (a : InputAlphabet) (line : Line) : Agree a line := by
  refine ⟨fun fields hfields hlength => ?_, fun count first second initial word hfields hword => ?_, fun hnone => ?_⟩
  · exact (correspond_self hlength).read_eq rfl
      ((readFields_ok_iff ..).2 ⟨hfields, Nat.le_trans hlength (by decide)⟩)
      ((readFields_ok_iff ..).2 ⟨hfields, Nat.le_trans hlength (by decide)⟩)
  · have heach : ∀ field ∈ [count, first, second, word, initial], IsField field := by
      have h := hfields.eq_ofFields.1
      simp only [List.forall_mem_cons] at h ⊢
      obtain ⟨hcount, hfirst, hsecond, hinitial, -⟩ := h
      exact ⟨hcount, hfirst, hsecond, (isField_of_isDefault hword).1, hinitial, nofun⟩
    exact (correspond_of_default count first second initial hword).read_eq rfl
      ((readFields_ok_iff ..).2 ⟨lineFields_ofFields _ heach, by simp [maxMachineSettings]⟩)
      ((readFields_ok_iff ..).2 ⟨hfields, by simp [maxAutomatonSettings]⟩)
  · constructor
    · rw [read, readFields_error hnone]
      rfl
    · rw [readAutomaton, readFields_error hnone]
      rfl

/-- A symbol that isn't in the alphabet is met on the same line in the fourth field and in the fifth. -/
example : read ⟨#["0"]⟩ ⟨3, "2 0 4 default 01".toList⟩ =
    untraced <$> readAutomaton ⟨#["0"]⟩ ⟨3, "2 0 4 01".toList⟩ := by decide +kernel

end Settings
end BoundedTuring
