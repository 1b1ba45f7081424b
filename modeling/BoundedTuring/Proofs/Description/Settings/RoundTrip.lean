import BoundedTuring.Proofs.Alphabet.Tokens
import BoundedTuring.Proofs.Description.Settings.Format
/-!
# Reading written settings

The line that is written for a valid configuration says that configuration: its numbers have numerals, its initial word
has a text or is the one that `default` stands for, and its time bound stands behind a flag or in the place of it.  So
the reader gives it back (`read_ofFields`).  Only an initial word whose text happens to be `default` has no such line.
-/
namespace BoundedTuring

open Text (IsField IsNumeral WithinLine)

namespace InputAlphabet

theorem Names.mem_symbols {a : InputAlphabet} {w : Word} {names : List String} (h : a.Names w names) :
    ∀ name ∈ names, name ∈ a.symbols.toList := by
  induction h with
  | nil => nofun
  | cons hname _ ih =>
    exact List.forall_mem_cons.2 ⟨Array.mem_toList_iff.2 (Array.mem_of_getElem? hname), ih⟩

/-- **The text of a word that is not empty can stand as a field.** -/
theorem Built.isField_render {a : InputAlphabet} (h : a.Built) {w : Word} {text : String} (hne : w ≠ [])
    (hrender : a.render w = .ok text) : IsField text ∧ WithinLine text.toList := by
  obtain ⟨names, hnames, rfl⟩ := (render_ok_iff ..).1 hrender
  refine Text.isField_join (fun hnil => hne ?_) fun name hname => h.isField (hnames.mem_symbols name hname)
  rw [hnil] at hnames
  exact List.forall₂_nil_right_iff.1 hnames

end InputAlphabet

namespace Settings

/-- The numbers of a configuration have sixty-four bits, and its time bound is not too long. -/
structure Fits (c : SimulationConfig) : Prop where
  stringCount : c.stringCount < Text.numeralBound
  minLength : c.minLength < Text.numeralBound
  maxLength : c.maxLength < Text.numeralBound
  maxSteps : c.limits.maxSteps < Text.numeralBound
  maxTime : ∀ time, c.limits.maxTime = some time → time ≤ maxTimeBound

/-- The initial word is the one that `default` stands for, or its text isn't `default` in any case. -/
def Nameable (a : InputAlphabet) (c : SimulationConfig) : Prop :=
  c.initial ≠ Word.least c.minLength → ∀ text, a.render c.initial = .ok text → isDefault text = false

section

variable {a : InputAlphabet} {c : SimulationConfig}

theorem isField_writeFlag (flag : Bool) : IsField (writeFlag flag) ∧ WithinLine (writeFlag flag).toList := by
  cases flag <;> exact ⟨by decide, by decide⟩

/-- **A written number stands for itself.** -/
theorem At.toString {fields : List String} {index n : Nat} (standard : Nat)
    (hfield : fields[index]? = some (toString n)) (hn : n < Text.numeralBound) : At fields index IsNumeral standard n := by
  have hnumeral := Text.isNumeral_toString n hn
  exact .given ((field?_eq_some_iff ..).2 ⟨hfield, isDefault_of_isNumeral hnumeral⟩) hnumeral

theorem At.writeFlag {fields : List String} {index : Nat} (standard : Bool) {flag : Bool}
    (hfield : fields[index]? = some (writeFlag flag)) : At fields index IsFlag standard flag := by
  refine .given ((field?_eq_some_iff ..).2 ⟨hfield, ?_⟩) ?_
  · cases flag <;> rfl
  · cases flag <;> rfl

/-- **The field of the initial word stands for that word.** -/
theorem exists_writeInitial (ha : a.Built) (hvalid : c.validate a.size = .ok c) (hname : Nameable a c) :
    ∃ field, writeInitial a c = .ok field ∧ (IsField field ∧ WithinLine field.toList) ∧
      ∀ fields : List String, fields[4]? = some field →
        At fields 4 (fun text w => a.tokenize text = .ok w) (Word.least c.minLength) c.initial := by
  obtain ⟨hover, hleast, -⟩ := SimulationConfig.starts_of_validate hvalid
  unfold writeInitial
  by_cases hdefault : c.initial = Word.least c.minLength
  · rw [if_pos hdefault, hdefault]
    refine ⟨"default", rfl, isField_of_isDefault (by decide), fun fields hfield => .standard ?_⟩
    rw [field?, hfield]
    decide
  · rw [if_neg hdefault]
    obtain ⟨text, htext⟩ := a.render_ok_of_lt hover
    have hne : c.initial ≠ [] := by
      rintro hnil
      rw [hnil, List.length_nil, Nat.le_zero] at hleast
      rw [hnil, hleast] at hdefault
      exact hdefault rfl
    refine ⟨text, htext, ha.isField_render hne htext, fun fields hfield => ?_⟩
    refine .given ((field?_eq_some_iff ..).2 ⟨hfield, hname hdefault text htext⟩) ?_
    exact (ha.unambiguous.tokenize_ok_iff ..).2 ((InputAlphabet.render_ok_iff ..).1 htext)

/-- The fields in front of the time bound, with the one of the initial word given. -/
def leading (c : SimulationConfig) (initial : String) (trace : Bool) : List String :=
  [toString c.stringCount, toString c.minLength, toString c.maxLength, toString c.limits.maxSteps, initial,
    writeFlag trace]

/-- **Fields that begin as those that are written say what is written**, if the rest of them gives the time bound. -/
theorem says_leading {fields rest : List String} {initial : String} {trace : Bool}
    (hvalid : c.validate a.size = .ok c) (hpos : 1 ≤ c.stringCount) (hfits : Fits c)
    (hfields : fields = leading c initial trace ++ rest)
    (hinitial : At fields 4 (fun text w => a.tokenize text = .ok w) (Word.least c.minLength) c.initial)
    (htime : TimeBound fields c.limits.maxTime) : Says a fields c trace := by
  obtain ⟨-, hleast, hmost⟩ := SimulationConfig.starts_of_validate hvalid
  have hordered : c.minLength ≤ c.maxLength := Nat.le_trans hleast hmost
  have hlength : fields.length ≠ 2 := by
    rw [hfields, List.length_append, leading]
    simp only [List.length_cons, List.length_nil]
    omega
  have hcount : At fields 0 IsNumeral defaultStringCount c.stringCount := .toString _ (hfields ▸ rfl) hfits.stringCount
  have hfirst : At fields 1 IsNumeral defaultMinLength c.minLength := .toString _ (hfields ▸ rfl) hfits.minLength
  have hsecond : At fields 2 IsNumeral defaultMaxLength c.maxLength := .toString _ (hfields ▸ rfl) hfits.maxLength
  have hsteps : At fields 3 IsNumeral defaultMaxSteps c.limits.maxSteps := .toString _ (hfields ▸ rfl) hfits.maxSteps
  have htrace : At fields 5 IsFlag false trace := .writeFlag _ (hfields ▸ rfl)
  have hmin : min c.minLength c.maxLength = c.minLength := Nat.min_eq_left hordered
  have hmax : max c.minLength c.maxLength = c.maxLength := Nat.max_eq_right hordered
  have h := Says.words hcount (Nat.ne_of_gt hpos) (.both hlength hfirst hsecond) hsteps (hmin.symm ▸ hinitial) htrace
    htime hfits.maxTime
  rwa [hmin, hmax] at h

/-- **A line of fields that say a valid configuration is read as that configuration.** -/
theorem read_ofFields (number : Nat) {fields : List String} {trace : Bool} (hvalid : c.validate a.size = .ok c)
    (heach : ∀ field ∈ fields, IsField field ∧ WithinLine field.toList) (hmost : fields.length ≤ maxMachineSettings)
    (hsaid : Says a fields c trace) : read a (Line.ofFields number fields) = .ok ⟨c, trace⟩ :=
  (read_ok_iff ..).2
    ⟨fields, c, lineFields_ofFields number fun field hfield => (heach field hfield).1, hmost, hsaid, hvalid⟩

end

/-- A line of text without an end in it, which is read as certain settings. -/
structure ReadBack (a : InputAlphabet) (number : Nat) (fields : List String) (s : Settings) : Prop where
  withinLine : WithinLine (Line.ofFields number fields).text
  read_eq : read a (Line.ofFields number fields) = .ok s

/-- **What is written for valid settings is read as those settings**, with a flag in front of the time bound or with the
bound in the place of the flag. -/
theorem read_written_settings {a : InputAlphabet} (ha : a.Built) (number : Nat) (s : Settings)
    (hvalid : s.config.validate a.size = .ok s.config) (hpos : 1 ≤ s.config.stringCount) (hfits : Fits s.config)
    (hname : Nameable a s.config) :
    (∃ fields, write a s = .ok fields ∧ ReadBack a number fields s) ∧
      ∀ time, s.config.limits.maxTime = some time →
        ∃ fields, writeShort a s time = .ok fields ∧ ReadBack a number fields s := by
  obtain ⟨initial, hwrite, hfield, hinitial⟩ := exists_writeInitial ha hvalid hname
  have hleading : writeLeading a s = .ok (leading s.config initial s.trace) := by
    rw [writeLeading, hwrite]
    rfl
  have heach : ∀ field ∈ leading s.config initial s.trace, IsField field ∧ WithinLine field.toList := by
    simp only [leading, List.forall_mem_cons]
    exact ⟨Text.isField_toString _, Text.isField_toString _, Text.isField_toString _, Text.isField_toString _, hfield,
      isField_writeFlag _, nofun⟩
  have hback {rest : List String} (hrest : ∀ field ∈ rest, IsField field ∧ WithinLine field.toList)
      (hlength : rest.length ≤ 2)
      (htime : TimeBound (leading s.config initial s.trace ++ rest) s.config.limits.maxTime) :
      ReadBack a number (leading s.config initial s.trace ++ rest) s := by
    have hall := List.forall_mem_append.2 ⟨heach, hrest⟩
    have hsaid := says_leading hvalid hpos hfits rfl (hinitial _ rfl) htime
    refine ⟨(Text.hasFields_intercalate (by simp [leading]) hall).2, read_ofFields number hvalid hall ?_ hsaid⟩
    rw [List.length_append]
    exact Nat.add_le_add_left hlength 6
  have hnumber {time : Nat} (hbound : s.config.limits.maxTime = some time) : time < Text.numeralBound :=
    Nat.lt_of_le_of_lt (hfits.maxTime time hbound) (by decide)
  constructor
  · cases hbound : s.config.limits.maxTime with
    | none =>
      have hwritten : write a s = .ok (leading s.config initial s.trace ++ [writeFlag false]) := by
        simp only [write, hleading, hbound]
        rfl
      refine ⟨_, hwritten, hback (List.forall_mem_singleton.2 (isField_writeFlag false)) (by decide) ?_⟩
      rw [hbound]
      exact .untimed (.writeFlag false rfl)
    | some time =>
      have hwritten : write a s = .ok (leading s.config initial s.trace ++ [writeFlag true, toString time]) := by
        simp only [write, hleading, hbound]
        rfl
      refine ⟨_, hwritten, hback ?_ (by simp) ?_⟩
      · exact List.forall_mem_cons.2
          ⟨isField_writeFlag true, List.forall_mem_singleton.2 (Text.isField_toString time)⟩
      · rw [hbound]
        exact .timed (.writeFlag false rfl) (.toString _ rfl (hnumber hbound))
  · intro time hbound
    have hwritten : writeShort a s time = .ok (leading s.config initial s.trace ++ [toString time]) := by
      rw [writeShort, hleading]
      rfl
    refine ⟨_, hwritten, hback (List.forall_mem_singleton.2 (Text.isField_toString time)) (by simp) ?_⟩
    rw [hbound]
    exact .short rfl rfl (Text.isNumeral_toString time (hnumber hbound))

/-- The greatest numbers there are, and an initial word that is none of the least length. -/
theorem greatest_settings_read_back :
    let a : InputAlphabet := ⟨#["def", "t"]⟩
    let s : Settings := ⟨⟨1, 18446744073709551615, [0, 1], 100000, ⟨18446744073709551615, some 18446744073709⟩⟩, true⟩
    a.Built ∧ s.config.validate a.size = .ok s.config ∧ 1 ≤ s.config.stringCount ∧ Fits s.config ∧
      Nameable a s.config ∧
      write a s = .ok ["100000", "1", "18446744073709551615", "18446744073709551615", "deft", "t", "t",
        "18446744073709"] ∧
      (∃ fields, write a s = .ok fields ∧ ReadBack a 9 fields s) ∧
      ∃ fields, writeShort a s 18446744073709 = .ok fields ∧ ReadBack a 9 fields s := by
  intro a s
  have hlist : InputAlphabet.ofList ["def", "t"] = .ok a :=
    Alphabet.ofListAvoiding_of_ordered [] rfl (by decide) (by decide +kernel) (by decide)
  have ha : a.Built := .inl ⟨_, hlist⟩
  have hvalid : s.config.validate a.size = .ok s.config := by decide +kernel
  have hfits : Fits s.config := ⟨by decide, by decide, by decide, by decide, fun time htime => by cases htime; decide⟩
  have hname : Nameable a s.config := fun _ text htext => by
    have hrender : a.render s.config.initial = .ok "deft" := by decide +kernel
    rw [hrender] at htext
    cases htext
    decide
  obtain ⟨hwritten, hshort⟩ := read_written_settings ha 9 s hvalid (by decide) hfits hname
  exact ⟨ha, hvalid, by decide, hfits, hname, by decide +kernel, hwritten, hshort _ rfl⟩

end Settings
end BoundedTuring
