import BoundedTuring.Proofs.Description.Settings.Fields
import BoundedTuring.Proofs.Simulation.Config
/-!
# The format of settings lines

`Says` tells what a settings line of a machine asks for, field by field and before it is validated: a field that is
missing or `default` stands for its standard (`At`), the number of fields tells whether one length was given or two
(`Bounds`), and whether the seventh field may be the time bound itself (`TimeBound`).  The reader accepts exactly the
lines that say something valid (`read_ok_iff`); an empty line says what one of nothing but standards does.
-/
namespace BoundedTuring
namespace Settings

open Text (IsNumeral)

/-! ## What a line says -/

/-- What the field at a place stands for: what it reads as, or the standard if it is missing or `default`. -/
inductive At {α : Type} (fields : List String) (index : Nat) (Reads : String → α → Prop) (standard : α) : α → Prop
  | given {text : String} {value : α} (hfield : field? fields index = some text) (h : Reads text value) :
    At fields index Reads standard value
  | standard (hfield : field? fields index = none) : At fields index Reads standard standard

/-- The length bounds in the order they are given.  The second of two fields is the greatest length. -/
inductive Bounds (fields : List String) : Nat → Nat → Prop
  | lone {most : Nat} (hlength : fields.length = 2) (hmost : At fields 1 IsNumeral defaultMaxLength most) :
    Bounds fields 0 most
  | both {first second : Nat} (hlength : fields.length ≠ 2) (hfirst : At fields 1 IsNumeral defaultMinLength first)
    (hsecond : At fields 2 IsNumeral defaultMaxLength second) : Bounds fields first second

/-- The time bound, if there is one: behind a flag, or as the last of seven fields in the place of the flag. -/
inductive TimeBound (fields : List String) : Option Nat → Prop
  | untimed (hflag : At fields 6 IsFlag false false) : TimeBound fields none
  | timed {time : Nat} (hflag : At fields 6 IsFlag false true) (htime : At fields 7 IsNumeral defaultMaxTime time) :
    TimeBound fields (some time)
  | short {text : String} {time : Nat} (hlength : fields.length = 7) (hfield : fields[6]? = some text)
    (htime : IsNumeral text time) : TimeBound fields (some time)

/-- The configuration that a line opens with.  It has the limits there are without a line. -/
inductive Opens (fields : List String) : SimulationConfig → Prop
  | nothing (hcount : At fields 0 IsNumeral defaultStringCount 0) :
    Opens fields ⟨defaultMinLength, defaultMaxLength, [], 0, .unbounded⟩
  | words {count first second : Nat} (hcount : At fields 0 IsNumeral defaultStringCount count) (hpos : count ≠ 0)
    (hbounds : Bounds fields first second) :
    Opens fields ⟨min first second, max first second, Word.least (min first second), count, .unbounded⟩

/-- What fields ask for, before it is validated: a configuration and whether runs are traced. -/
inductive Says (a : InputAlphabet) (fields : List String) : SimulationConfig → Bool → Prop
  | nothing (hcount : At fields 0 IsNumeral defaultStringCount 0) :
    Says a fields ⟨defaultMinLength, defaultMaxLength, [], 0, .unbounded⟩ false
  | words {count first second maxSteps : Nat} {initial : Word} {trace : Bool} {maxTime : Option Nat}
    (hcount : At fields 0 IsNumeral defaultStringCount count) (hpos : count ≠ 0)
    (hbounds : Bounds fields first second) (hsteps : At fields 3 IsNumeral defaultMaxSteps maxSteps)
    (hinitial : At fields 4 (fun text w => a.tokenize text = .ok w) (Word.least (min first second)) initial)
    (htrace : At fields 5 IsFlag false trace) (htime : TimeBound fields maxTime)
    (hmost : ∀ time, maxTime = some time → time ≤ maxTimeBound) :
    Says a fields ⟨min first second, max first second, initial, count, ⟨maxSteps, maxTime⟩⟩ trace

/-! ## Reading the parts -/

section Parts

variable (line : Line) (fields : List String)

theorem at_iff {α : Type} (index : Nat) (Reads : String → α → Prop) (standard value : α) :
    At fields index Reads standard value ↔
      match field? fields index with
      | some text => Reads text value
      | none => value = standard := by
  constructor
  · rintro (⟨hfield, h⟩ | hfield)
    · rw [hfield]
      exact h
    · rw [hfield]
  · intro h
    cases hfield : field? fields index with
    | none =>
      rw [hfield] at h
      exact h ▸ .standard hfield
    | some text =>
      rw [hfield] at h
      exact .given hfield h

/-- A place stands for what another one does that has the same field. -/
theorem At.congr {α : Type} {fields fields' : List String} {index index' : Nat} {Reads : String → α → Prop}
    {standard value : α} (h : At fields index Reads standard value)
    (hfield : field? fields' index' = field? fields index) : At fields' index' Reads standard value := by
  rw [at_iff, hfield, ← at_iff]
  exact h

/-- A place behind the last field has the standard. -/
theorem At.of_le {α : Type} {fields : List String} {index : Nat} {Reads : String → α → Prop} {standard : α}
    (h : fields.length ≤ index) : At fields index Reads standard standard := .standard (field?_eq_none_of_le h)

theorem At.eq_of_le {α : Type} {fields : List String} {index : Nat} {Reads : String → α → Prop} {standard value : α}
    (hat : At fields index Reads standard value) (h : fields.length ≤ index) : value = standard := by
  rw [at_iff, field?_eq_none_of_le h] at hat
  exact hat

theorem numberAt_ok_iff (index : Nat) (name : String) (standard n : Nat) :
    numberAt line fields index name standard = .ok n ↔ At fields index IsNumeral standard n := by
  unfold numberAt
  rw [at_iff]
  cases field? fields index with
  | none => simp [eq_comm]
  | some text => exact Line.readNumber_ok_iff ..

theorem readTrace_ok_iff (trace : Bool) : readTrace line fields = .ok trace ↔ At fields 5 IsFlag false trace := by
  unfold readTrace
  rw [at_iff]
  cases field? fields 5 with
  | none => simp [eq_comm]
  | some text => cases hflag : flag? text <;> simp [IsFlag, hflag]

theorem readInitial_ok_iff (a : InputAlphabet) (index : Nat) (c c' : SimulationConfig) :
    readInitial a line fields index c = .ok c' ↔
      ∃ w, At fields index (fun text w => a.tokenize text = .ok w) c.initial w ∧ { c with initial := w } = c' := by
  unfold readInitial
  simp only [at_iff]
  cases field? fields index with
  | none => simp
  | some text => simp only [Result.bind_ok_iff, Result.pure_ok_iff, Line.check_ok_iff]

theorem readTimeBound_ok_iff (maxTime : Option Nat) :
    readTimeBound line fields = .ok maxTime ↔ TimeBound fields maxTime := by
  constructor
  · intro h
    unfold readTimeBound at h
    split at h
    · rename_i hfield
      obtain rfl := Except.ok.inj h
      exact .untimed (.standard hfield)
    rename_i text hfield
    split at h
    · rename_i hflag
      obtain ⟨time, htime, rfl⟩ := (Result.map_ok_iff ..).1 h
      exact .timed (.given hfield hflag) ((numberAt_ok_iff ..).1 htime)
    · rename_i hflag
      obtain rfl := Except.ok.inj h
      exact .untimed (.given hfield hflag)
    · split at h
      · rename_i hlength
        obtain ⟨time, htime, rfl⟩ := (Result.map_ok_iff ..).1 h
        exact .short hlength ((field?_eq_some_iff ..).1 hfield).1 ((Line.readNumber_ok_iff ..).1 htime)
      · exact absurd h (line.refuse_ne_ok _ _)
  · intro h
    unfold readTimeBound
    cases h with
    | untimed hflag =>
      cases hflag with
      | given hfield hflag => simp only [hfield, show flag? _ = some false from hflag]
      | standard hfield => rw [hfield]
    | timed hflag htime =>
      cases hflag with
      | given hfield hflag =>
        simp only [hfield, show flag? _ = some true from hflag]
        exact (Result.map_ok_iff ..).2 ⟨_, (numberAt_ok_iff ..).2 htime, rfl⟩
    | short hlength hfield htime =>
      simp only [(field?_eq_some_iff ..).2 ⟨hfield, isDefault_of_isNumeral htime⟩, flag?_of_isNumeral htime,
        if_pos hlength]
      exact (Result.map_ok_iff ..).2 ⟨_, (Line.readNumber_ok_iff ..).2 htime, rfl⟩

theorem checkTimeBound_ok_iff (maxTime : Option Nat) (u : Unit) :
    checkTimeBound line maxTime = .ok u ↔ ∀ time, maxTime = some time → time ≤ maxTimeBound := by
  cases maxTime with
  | none => simp [checkTimeBound]
  | some time =>
    show (if maxTimeBound < time then line.refuse _ else .ok ()) = .ok u ↔ _
    by_cases hmost : maxTimeBound < time
    · simp [hmost]
    · simp [hmost, Nat.not_lt.1 hmost]

theorem bounds_iff_of_ne {fields : List String} (h : fields.length ≠ 2) (first second : Nat) :
    Bounds fields first second ↔
      At fields 1 IsNumeral defaultMinLength first ∧ At fields 2 IsNumeral defaultMaxLength second := by
  constructor
  · rintro (⟨htwo, -⟩ | ⟨-, hfirst, hsecond⟩)
    · exact absurd htwo h
    · exact ⟨hfirst, hsecond⟩
  · rintro ⟨hfirst, hsecond⟩
    exact .both h hfirst hsecond

/-- A line that gives the greatest length alone, or none, opens as one that gives 0 for the least. -/
theorem Opens.from_zero {fields : List String} {count most : Nat}
    (hcount : At fields 0 IsNumeral defaultStringCount count) (hpos : count ≠ 0) (hbounds : Bounds fields 0 most) :
    Opens fields ⟨defaultMinLength, most, [], count, .unbounded⟩ := by
  have h := Opens.words hcount hpos hbounds
  rwa [Nat.zero_min, Nat.zero_max] at h

theorem readRange_ok_iff (c : SimulationConfig) : readRange line fields = .ok c ↔ Opens fields c := by
  unfold readRange
  simp only [Result.bind_ok_iff, numberAt_ok_iff]
  constructor
  · rintro ⟨count, hcount, h⟩
    by_cases hzero : count = 0
    · rw [if_pos hzero, Result.pure_ok_iff] at h
      subst hzero h
      exact .nothing hcount
    rw [if_neg hzero] at h
    by_cases htwo : fields.length = 2
    · simp only [if_pos htwo, Result.bind_ok_iff, numberAt_ok_iff, Result.pure_ok_iff] at h
      obtain ⟨most, hmost, rfl⟩ := h
      exact .from_zero hcount hzero (.lone htwo hmost)
    rw [if_neg htwo] at h
    by_cases hthree : 3 ≤ fields.length
    · simp only [if_pos hthree, Result.bind_ok_iff, numberAt_ok_iff, Result.pure_ok_iff] at h
      obtain ⟨first, hfirst, second, hsecond, rfl⟩ := h
      exact .words hcount hzero (.both htwo hfirst hsecond)
    · rw [if_neg hthree, Result.pure_ok_iff] at h
      subst h
      exact .from_zero hcount hzero (.both htwo (.of_le (by omega)) (.of_le (by omega)))
  · rintro (hcount | ⟨hcount, hpos, hbounds⟩)
    · exact ⟨0, hcount, rfl⟩
    refine ⟨_, hcount, ?_⟩
    rw [if_neg hpos]
    cases hbounds with
    | lone htwo hmost =>
      simp only [if_pos htwo, Result.bind_ok_iff, numberAt_ok_iff, Result.pure_ok_iff]
      exact ⟨_, hmost, by rw [Nat.zero_min, Nat.zero_max]; rfl⟩
    | both htwo hfirst hsecond =>
      rw [if_neg htwo]
      by_cases hthree : 3 ≤ fields.length
      · simp only [if_pos hthree, Result.bind_ok_iff, numberAt_ok_iff, Result.pure_ok_iff]
        exact ⟨_, hfirst, _, hsecond, rfl⟩
      · obtain rfl := hfirst.eq_of_le (by omega)
        obtain rfl := hsecond.eq_of_le (by omega)
        rw [if_neg hthree]
        rfl

theorem readFurther_ok_iff (a : InputAlphabet) (c : SimulationConfig) (s : Settings) :
    readFurther a line fields c = .ok s ↔ ∃ maxSteps initial maxTime,
      At fields 3 IsNumeral defaultMaxSteps maxSteps ∧
      At fields 4 (fun text w => a.tokenize text = .ok w) c.initial initial ∧ At fields 5 IsFlag false s.trace ∧
      TimeBound fields maxTime ∧ (∀ time, maxTime = some time → time ≤ maxTimeBound) ∧
      { c with initial, limits := ⟨maxSteps, maxTime⟩ } = s.config := by
  unfold readFurther
  simp only [Result.bind_ok_iff, numberAt_ok_iff, readInitial_ok_iff, readTrace_ok_iff, readTimeBound_ok_iff,
    checkTimeBound_ok_iff, Result.pure_ok_iff]
  constructor
  · rintro ⟨maxSteps, hsteps, _, ⟨initial, hinitial, rfl⟩, trace, htrace, maxTime, htime, _, hmost, rfl⟩
    exact ⟨maxSteps, initial, maxTime, hsteps, hinitial, htrace, htime, hmost, rfl⟩
  · rintro ⟨maxSteps, initial, maxTime, hsteps, hinitial, htrace, htime, hmost, hconfig⟩
    refine ⟨maxSteps, hsteps, _, ⟨initial, hinitial, rfl⟩, s.trace, htrace, maxTime, htime, (), hmost, ?_⟩
    obtain ⟨config, trace⟩ := s
    obtain rfl := hconfig
    rfl

end Parts

/-! ## Reading the whole -/

section Whole

variable (a : InputAlphabet)

/-- A line of no fields says what stands where there is no line. -/
theorem says_nil_iff (c : SimulationConfig) (trace : Bool) : Says a [] c trace ↔ c = .standard ∧ trace = false := by
  constructor
  · intro h
    cases h with
    | nothing hcount => exact absurd (hcount.eq_of_le (Nat.zero_le _)) (by decide)
    | words hcount _ hbounds hsteps hinitial htrace htime =>
      obtain ⟨hfirst, hsecond⟩ := (bounds_iff_of_ne (by decide) ..).1 hbounds
      obtain rfl := hcount.eq_of_le (Nat.zero_le _)
      obtain rfl := hfirst.eq_of_le (Nat.zero_le _)
      obtain rfl := hsecond.eq_of_le (Nat.zero_le _)
      obtain rfl := hsteps.eq_of_le (Nat.zero_le _)
      obtain rfl := hinitial.eq_of_le (Nat.zero_le _)
      obtain rfl := htrace.eq_of_le (Nat.zero_le _)
      cases htime with
      | untimed => exact ⟨rfl, rfl⟩
      | timed hflag => cases hflag.eq_of_le (Nat.zero_le _)
      | short hlength => cases hlength
  · rintro ⟨rfl, rfl⟩
    exact .words (.of_le (Nat.zero_le _)) (by decide) (.both (by decide) (.standard rfl) (.standard rfl))
      (.standard rfl) (.standard rfl) (.standard rfl) (.untimed (.standard rfl)) nofun

/-- The further fields, which are read only if there are words to test. -/
def readRest (line : Line) (fields : List String) (c : SimulationConfig) : Reading Settings :=
  if c.stringCount = 0 then pure ⟨c, false⟩ else readFurther a line fields c

/-- **A line says what it opens with and what is read of its further fields.** -/
theorem says_iff (line : Line) (fields : List String) (c : SimulationConfig) (trace : Bool) :
    Says a fields c trace ↔ ∃ o, Opens fields o ∧ readRest a line fields o = .ok ⟨c, trace⟩ := by
  constructor
  · intro h
    cases h with
    | nothing hcount => exact ⟨_, .nothing hcount, rfl⟩
    | words hcount hpos hbounds hsteps hinitial htrace htime hmost =>
      refine ⟨_, .words hcount hpos hbounds, ?_⟩
      rw [readRest, if_neg hpos, readFurther_ok_iff]
      exact ⟨_, _, _, hsteps, hinitial, htrace, htime, hmost, rfl⟩
  · rintro ⟨o, hopens, h⟩
    cases hopens with
    | nothing hcount =>
      cases h
      exact .nothing hcount
    | words hcount hpos hbounds =>
      rw [readRest, if_neg hpos, readFurther_ok_iff] at h
      obtain ⟨_, _, _, hsteps, hinitial, htrace, htime, hmost, rfl⟩ := h
      exact .words hcount hpos hbounds hsteps hinitial htrace htime hmost

/-- A line with fields is read as its range, its further fields and the validation of what they come to. -/
theorem read_eq_of_fields {line : Line} {fields : List String}
    (hread : readFields line maxMachineSettings = .ok fields) (hne : fields ≠ []) :
    read a line = do
      let c ← readRange line fields
      let s ← readRest a line fields c
      let config ← line.check (s.config.validate a.size)
      return { s with config } := by
  unfold read readRest
  rw [hread]
  dsimp only [bind, Except.bind]
  rw [if_neg (mt List.isEmpty_iff.1 hne)]
  cases readRange line fields with
  | error e => rfl
  | ok c =>
    dsimp only
    by_cases hzero : c.stringCount = 0
    · rw [if_pos hzero, if_pos hzero]
    · rw [if_neg hzero, if_neg hzero]

theorem read_ok_iff_of_fields {line : Line} {fields : List String}
    (hread : readFields line maxMachineSettings = .ok fields) (s : Settings) :
    read a line = .ok s ↔ ∃ c, Says a fields c s.trace ∧ c.validate a.size = .ok s.config := by
  obtain ⟨config, trace⟩ := s
  by_cases hnil : fields = []
  · subst hnil
    have hstandard : read a line = .ok standard := by rw [read, hread]; rfl
    simp only [hstandard, says_nil_iff]
    constructor
    · rintro ⟨⟩
      exact ⟨_, ⟨rfl, rfl⟩, SimulationConfig.validate_standard _⟩
    · rintro ⟨_, ⟨rfl, rfl⟩, hvalid⟩
      rw [SimulationConfig.validate_standard] at hvalid
      cases hvalid
      rfl
  · rw [read_eq_of_fields a hread hnil]
    simp only [Result.bind_ok_iff, readRange_ok_iff, Line.check_ok_iff, Result.pure_ok_iff, says_iff a line]
    constructor
    · rintro ⟨o, hopens, ⟨c, trace⟩, hrest, _, hvalid, ⟨⟩⟩
      exact ⟨c, ⟨o, hopens, hrest⟩, hvalid⟩
    · rintro ⟨c, ⟨o, hopens, hrest⟩, hvalid⟩
      exact ⟨o, hopens, _, hrest, _, hvalid, rfl⟩

/-- **The reader accepts exactly the lines that say something valid.** -/
theorem read_ok_iff (line : Line) (s : Settings) :
    read a line = .ok s ↔ ∃ fields c, LineFields line.text fields ∧ fields.length ≤ maxMachineSettings ∧
      Says a fields c s.trace ∧ c.validate a.size = .ok s.config := by
  constructor
  · intro h
    obtain ⟨fields, hfields, -⟩ := (Result.bind_ok_iff ..).1 h
    obtain ⟨c, hsaid, hvalid⟩ := (read_ok_iff_of_fields a hfields s).1 h
    obtain ⟨hline, hmost⟩ := (readFields_ok_iff ..).1 hfields
    exact ⟨fields, c, hline, hmost, hsaid, hvalid⟩
  · rintro ⟨fields, c, hline, hmost, hsaid, hvalid⟩
    exact (read_ok_iff_of_fields a ((readFields_ok_iff ..).2 ⟨hline, hmost⟩) s).2 ⟨c, hsaid, hvalid⟩

end Whole

end Settings
end BoundedTuring
