import BoundedTuring.Proofs.Description.Settings.RoundTrip
/-!
# What `default` stands for

A field `default` stands for the standard of its place, so a text that reads as that standard may be put there instead
(`Says.set`), and fields `default` may follow the last one (`Says.append`) as long as they do not change what the others
mean: a second length makes the first one the least, and an eighth field lets no number stand in the seventh.
-/
namespace BoundedTuring
namespace Settings

open Text (IsField IsNumeral)

/-- A text that says what `default` stands for at a place of a line with so many fields.  The initial word is the first
one of the least length. -/
inductive Explicit (a : InputAlphabet) (length least : Nat) : Nat → String → Prop
  | count {text : String} (h : IsNumeral text 100) : Explicit a length least 0 text
  | loneLength {text : String} (hlength : length = 2) (h : IsNumeral text 5) : Explicit a length least 1 text
  | firstLength {text : String} (hlength : 3 ≤ length) (h : IsNumeral text 0) : Explicit a length least 1 text
  | secondLength {text : String} (h : IsNumeral text 5) : Explicit a length least 2 text
  | maxSteps {text : String} (h : IsNumeral text 18446744073709551615) : Explicit a length least 3 text
  | initial {text : String} (hleast : 1 ≤ least) (h : a.render (Word.least least) = .ok text) :
    Explicit a length least 4 text
  | trace {text : String} (h : IsFlag text false) : Explicit a length least 5 text
  | timed {text : String} (h : IsFlag text false) : Explicit a length least 6 text
  | maxTime {text : String} (h : IsNumeral text 3600000) : Explicit a length least 7 text

section

variable {a : InputAlphabet} {fields : List String} {c : SimulationConfig} {trace : Bool}

theorem Explicit.isField (ha : a.Built) {length least index : Nat} {text : String}
    (h : Explicit a length least index text) : IsField text := by
  cases h with
  | count h | loneLength _ h | firstLength _ h | secondLength h | maxSteps h | maxTime h =>
    exact (isField_of_isNumeral h).1
  | trace h | timed h => exact (isField_of_isFlag h).1
  | initial hleast h =>
    refine (ha.isField_render (fun hnil => ?_) h).1
    rw [Word.least, List.replicate_eq_nil_iff] at hnil
    omega

/-! ## Putting what it stands for in its place -/

section Replaced

variable {index : Nat} {text : String}

theorem field?_set_of_ne {place : Nat} (hne : index ≠ place) :
    field? (fields.set index text) place = field? fields place := by
  rw [field?, List.getElem?_set_ne hne, field?]

/-- **A text that reads as the standard may stand in the place of `default`.** -/
theorem At.set {α : Type} {place : Nat} {Reads : String → α → Prop} {standard value : α}
    (h : At fields place Reads standard value) (hdefault : field? fields index = none)
    (hreads : index = place → Reads text standard) : At (fields.set index text) place Reads standard value := by
  by_cases hplace : index = place
  · subst hplace
    rw [at_iff, hdefault] at h
    subst h
    cases hfield : field? (fields.set index text) index with
    | none => exact .standard hfield
    | some found =>
      obtain ⟨hfound, -⟩ := (field?_eq_some_iff ..).1 hfield
      have hlt : index < fields.length := by simpa using (List.getElem?_eq_some_iff.1 hfound).1
      rw [List.getElem?_set_self hlt] at hfound
      cases hfound
      exact .given hfield (hreads rfl)
  · exact h.congr (field?_set_of_ne hplace)

variable {least : Nat}

theorem Bounds.set {first second : Nat} (h : Bounds fields first second) (hdefault : field? fields index = none)
    (htext : Explicit a fields.length least index text) : Bounds (fields.set index text) first second := by
  cases h with
  | lone hlength hmost =>
    refine .lone (List.length_set.trans hlength) (hmost.set hdefault fun hindex => ?_)
    subst hindex
    cases htext with
    | loneLength _ h => exact h
    | firstLength hthree => omega
  | both hlength hfirst hsecond =>
    refine .both (fun htwo => hlength (List.length_set.symm.trans htwo)) (hfirst.set hdefault fun hindex => ?_)
      (hsecond.set hdefault fun hindex => ?_)
    · subst hindex
      cases htext with
      | loneLength htwo => exact absurd htwo hlength
      | firstLength _ h => exact h
    · subst hindex
      cases htext with
      | secondLength h => exact h

theorem TimeBound.set {maxTime : Option Nat} (h : TimeBound fields maxTime) (hdefault : field? fields index = none)
    (htext : Explicit a fields.length least index text) : TimeBound (fields.set index text) maxTime := by
  have hflag : index = 6 → IsFlag text false := by
    rintro rfl
    cases htext with
    | timed h => exact h
  cases h with
  | untimed h => exact .untimed (h.set hdefault hflag)
  | timed h htime =>
    refine .timed (h.set hdefault hflag) (htime.set hdefault ?_)
    rintro rfl
    cases htext with
    | maxTime h => exact h
  | short hlength hfield htime =>
    -- a number in the seventh field is not what is replaced
    have hne : index ≠ 6 := by
      rintro rfl
      rw [(field?_eq_some_iff ..).2 ⟨hfield, isDefault_of_isNumeral htime⟩] at hdefault
      cases hdefault
    exact .short (List.length_set.trans hlength) ((List.getElem?_set_ne hne).trans hfield) htime

/-- **A line says the same with what `default` stands for in its place.** -/
theorem Says.set (ha : a.Built) (h : Says a fields c trace) (hdefault : field? fields index = none)
    (htext : Explicit a fields.length least index text) (hleast : index = 4 → c.minLength = least) :
    Says a (fields.set index text) c trace := by
  have hcount : index = 0 → IsNumeral text 100 := by
    rintro rfl
    cases htext with
    | count h => exact h
  cases h with
  | nothing h => exact .nothing (h.set hdefault hcount)
  | words h hpos hbounds hsteps hinitial htrace htime hmost =>
    refine .words (h.set hdefault hcount) hpos (hbounds.set hdefault htext) (hsteps.set hdefault ?_)
      (hinitial.set hdefault ?_) (htrace.set hdefault ?_) (htime.set hdefault htext) hmost
    · rintro rfl
      cases htext with
      | maxSteps h => exact h
    · rintro rfl
      cases htext with
      | initial _ h =>
        rw [← hleast rfl] at h
        exact (ha.unambiguous.tokenize_ok_iff ..).2 ((InputAlphabet.render_ok_iff ..).1 h)
    · rintro rfl
      cases htext with
      | trace h => exact h

/-- The first word of the least length is within the bounds, so validation leaves the bounds as they are. -/
theorem Says.minLength_eq {base : Nat} {c' : SimulationConfig} (h : Says a fields c trace)
    (hdefault : field? fields 4 = none) (hvalid : c.validate base = .ok c') : c.minLength = c'.minLength := by
  have hstarts : c.initial.length = c.minLength ∧ c.minLength ≤ c.maxLength := by
    cases h with
    | nothing => decide
    | words _ _ _ _ hinitial =>
      rw [at_iff, hdefault] at hinitial
      subst hinitial
      exact ⟨List.length_replicate, Nat.le_trans (Nat.min_le_left ..) (Nat.le_max_left ..)⟩
  obtain ⟨hlength, hordered⟩ := hstarts
  obtain ⟨-, -, hbounds⟩ := (SimulationConfig.validate_ok_iff ..).1 hvalid
  rw [if_pos ((SimulationConfig.startsInRange_ordered_iff c).2 (by omega))] at hbounds
  rw [← hbounds]
  exact (Nat.min_eq_left hordered).symm

end Replaced

/-! ## Adding fields -/

section Appended

/-- The last field has its meaning because it is the last: a lone length, or a time bound in the place of its flag. -/
inductive EndMatters (fields : List String) : Prop
  | length (hlength : fields.length = 2)
  | time {text : String} {time : Nat} (hlength : fields.length = 7) (hfield : fields[6]? = some text)
    (h : IsNumeral text time)

variable {more : List String}

theorem field?_append (hmore : ∀ word ∈ more, isDefault word = true) (index : Nat) :
    field? (fields ++ more) index = field? fields index := by
  unfold field?
  by_cases hlt : index < fields.length
  · rw [List.getElem?_append_left hlt]
  · rw [List.getElem?_append_right (Nat.not_lt.1 hlt), List.getElem?_eq_none (Nat.not_lt.1 hlt)]
    refine Option.filter_eq_none_iff.2 fun word hword => ?_
    simp [hmore word (List.mem_of_getElem? hword)]

theorem Bounds.append {first second : Nat} (h : Bounds fields first second)
    (hmore : ∀ word ∈ more, isDefault word = true) (hend : fields.length = 2 → more = []) :
    Bounds (fields ++ more) first second := by
  cases h with
  | lone hlength hmost =>
    rw [hend hlength, List.append_nil]
    exact .lone hlength hmost
  | both hlength hfirst hsecond =>
    by_cases htwo : (fields ++ more).length = 2
    · -- the two fields give the greatest length only, which is the standard just as the least one
      rw [List.length_append] at htwo
      obtain rfl := hfirst.eq_of_le (by omega)
      obtain rfl := hsecond.eq_of_le (by omega)
      refine .lone (List.length_append.trans htwo) (.standard ?_)
      rw [field?_append hmore]
      exact field?_eq_none_of_le (by omega)
    · exact .both htwo (hfirst.congr (field?_append hmore 1)) (hsecond.congr (field?_append hmore 2))

theorem TimeBound.append {maxTime : Option Nat} (h : TimeBound fields maxTime)
    (hmore : ∀ word ∈ more, isDefault word = true)
    (hend : ∀ text time, fields.length = 7 → fields[6]? = some text → IsNumeral text time → more = []) :
    TimeBound (fields ++ more) maxTime := by
  cases h with
  | untimed hflag => exact .untimed (hflag.congr (field?_append hmore 6))
  | timed hflag htime => exact .timed (hflag.congr (field?_append hmore 6)) (htime.congr (field?_append hmore 7))
  | short hlength hfield htime =>
    rw [hend _ _ hlength hfield htime, List.append_nil]
    exact .short hlength hfield htime

/-- **A line says the same with more fields `default`**, unless the last of the others stops being the last. -/
theorem Says.append (h : Says a fields c trace) (hmore : ∀ word ∈ more, isDefault word = true)
    (hend : c.stringCount ≠ 0 → EndMatters fields → more = []) : Says a (fields ++ more) c trace := by
  cases h with
  | nothing hcount => exact .nothing (hcount.congr (field?_append hmore 0))
  | words hcount hpos hbounds hsteps hinitial htrace htime hmost =>
    exact .words (hcount.congr (field?_append hmore 0)) hpos
      (hbounds.append hmore fun hlength => hend hpos (.length hlength)) (hsteps.congr (field?_append hmore 3))
      (hinitial.congr (field?_append hmore 4)) (htrace.congr (field?_append hmore 5))
      (htime.append hmore fun _ _ hlength hfield h => hend hpos (.time hlength hfield h)) hmost

end Appended

/-- **A lone length says the same as one with a least length of 0 in front of it.** -/
theorem Says.lone {count length : String} (h : Says a [count, length] c trace) :
    Says a [count, "0", length] c trace := by
  cases h with
  | nothing hcount => exact .nothing (hcount.congr rfl)
  | words hcount hpos hbounds hsteps hinitial htrace htime hmost =>
    have hzero : At [count, "0", length] 1 IsNumeral defaultMinLength 0 := .toString _ rfl (by decide)
    refine .words (hcount.congr rfl) hpos ?_ (hsteps.congr rfl) (hinitial.congr rfl) (htrace.congr rfl) ?_ hmost
    · cases hbounds with
      | lone _ hlength => exact .both (by simp) hzero (hlength.congr rfl)
      | both hlength => exact absurd rfl hlength
    · cases htime with
      | untimed hflag => exact .untimed (hflag.congr rfl)
      | timed hflag htime => exact .timed (hflag.congr rfl) (htime.congr rfl)
      | short hlength => cases hlength

end

/-! ## Lines that are read the same -/

/-- Fields that are read as certain settings are so with what `default` stands for in its place, with more fields
`default`, and with the least length given that a lone length has. -/
structure Synonymous (a : InputAlphabet) (number : Nat) (fields : List String) (s : Settings) : Prop where
  replaced : ∀ (index : Nat) (word text : String), fields[index]? = some word → isDefault word = true →
    Explicit a fields.length s.config.minLength index text →
    read a (Line.ofFields number (fields.set index text)) = .ok s
  appended : ∀ more : List String, (∀ word ∈ more, isDefault word = true) →
    (fields ++ more).length ≤ maxMachineSettings → (s.config.stringCount ≠ 0 → ¬ EndMatters fields) →
    read a (Line.ofFields number (fields ++ more)) = .ok s
  lone : ∀ count length : String, fields = [count, length] →
    read a (Line.ofFields number [count, "0", length]) = .ok s

/-- **In every line that is read, `default` is a synonym for the standard of its place.** -/
theorem default_is_synonym {a : InputAlphabet} (ha : a.Built) (line : Line) (s : Settings) (h : read a line = .ok s) :
    ∃ fields, LineFields line.text fields ∧ Synonymous a line.number fields s := by
  obtain ⟨fields, c, hfields, hlength, hsaid, hvalid⟩ := (read_ok_iff ..).1 h
  have heach := hfields.eq_ofFields.1
  have hread {fields' : List String} (heach' : ∀ field ∈ fields', IsField field)
      (hlength' : fields'.length ≤ maxMachineSettings) (hsaid' : Says a fields' c s.trace) :
      read a (Line.ofFields line.number fields') = .ok s :=
    (read_ok_iff ..).2 ⟨fields', c, lineFields_ofFields _ heach', hlength', hsaid', hvalid⟩
  refine ⟨fields, hfields, ⟨fun index word text hfield hword htext => ?_, fun more hmore hlength' hend => ?_, ?_⟩⟩
  · have hdefault : field? fields index = none := by rw [field?, hfield, Option.filter_some, hword]; rfl
    refine hread (fun field hmem => ?_) (List.length_set.trans_le hlength) (hsaid.set ha hdefault htext ?_)
    · rcases List.mem_or_eq_of_mem_set hmem with hmem | rfl
      · exact heach field hmem
      · exact htext.isField ha
    · rintro rfl
      exact hsaid.minLength_eq hdefault hvalid
  · refine hread (List.forall_mem_append.2 ⟨heach, fun word hword => (isField_of_isDefault (hmore word hword)).1⟩)
      hlength' (hsaid.append hmore fun hpos hmatters => ?_)
    rw [← SimulationConfig.stringCount_of_validate hvalid] at hpos
    exact absurd hmatters (hend hpos)
  · rintro count length rfl
    refine hread ?_ (by simp [maxMachineSettings]) hsaid.lone
    simp only [List.forall_mem_cons] at heach ⊢
    exact ⟨heach.1, (Text.isField_toString 0).1, heach.2⟩

/-- A standard count and a lone length. -/
theorem default_is_synonym_of_lone_length :
    let a : InputAlphabet := ⟨#["0", "1"]⟩
    let line : Line := ⟨6, "DEFAULT 3".toList⟩
    let s : Settings := ⟨⟨0, 3, [], 100, .unbounded⟩, false⟩
    a.Built ∧ read a line = .ok s ∧ ∃ fields, LineFields line.text fields ∧ Synonymous a line.number fields s := by
  intro a line s
  have hlist : InputAlphabet.ofList ["0", "1"] = .ok a :=
    Alphabet.ofListAvoiding_of_ordered [] rfl (by decide) (by decide +kernel) (by decide)
  have ha : a.Built := .inl ⟨_, hlist⟩
  have hread : read a line = .ok s := by decide +kernel
  exact ⟨ha, hread, default_is_synonym ha line s hread⟩

end Settings
end BoundedTuring
