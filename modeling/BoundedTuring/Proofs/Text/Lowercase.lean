import BoundedTuring.Text.Lowercase
import Mathlib.Data.List.Infix
/-!
# Lower case in its surroundings

Of all characters only a capital sigma has a lower case that depends on what stands around it (`lowercaseAt`).  So the
lower case of a text is made of those of its pieces, each in its place (`lowercaseAmong_append`).  Where the characters
of a piece tell of each of its sigmas whether it ends a word, the piece has the same lower case in every text as alone
(`lowercaseAmong_of_settled`), and its lower case is part of that of the text.  Where they do not tell, a letter in
front of the piece or behind it takes the lower case of the piece away (`exists_text_without`).
-/
namespace BoundedTuring
namespace Text

/-! ## Character by character -/

/-- The lower case of a character with some characters before it, last first, and some after it. -/
def lowercaseAt (before : List Char) (c : Char) (after : List Char) : List Char :=
  if c = capitalSigma ∧ meetsCased before = true ∧ meetsCased after = false then [finalSigma] else lowercaseChar c

/-- The lower case of a piece of a text, with the characters before it, last first, and those after it. -/
def lowercaseAmong (before : List Char) : List Char → List Char → List Char
  | [], _ => []
  | c :: piece, after => lowercaseAt before c (piece ++ after) ++ lowercaseAmong (c :: before) piece after

theorem lowercaseFrom_eq : ∀ (piece before done : List Char),
    lowercaseFrom before done piece = done.reverse ++ lowercaseAmong before piece []
  | [], _, done => (List.append_nil done.reverse).symm
  | c :: piece, before, done => by
    rw [lowercaseFrom, lowercaseAmong, lowercaseAt, List.append_nil]
    split
    · rw [lowercaseFrom_eq piece, List.reverse_cons, List.append_assoc]
    · rw [lowercaseFrom_eq piece, List.reverseAux_eq, List.reverse_append, List.reverse_reverse, List.append_assoc]

theorem lowercase_eq (text : String) : lowercase text = lowercaseAmong [] text.toList [] :=
  lowercaseFrom_eq text.toList [] []

/-- **The lower case of a text is made of those of its pieces.** -/
theorem lowercaseAmong_append : ∀ (piece piece' before after : List Char),
    lowercaseAmong before (piece ++ piece') after =
      lowercaseAmong before piece (piece' ++ after) ++ lowercaseAmong (piece.reverse ++ before) piece' after
  | [], _, _, _ => rfl
  | c :: piece, piece', before, after => by
    rw [List.cons_append, lowercaseAmong, lowercaseAmong_append piece, lowercaseAmong, List.append_assoc,
      List.append_assoc, List.reverse_cons, List.append_assoc]
    rfl

/-! ## Sigmas whose end is told -/

theorem meetsCased_cons (c : Char) (cs : List Char) :
    meetsCased (c :: cs) = if isCaseIgnorable c then meetsCased cs else isCased c := by
  unfold meetsCased
  rw [List.dropWhile_cons]
  cases isCaseIgnorable c <;> rfl

/-- Looking on beyond some characters is for when all of them are looked through. -/
theorem meetsCased_append (outer : List Char) : ∀ cs : List Char,
    meetsCased (cs ++ outer) = if cs.all isCaseIgnorable then meetsCased outer else meetsCased cs
  | [] => rfl
  | c :: cs => by
    rw [List.cons_append, meetsCased_cons, meetsCased_cons, meetsCased_append outer cs, List.all_cons]
    cases isCaseIgnorable c <;> rfl

theorem meetsCased_of_all {cs : List Char} (h : cs.all isCaseIgnorable = true) : meetsCased cs = false := by
  have happend := meetsCased_append [] cs
  rw [List.append_nil, if_pos h] at happend
  exact happend

/-- The characters before a sigma, last first, and those after it tell whether it ends a word, whatever else there is:
the first after it that is not looked through is cased; or there is one before it, and that one is not cased or there is
one after it too. -/
def Tells (before after : List Char) : Prop :=
  meetsCased after = true ∨
    before.all isCaseIgnorable = false ∧ (meetsCased before = false ∨ after.all isCaseIgnorable = false)

instance (before after : List Char) : Decidable (Tells before after) :=
  inferInstanceAs (Decidable (_ = true ∨ _ = false ∧ (_ = false ∨ _ = false)))

/-- The characters of a piece that comes after some others tell of each of its sigmas whether it ends a word. -/
def SettledAfter (before : List Char) : List Char → Prop
  | [] => True
  | c :: piece => (c = capitalSigma → Tells before piece) ∧ SettledAfter (c :: before) piece

instance decidableSettledAfter : ∀ before piece : List Char, Decidable (SettledAfter before piece)
  | _, [] => inferInstanceAs (Decidable True)
  | before, c :: piece =>
    let _ := decidableSettledAfter (c :: before) piece
    inferInstanceAs (Decidable ((c = capitalSigma → Tells before piece) ∧ SettledAfter (c :: before) piece))

/-- A text that tells of each of its sigmas whether it ends a word. -/
def Settled (text : String) : Prop := SettledAfter [] text.toList

instance (text : String) : Decidable (Settled text) := inferInstanceAs (Decidable (SettledAfter [] text.toList))

theorem lowercaseAt_of_tells {before after : List Char} (h : Tells before after) (outer outer' : List Char) :
    lowercaseAt (before ++ outer) capitalSigma (after ++ outer') = lowercaseAt before capitalSigma after := by
  unfold lowercaseAt
  rw [meetsCased_append, meetsCased_append]
  rcases h with hafter | ⟨hbefore, hnot | hafter⟩
  · have hnone : after.all isCaseIgnorable = false := by
      rw [← Bool.not_eq_true]
      intro hall
      rw [meetsCased_of_all hall] at hafter
      cases hafter
    simp [hafter, hnone]
  · simp [hbefore, hnot]
  · simp [hbefore, hafter]

/-- **A piece that tells of its sigmas has the same lower case everywhere.** -/
theorem lowercaseAmong_of_settled (outer outer' : List Char) : ∀ {piece before : List Char},
    SettledAfter before piece → lowercaseAmong (before ++ outer) piece outer' = lowercaseAmong before piece []
  | [], _, _ => rfl
  | c :: piece, before, ⟨hc, hpiece⟩ => by
    have hrest := lowercaseAmong_of_settled outer outer' hpiece
    have hfirst : lowercaseAt (before ++ outer) c (piece ++ outer') = lowercaseAt before c piece := by
      by_cases hsigma : c = capitalSigma
      · subst hsigma
        exact lowercaseAt_of_tells (hc rfl) outer outer'
      · unfold lowercaseAt
        rw [if_neg (fun h => hsigma h.1), if_neg (fun h => hsigma h.1)]
    rw [lowercaseAmong, lowercaseAmong, hfirst, List.append_nil]
    exact congrArg _ hrest

theorem Settled.lowercase_within {text whole : String} (h : Settled text) (hpart : text.toList <:+: whole.toList) :
    lowercase text <:+: lowercase whole := by
  obtain ⟨first, last, hwhole⟩ := hpart
  have hpiece := lowercaseAmong_of_settled first.reverse last h
  rw [List.nil_append] at hpiece
  rw [lowercase_eq, lowercase_eq, ← hwhole, List.append_assoc, lowercaseAmong_append, lowercaseAmong_append,
    List.append_nil, List.append_nil, List.append_nil, hpiece, ← List.append_assoc]
  exact List.infix_append ..

/-- Without a capital sigma nothing has to be told. -/
theorem settledAfter_of_not_mem : ∀ {piece : List Char} (before : List Char), capitalSigma ∉ piece →
    SettledAfter before piece
  | [], _, _ => trivial
  | c :: _, before, h => by
    obtain ⟨hc, hpiece⟩ := List.ne_and_not_mem_of_not_mem_cons h
    exact ⟨fun heq => absurd heq.symm hc, settledAfter_of_not_mem (c :: before) hpiece⟩

/-! ## Letters of either case -/

/-- Two texts that are the same but for the case of the letters a to z. -/
def SameLetters (text text' : String) : Prop := text.toList.map Char.toLower = text'.toList.map Char.toLower

instance (text text' : String) : Decidable (SameLetters text text') :=
  inferInstanceAs (Decidable (text.toList.map Char.toLower = text'.toList.map Char.toLower))

/-- What is the same of the letters A to Z and of their lower cases is the same of every character and its own. -/
theorem apply_toLower {α : Type} (f : Char → α)
    (hletter : ∀ n < 26, f (Char.ofNat (65 + n)).toLower = f (Char.ofNat (65 + n))) (c : Char) : f c.toLower = f c := by
  by_cases hrange : 65 ≤ c.toNat ∧ c.toNat ≤ 90
  · have hc := hletter (c.toNat - 65) (by omega)
    rwa [Nat.add_sub_cancel' hrange.1, Char.ofNat_toNat] at hc
  · have hsame : c.toLower = c := dif_neg hrange
    rw [hsame]

/-- No letter is looked through. -/
theorem isCaseIgnorable_of_letter {c : Char} (h : 65 ≤ c.toNat ∧ c.toNat ≤ 90 ∨ 97 ≤ c.toNat ∧ c.toNat ≤ 122) :
    isCaseIgnorable c = false := by
  have hranges : ∀ r ∈ caseIgnorableRanges, r.2 < 65 ∨ 90 < r.1 ∧ r.2 < 97 ∨ 122 < r.1 := by decide +kernel
  refine List.any_eq_false.2 fun r hr => ?_
  have hr := hranges r hr
  simp only [Bool.and_eq_true, decide_eq_true_iff]
  omega

theorem isCaseIgnorable_toLower (c : Char) : isCaseIgnorable c.toLower = isCaseIgnorable c := by
  have hcodes : ∀ n < 26, (Char.ofNat (65 + n)).toNat = 65 + n ∧ (Char.ofNat (65 + n)).toLower.toNat = 97 + n := by
    decide
  refine apply_toLower isCaseIgnorable (fun n hn => ?_) c
  obtain ⟨hupper, hlower⟩ := hcodes n hn
  rw [isCaseIgnorable_of_letter (.inr (by omega)), isCaseIgnorable_of_letter (.inl (by omega))]

theorem isCased_toLower (c : Char) : isCased c.toLower = isCased c := apply_toLower isCased (by decide +kernel) c

theorem lowercaseChar_toLower (c : Char) : lowercaseChar c.toLower = lowercaseChar c :=
  apply_toLower lowercaseChar (by decide +kernel) c

theorem toLower_eq_capitalSigma_iff (c : Char) : c.toLower = capitalSigma ↔ c = capitalSigma :=
  decide_eq_decide.1 (apply_toLower (fun c => decide (c = capitalSigma)) (by decide +kernel) c)

theorem meetsCased_map_toLower : ∀ cs : List Char, meetsCased (cs.map Char.toLower) = meetsCased cs
  | [] => rfl
  | c :: cs => by
    rw [List.map_cons, meetsCased_cons, meetsCased_cons, isCaseIgnorable_toLower, isCased_toLower,
      meetsCased_map_toLower cs]

theorem lowercaseAmong_map_toLower : ∀ piece before after : List Char,
    lowercaseAmong (before.map Char.toLower) (piece.map Char.toLower) (after.map Char.toLower) =
      lowercaseAmong before piece after
  | [], _, _ => rfl
  | c :: piece, before, after => by
    rw [List.map_cons, lowercaseAmong, lowercaseAmong, ← List.map_cons, lowercaseAmong_map_toLower piece,
      ← List.map_append]
    unfold lowercaseAt
    rw [meetsCased_map_toLower, meetsCased_map_toLower, lowercaseChar_toLower]
    simp only [toLower_eq_capitalSigma_iff]

/-- **The case of letters is nothing to the lower case.** -/
theorem SameLetters.lowercase_eq {text text' : String} (h : SameLetters text text') :
    lowercase text = lowercase text' := by
  rw [Text.lowercase_eq, Text.lowercase_eq, ← lowercaseAmong_map_toLower, h, lowercaseAmong_map_toLower]

theorem tells_map_toLower_iff (before after : List Char) :
    Tells (before.map Char.toLower) (after.map Char.toLower) ↔ Tells before after := by
  have hall : ∀ cs : List Char, (cs.map Char.toLower).all isCaseIgnorable = cs.all isCaseIgnorable := fun cs => by
    rw [List.all_map]
    congr 1
    exact funext isCaseIgnorable_toLower
  unfold Tells
  rw [meetsCased_map_toLower, meetsCased_map_toLower, hall, hall]

theorem settledAfter_map_toLower_iff : ∀ piece before : List Char,
    SettledAfter (before.map Char.toLower) (piece.map Char.toLower) ↔ SettledAfter before piece
  | [], _ => Iff.rfl
  | c :: piece, before => by
    rw [List.map_cons, SettledAfter, SettledAfter, toLower_eq_capitalSigma_iff, tells_map_toLower_iff, ← List.map_cons,
      settledAfter_map_toLower_iff piece]

theorem SameLetters.settled_iff {text text' : String} (h : SameLetters text text') : Settled text ↔ Settled text' := by
  have hleft := settledAfter_map_toLower_iff text.toList []
  rw [h] at hleft
  exact hleft.symm.trans (settledAfter_map_toLower_iff text'.toList [])

/-! ## Sigmas whose end is not told -/

theorem exists_untold : ∀ {piece before : List Char}, ¬ SettledAfter before piece →
    ∃ first last, piece = first ++ capitalSigma :: last ∧ ¬ Tells (first.reverse ++ before) last
  | [], _, h => absurd trivial h
  | c :: piece, before, h => by
    by_cases hc : c = capitalSigma → Tells before piece
    · obtain ⟨first, last, rfl, htold⟩ := exists_untold (fun hpiece => h ⟨hc, hpiece⟩)
      refine ⟨c :: first, last, rfl, ?_⟩
      rwa [List.reverse_cons, List.append_assoc]
    · obtain ⟨rfl, htold⟩ := Classical.not_imp.1 hc
      exact ⟨[], piece, rfl, htold⟩

section

variable {x : Char} {outer outer' : List Char}

/-- Surroundings that nowhere make more of a character make no more of it in a piece. -/
theorem count_lowercaseAmong_le (h : ∀ before c after, (lowercaseAt (before ++ outer) c (after ++ outer')).count x ≤
      (lowercaseAt before c after).count x) : ∀ piece before after : List Char,
    (lowercaseAmong (before ++ outer) piece (after ++ outer')).count x ≤ (lowercaseAmong before piece after).count x
  | [], _, _ => Nat.le_refl _
  | c :: piece, before, after => by
    rw [lowercaseAmong, lowercaseAmong, List.count_append, List.count_append, ← List.append_assoc]
    exact Nat.add_le_add (h before c (piece ++ after)) (count_lowercaseAmong_le h piece (c :: before) after)

/-- **If they make less of it of a sigma, there is less of it in the whole piece.** -/
theorem count_lowercaseAmong_lt (h : ∀ before c after, (lowercaseAt (before ++ outer) c (after ++ outer')).count x ≤
      (lowercaseAt before c after).count x) {first last : List Char}
    (hlt : (lowercaseAt (first.reverse ++ outer) capitalSigma (last ++ outer')).count x <
      (lowercaseAt first.reverse capitalSigma last).count x) :
    (lowercaseAmong outer (first ++ capitalSigma :: last) outer').count x <
      (lowercaseAmong [] (first ++ capitalSigma :: last) []).count x := by
  have hfirst := count_lowercaseAmong_le h first [] (capitalSigma :: last)
  have hlast := count_lowercaseAmong_le h last (capitalSigma :: first.reverse) []
  rw [List.nil_append] at hfirst hlast
  rw [lowercaseAmong_append, lowercaseAmong_append, lowercaseAmong, lowercaseAmong]
  simp only [List.count_append, List.append_nil]
  exact Nat.add_lt_add_of_le_of_lt hfirst (Nat.add_lt_add_of_lt_of_le hlt hlast)

end

theorem lowercaseChar_capitalSigma : lowercaseChar capitalSigma = ['σ'] := by decide +kernel

section

variable {before after before' after' : List Char}

/-- Where more sigmas end a word, there are no more of the others. -/
theorem count_sigma_le (h : meetsCased before = true ∧ meetsCased after = false →
      meetsCased before' = true ∧ meetsCased after' = false) (c : Char) :
    (lowercaseAt before' c after').count 'σ' ≤ (lowercaseAt before c after).count 'σ' := by
  unfold lowercaseAt
  by_cases hends : c = capitalSigma ∧ meetsCased before = true ∧ meetsCased after = false
  · rw [if_pos hends, if_pos ⟨hends.1, h hends.2⟩]
  · rw [if_neg hends]
    split
    · exact Nat.zero_le _
    · exact Nat.le_refl _

/-- Where fewer sigmas end a word, there are no more final ones. -/
theorem count_finalSigma_le (h : meetsCased before' = true ∧ meetsCased after' = false →
      meetsCased before = true ∧ meetsCased after = false) (c : Char) :
    (lowercaseAt before' c after').count finalSigma ≤ (lowercaseAt before c after).count finalSigma := by
  unfold lowercaseAt
  by_cases hends : c = capitalSigma ∧ meetsCased before' = true ∧ meetsCased after' = false
  · rw [if_pos hends, if_pos ⟨hends.1, h hends.2⟩]
  · rw [if_neg hends]
    split
    · rename_i hsigma
      rw [hsigma.1, lowercaseChar_capitalSigma]
      decide
    · exact Nat.le_refl _

theorem lowercaseAt_sigma_ends (hbefore : meetsCased before = true) (hafter : meetsCased after = false) :
    lowercaseAt before capitalSigma after = [finalSigma] := if_pos ⟨rfl, hbefore, hafter⟩

theorem lowercaseAt_sigma_goes_on (h : ¬ (meetsCased before = true ∧ meetsCased after = false)) :
    lowercaseAt before capitalSigma after = ['σ'] := by
  rw [lowercaseAt, if_neg fun hends => h hends.2, lowercaseChar_capitalSigma]

end

theorem lowercaseAt_letter (before after : List Char) : lowercaseAt before 'a' after = ['a'] :=
  if_neg fun h => absurd h.1 (by decide)

theorem meetsCased_letter : meetsCased ['a'] = true := by decide +kernel

section

variable {text : String} {first last : List Char}

/-- Behind a letter a sigma ends a word that nothing met before it, and there is one less of those that do not. -/
theorem not_infix_behind_letter (hsplit : text.toList = first ++ capitalSigma :: last)
    (hfirst : first.reverse.all isCaseIgnorable = true) (hlast : meetsCased last = false) :
    ¬ lowercase text <:+: lowercase (String.ofList ('a' :: text.toList)) := by
  have hmore : ∀ before c after, (lowercaseAt (before ++ ['a']) c (after ++ [])).count 'σ' ≤
      (lowercaseAt before c after).count 'σ' := by
    intro before c after
    rw [List.append_nil]
    refine count_sigma_le (fun hends => ⟨?_, hends.2⟩) c
    rw [meetsCased_append, meetsCased_letter, hends.1, ite_self]
  have hends : lowercaseAt (first.reverse ++ ['a']) capitalSigma (last ++ []) = [finalSigma] := by
    rw [List.append_nil]
    exact lowercaseAt_sigma_ends (by rw [meetsCased_append, if_pos hfirst, meetsCased_letter]) hlast
  have halone : lowercaseAt first.reverse capitalSigma last = ['σ'] :=
    lowercaseAt_sigma_goes_on fun hends => by simp [meetsCased_of_all hfirst] at hends
  have hless := count_lowercaseAmong_lt hmore (by rw [hends, halone]; decide)
  intro hwithin
  have hcount := hwithin.sublist.count_le 'σ'
  have hletter : (lowercaseAt [] 'a' (text.toList ++ [])).count 'σ' = 0 := by
    rw [lowercaseAt_letter]
    rfl
  rw [lowercase_eq, lowercase_eq, String.toList_ofList, lowercaseAmong, List.count_append, hletter, hsplit,
    Nat.zero_add] at hcount
  exact absurd hcount (Nat.not_le.2 hless)

/-- In front of a letter a sigma does not end a word that nothing came after, and there is one less of those that do. -/
theorem not_infix_before_letter (hsplit : text.toList = first ++ capitalSigma :: last)
    (hfirst : meetsCased first.reverse = true) (hlast : last.all isCaseIgnorable = true) :
    ¬ lowercase text <:+: lowercase (String.ofList (text.toList ++ ['a'])) := by
  have hfewer : ∀ before c after, (lowercaseAt (before ++ []) c (after ++ ['a'])).count finalSigma ≤
      (lowercaseAt before c after).count finalSigma := by
    intro before c after
    rw [List.append_nil]
    refine count_finalSigma_le (fun hends => ⟨hends.1, ?_⟩) c
    have hafter := hends.2
    rw [meetsCased_append, meetsCased_letter] at hafter
    split at hafter
    · cases hafter
    · exact hafter
  have hgoes : lowercaseAt (first.reverse ++ []) capitalSigma (last ++ ['a']) = ['σ'] :=
    lowercaseAt_sigma_goes_on fun hends => by simp [meetsCased_append, hlast, meetsCased_letter] at hends
  have halone : lowercaseAt first.reverse capitalSigma last = [finalSigma] :=
    lowercaseAt_sigma_ends hfirst (meetsCased_of_all hlast)
  have hless := count_lowercaseAmong_lt hfewer (by rw [hgoes, halone]; decide)
  intro hwithin
  have hcount := hwithin.sublist.count_le finalSigma
  have hletter : (lowercaseAmong (text.toList.reverse ++ []) ['a'] []).count finalSigma = 0 := by
    rw [lowercaseAmong, lowercaseAt_letter]
    rfl
  rw [lowercase_eq, lowercase_eq, String.toList_ofList, lowercaseAmong_append, List.count_append, hletter, hsplit,
    List.append_nil] at hcount
  exact absurd hcount (Nat.not_le.2 hless)

end

/-- **A text that does not tell of a sigma whether it ends a word** is part of another whose lower case does not have
the lower case of the text in it. -/
theorem exists_text_without {text : String} (h : ¬ Settled text) :
    ∃ whole : String, text.toList <:+: whole.toList ∧ ¬ lowercase text <:+: lowercase whole := by
  obtain ⟨first, last, hsplit, huntold⟩ := exists_untold h
  rw [List.append_nil, Tells, not_or, Bool.not_eq_true] at huntold
  obtain ⟨hlast, hopen⟩ := huntold
  cases hfirst : first.reverse.all isCaseIgnorable with
  | true =>
    refine ⟨String.ofList ('a' :: text.toList), ?_, not_infix_behind_letter hsplit hfirst hlast⟩
    rw [String.toList_ofList]
    exact (List.suffix_cons 'a' text.toList).isInfix
  | false =>
    have hmet : meetsCased first.reverse = true ∧ last.all isCaseIgnorable = true := by
      simpa [hfirst] using hopen
    refine ⟨String.ofList (text.toList ++ ['a']), ?_, not_infix_before_letter hsplit hmet.1 hmet.2⟩
    rw [String.toList_ofList]
    exact (List.prefix_append text.toList ['a']).isInfix

end Text
end BoundedTuring
