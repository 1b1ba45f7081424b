import BoundedTuring.Proofs.Execution.Bounded
import BoundedTuring.Proofs.Machine.Registration
/-!
# What a run looks up

A step looks up one transition, the one in force for the state and the symbol under the head.  So a run depends on the
transitions for the keys it looks up (`LooksUp`), and on nothing else of the table that a call on transitions can
change: not on the other cells, and not on which of the cells somebody defined (`iterate_next_congr`).  Calls about
other keys leave those in force (`Frame.lookup_eq`).
-/
namespace BoundedTuring

namespace Table

variable {t u : Table} {key : Key}

/-- **The same is in force for a key for which two sound tables have the same on their maps.** -/
theorem Sound.lookup_congr (ht : t.Sound) (hu : u.Sound) (hb : SameBounds t u) (hk : t.InRange key)
    (hat : u.view.at? key = t.view.at? key) : u.lookup key = t.lookup key := by
  rw [hu.lookup_eq (hk.congr hb), ht.lookup_eq hk, hat]

theorem View.at?_insert_of_ne (v : View) {k : Key} (h : key ≠ k) (transition : Transition) :
    (v.insert k transition).at? key = v.at? key := if_neg h

theorem View.at?_without_of_not (v : View) {p : Entry → Bool} (h : ∀ transition, p (key, transition) = false) :
    (v.without p).at? key = v.at? key := by
  refine Option.ext fun transition => ?_
  rw [at?_without_eq_some_iff, h]
  simp

end Table

namespace Machine

/-- A call on transitions, which keeps the states and what may stand still. -/
def Edit.OnTransitions : Edit → Prop
  | .put .. | .putByName .. | .reset _ | .resetState _ | .resetAll => True
  | .resize .. | .setStillAllowed _ => False

/-- A call that may change what is in force for a key. -/
def Edit.Touches (a : Alphabet) (key : Key) : Edit → Prop
  | .put k _ _ | .reset k => k = key
  | .putByName state read _ _ _ _ => state = key.state ∧ a.indexOf? read = some key.symbol
  | .resetState state => state = key.state
  | .resetAll | .resize .. | .setStillAllowed _ => True

/-- What calls leave alone that may change what is in force for some keys only. -/
structure Frame (m n : Machine) (touched : Key → Prop) : Prop where
  alphabet : n.alphabet = m.alphabet
  bounds : Table.SameBounds m.table n.table
  at?_eq : ∀ key, ¬ touched key → n.table.view.at? key = m.table.view.at? key

/-- A key that an execution looks up in its next so many steps, before it halts. -/
def LooksUp (m : Machine) (e : Execution) (k : Nat) (key : Key) : Prop :=
  ∃ j < k, m.halted? (m.next^[j] e) = none ∧ key = ⟨(m.next^[j] e).state, (m.next^[j] e).tape.current⟩

section

variable {m n : Machine} {e : Execution} {k : Nat}

/-! ## Runs that look up the same -/

theorem halted?_congr (hb : Table.SameBounds m.table n.table) (e : Execution) : n.halted? e = m.halted? e := by
  unfold halted? acceptState rejectState Table.acceptState Table.rejectState
  rw [hb.stateCount]

theorem next_congr (hb : Table.SameBounds m.table n.table)
    (hsame : m.halted? e = none → n.inForce e = m.inForce e) : n.next e = m.next e := by
  by_cases hrun : m.halted? e = none
  · rw [next_of_running hrun, next_of_running ((halted?_congr hb e).trans hrun), advance_eq, advance_eq, hsame hrun,
      hb.stillAllowed]
  · rw [next_of_halted hrun, next_of_halted (halted?_congr hb e ▸ hrun)]

/-- **With the same in force for the keys it looks up a run goes the same way.** -/
theorem iterate_next_congr (hb : Table.SameBounds m.table n.table)
    (hsame : ∀ key, m.LooksUp e k key → n.table.lookup key = m.table.lookup key) :
    ∀ j ≤ k, n.next^[j] e = m.next^[j] e
  | 0, _ => rfl
  | j + 1, hj => by
    have ih := iterate_next_congr hb hsame j (Nat.le_of_succ_le hj)
    rw [Function.iterate_succ_apply', Function.iterate_succ_apply', ih]
    exact next_congr hb fun hrun => hsame _ ⟨j, hj, hrun, rfl⟩

/-- **Runs that go the same way as far as they may go are reported alike.** -/
theorem run_congr (hb : Table.SameBounds m.table n.table) (hway : ∀ j ≤ k, n.next^[j] e = m.next^[j] e)
    {limits : Limits} (htime : limits.stepCrossesTime = false) (hk : limits.maxSteps = e.stepCount + k) :
    n.run limits e = m.run limits e := by
  have hhalted : ∀ j ≤ k, n.halted? (n.next^[j] e) = m.halted? (m.next^[j] e) := fun j hj => by
    rw [hway j hj, halted?_congr hb]
  rcases haltsAfter_or_running m e k with ⟨steps, hle, outcome, hfirst⟩ | hrun
  · have hfirst' : n.HaltsAfter e steps outcome :=
      ⟨(hhalted steps hle).trans hfirst.halted, fun j hj =>
        (hhalted j (Nat.le_trans (Nat.le_of_lt hj) hle)).trans (hfirst.running j hj)⟩
    have hsteps : e.stepCount + steps ≤ limits.maxSteps := by omega
    rw [run_of_haltsAfter hfirst htime hsteps, run_of_haltsAfter hfirst' htime hsteps]
  · rw [run_of_running hrun htime hk.symm, run_of_running (fun j hj => (hhalted j hj).trans (hrun j hj)) htime hk.symm]

/-! ## Calls on transitions -/

theorem Frame.refl (m : Machine) (touched : Key → Prop) : Frame m m touched := ⟨rfl, .refl _, fun _ _ => rfl⟩

theorem Frame.of_put (hm : m.table.Sound) {key : Key} {transition : Transition} {replace : Bool}
    (hput : m.put key transition replace = .ok n) : Frame m n (key = ·) := by
  obtain ⟨u, hu, rfl⟩ := (put_ok_iff_table ..).1 hput
  refine ⟨rfl, Table.sameBounds_put hu, fun k hk => ?_⟩
  show u.view.at? k = m.table.view.at? k
  rw [hm.view_put hu]
  exact m.table.view.at?_insert_of_ne (Ne.symm hk) transition

theorem Frame.of_without {u : Table} {p : Entry → Bool} {touched : Key → Prop} (hb : Table.SameBounds m.table u)
    (hview : u.view = m.table.view.without p) (hp : ∀ key, ¬ touched key → ∀ transition, p (key, transition) = false) :
    Frame m { m with table := u } touched := by
  refine ⟨rfl, hb, fun key hkey => ?_⟩
  show u.view.at? key = m.table.view.at? key
  rw [hview]
  exact m.table.view.at?_without_of_not (hp key hkey)

/-- **A call on transitions changes nothing but what it is about.** -/
theorem frame_edit (hm : m.table.Sound) {c : Edit} (hc : c.OnTransitions) :
    Frame m (m.edit c) (c.Touches m.alphabet) := by
  cases c with
  | put key transition replace =>
    exact Result.getD_induct (P := fun n => Frame m n _) _ _ (.refl ..) fun n hput => .of_put hm hput
  | putByName state read next write direction replace =>
    refine Result.getD_induct (P := fun n => Frame m n _) _ _ (.refl ..) fun n hn => ?_
    obtain ⟨⟨key, n⟩, hnamed, rfl⟩ := (Result.map_ok_iff ..).1 hn
    obtain ⟨readIndex, writeIndex, d, hread, -, -, rfl, hput⟩ := (putByName_ok_iff ..).1 hnamed
    have hframe := Frame.of_put hm hput
    refine ⟨hframe.alphabet, hframe.bounds, fun k hk => hframe.at?_eq k ?_⟩
    rintro rfl
    exact hk ⟨rfl, hread⟩
  | reset key =>
    rw [edit, reset, map_withTable_getD]
    refine Result.getD_induct (P := fun u => Frame m { m with table := u } _) _ _ (.refl ..) fun u hu => ?_
    obtain ⟨⟨old, u⟩, hreset, rfl⟩ := (Result.map_ok_iff ..).1 hu
    obtain ⟨hk, -, rfl⟩ := (Table.reset_ok_iff ..).1 hreset
    exact .of_without (Table.sameBounds_undefine ..) (hm.view_undefine hk) fun k hkey _ => by simpa using Ne.symm hkey
  | resetState state =>
    rw [edit, resetState, map_withTable_getD]
    refine Result.getD_induct (P := fun u => Frame m { m with table := u } _) _ _ (.refl ..) fun u hu => ?_
    obtain ⟨⟨old, u⟩, hreset, rfl⟩ := (Result.map_ok_iff ..).1 hu
    obtain ⟨-, hclear⟩ := (Table.resetState_ok_iff ..).1 hreset
    have hview := hm.view_clearAll (·.1.state == state)
    have hb := Table.sameBounds_undefineAll ((m.table.entries.filter (·.1.state == state)).map Prod.fst) m.table
    rw [← Table.clearAll_snd _ _ [], hclear] at hb
    rw [hclear] at hview
    exact .of_without hb hview fun k hkey _ => by simpa using Ne.symm hkey
  | resetAll => exact ⟨rfl, ⟨rfl, rfl, rfl, rfl⟩, fun k hk => absurd trivial hk⟩
  | resize states preserve => cases hc
  | setStillAllowed allowed => cases hc

/-- **Nor do any number of them.** -/
theorem frame_edits : ∀ (cs : List Edit) {m : Machine}, m.Reachable → (∀ c ∈ cs, c.OnTransitions) →
    Frame m (cs.foldl Machine.edit m) (fun key => ∃ c ∈ cs, c.Touches m.alphabet key)
  | [], m, _, _ => .refl ..
  | c :: cs, m, hm, hcs => by
    obtain ⟨hc, hrest⟩ := List.forall_mem_cons.1 hcs
    have hfirst := frame_edit hm.sound hc
    have hframe := frame_edits cs (hm.edit c) hrest
    refine ⟨hframe.alphabet.trans hfirst.alphabet, hfirst.bounds.trans hframe.bounds, fun key hkey => ?_⟩
    rw [List.foldl_cons, hframe.at?_eq key, hfirst.at?_eq key]
    · exact fun h => hkey ⟨c, List.mem_cons_self, h⟩
    · rintro ⟨c', hmem, h⟩
      exact hkey ⟨c', List.mem_cons_of_mem c hmem, hfirst.alphabet ▸ h⟩

/-- **Keys that no call touches lead where they led.** -/
theorem Frame.lookup_eq {touched : Key → Prop} (h : Frame m n touched) (hm : m.table.Sound) (hn : n.table.Sound)
    {key : Key} (hk : m.table.InRange key) (hkey : ¬ touched key) : n.table.lookup key = m.table.lookup key :=
  hm.lookup_congr hn h.bounds hk (h.at?_eq key hkey)

end

/-- **A run depends only on the transitions it looks up.**  Whatever calls on transitions are made, of which any may
fail, as long as for each key that a run looks up in its first steps the same is in force as before, the run starts and
goes the same way in these steps, and under a bound within them its report is the same.  It does not matter if that is
because none of the calls was about such a key, or if one only defined what was in force already. -/
theorem run_depends_on_lookups {m : Machine} (hm : m.Reachable) {input : Word} {loaded tape : Tape}
    (hload : m.tapeFor input = .ok loaded) (hp : loaded.Prepared tape) {state : Nat} (hstate : state < m.acceptState)
    (k : Nat) {calls : List Edit} (hcalls : ∀ c ∈ calls, c.OnTransitions) :
    let n := calls.foldl Machine.edit m
    let start := Execution.start state tape
    ((∀ key, m.LooksUp start k key → n.table.lookup key = m.table.lookup key) →
      n.tapeFor input = .ok loaded ∧ (∀ j ≤ k, n.next^[j] start = m.next^[j] start) ∧
        ∀ bound ≤ k, n.run ⟨bound, none⟩ start = m.run ⟨bound, none⟩ start) ∧
    ((∀ key, m.LooksUp start k key → ∀ c ∈ calls, ¬ c.Touches m.alphabet key) →
      ∀ key, m.LooksUp start k key → n.table.lookup key = m.table.lookup key) := by
  intro n start
  have hframe : Frame m n _ := frame_edits calls hm hcalls
  constructor
  · intro hsame
    have hway := iterate_next_congr hframe.bounds hsame
    refine ⟨?_, hway, fun bound hbound => ?_⟩
    · unfold tapeFor
      rw [hframe.alphabet]
      exact hload
    · exact run_congr hframe.bounds (fun j hj => hway j (Nat.le_trans hj hbound)) rfl (Nat.zero_add bound).symm
  · rintro huntouched key ⟨j, hj, hrun, rfl⟩
    have hsafe : m.Safe (m.next^[j] start) := (safe_start hm hload hp hstate).iterate hm j
    refine hframe.lookup_eq hm.sound (hm.edits calls).sound (hsafe.key_inRange hm hrun) ?_
    rintro ⟨c, hc, htouches⟩
    exact huntouched _ ⟨j, hj, hrun, rfl⟩ c hc htouches

/-- The finder on two zeros, after which it goes on over the blanks: that a blank is passed over may be spelled out, and
what it would do on a one may be anything. -/
theorem finder_depends_on_lookups :
    let m := finder .twoWay
    let n := [Edit.put ⟨0, 2⟩ ⟨0, 2, .right⟩ false, .reset ⟨0, 1⟩, .putByName 0 "1" 2 "0" "L" false,
      .put ⟨0, 0⟩ ⟨2, 0, .left⟩ false].foldl Machine.edit m
    let start := Execution.start 0 (Tape.withHead ⟨#[0, 0], 0, 3, 2, none⟩ 0)
    (∀ key, m.LooksUp start 4 key → n.table.lookup key = m.table.lookup key) ∧ n ≠ m ∧
      n.tapeFor [0, 0] = .ok ⟨#[0, 0], 0, 3, 2, none⟩ ∧ (∀ j ≤ 4, n.next^[j] start = m.next^[j] start) ∧
      n.run ⟨3, none⟩ start = m.run ⟨3, none⟩ start := by
  intro m n start
  have hm : m.Reachable := (reachable_blankBinary (by decide) .twoWay).edits _
  have hload : m.tapeFor [0, 0] = .ok ⟨#[0, 0], 0, 3, 2, none⟩ := by decide +kernel
  have hsame : ∀ key, m.LooksUp start 4 key → n.table.lookup key = m.table.lookup key := by
    rintro key ⟨j, hj, -, rfl⟩
    revert j
    decide +kernel
  have hstate : 0 < m.acceptState := by decide +kernel
  have hcalls : ∀ c ∈ [Edit.put ⟨0, 2⟩ ⟨0, 2, .right⟩ false, .reset ⟨0, 1⟩, .putByName 0 "1" 2 "0" "L" false,
      .put ⟨0, 0⟩ ⟨2, 0, .left⟩ false], c.OnTransitions := by simp [Edit.OnTransitions]
  obtain ⟨hruns, -⟩ := run_depends_on_lookups hm hload (.withHead .loaded 0) hstate 4 hcalls
  obtain ⟨htape, hway, hreport⟩ := hruns hsame
  exact ⟨hsame, by decide +kernel, htape, hway, hreport 3 (by decide)⟩

end Machine
end BoundedTuring
