import BoundedTuring.Proofs.FreshKeys
import BoundedTuring.Proofs.Table.View
/-!
# The operations of a table, seen on the map

Which calls succeed, what they give and which map they leave can be said of the map alone: the table's cells, marks and
counts do not show.  Registering inserts, and everything else takes out the transitions that a condition is true of
and lists them in key order.  A call that fails leaves the table as it is.
-/
namespace BoundedTuring
namespace Table

namespace View

/-- A key of an ordinary state and a tape symbol. -/
def InRange (v : View) (a : Alphabet) (key : Key) : Prop := key.state < v.stateCount - 2 ∧ key.symbol < a.size

/-- A transition within the bounds, in an allowed direction and by the rule for the marker. -/
structure Admits (v : View) (a : Alphabet) (key : Key) (transition : Transition) : Prop where
  next_lt : transition.next < v.stateCount
  write_lt : transition.write < a.size
  still : transition.direction = .still → v.stillAllowed = true
  marker : a.marker? = some key.symbol → transition.write = key.symbol ∧ transition.direction = .right

/-- What a map of another number of states has room for. -/
def resized (v : View) (states : Nat) : View :=
  { v.without (fun e => !(decide (e.1.state < states - 2) && decide (e.2.next < states))) with stateCount := states }

theorem at?_resized_eq_some_iff (v : View) (states : Nat) (key : Key) (transition : Transition) :
    (v.resized states).at? key = some transition ↔
      v.at? key = some transition ∧ key.state < states - 2 ∧ transition.next < states := by
  have h := v.at?_without_eq_some_iff (fun e => !(decide (e.1.state < states - 2) && decide (e.2.next < states))) key
    transition
  simpa [resized] using h

def withStill (v : View) (allowed : Bool) : View := { v with stillAllowed := allowed }

/-- The calls that succeed. -/
def Permits (v : View) (a : Alphabet) : Edit → Prop
  | .put key transition replace =>
    v.InRange a key ∧ v.Admits a key transition ∧ (v.at? key = none ∨ replace = true)
  | .reset key => v.InRange a key
  | .resetState state => state < v.stateCount - 2
  | .resize states _ => minStateCount ≤ states ∧ states ≤ maxStateCount
  | .resetAll | .setStillAllowed _ => True

end View

section

variable {a : Alphabet} {t : Table}

theorem Reachable.inRange_view_iff (h : Reachable a t) (key : Key) : t.view.InRange a key ↔ t.InRange key := by
  constructor
  · rintro ⟨hstate, hsymbol⟩
    exact ⟨hstate, h.alphabetSize_eq ▸ hsymbol⟩
  · rintro ⟨hstate, hsymbol⟩
    exact ⟨hstate, h.alphabetSize_eq ▸ hsymbol⟩

theorem Reachable.admits_view_iff (h : Reachable a t) (key : Key) (transition : Transition) :
    t.view.Admits a key transition ↔ t.Admits key transition := by
  have hsize := h.alphabetSize_eq
  have hmarker := h.marker_eq
  constructor
  · rintro ⟨hnext, hwrite, hstill, hrule⟩
    exact ⟨hnext, hsize ▸ hwrite, hstill, hmarker ▸ hrule⟩
  · rintro ⟨hnext, hwrite, hstill, hrule⟩
    exact ⟨hnext, hsize ▸ hwrite, hstill, hmarker ▸ hrule⟩

/-! ## Registering -/

theorem Sound.view_put (h : t.Sound) {u : Table} {key : Key} {transition : Transition} {replace : Bool}
    (hput : t.put key transition replace = .ok u) : u.view = t.view.insert key transition := by
  obtain ⟨hk, -, hu⟩ := (put_ok_iff ..).1 hput
  cases hd : t.definedAt (t.slot key) with
  | true =>
    rw [if_pos hd] at hu
    rw [← hu.2, h.view_overwrite hk transition hd]
  | false =>
    rw [hd, if_neg Bool.false_ne_true] at hu
    rw [← hu, h.view_define hk transition]

/-- **A registration succeeds exactly if it is valid and nothing is in its way.** -/
theorem put_succeeds_iff (t : Table) (key : Key) (transition : Transition) (replace : Bool) :
    (∃ u, t.put key transition replace = .ok u) ↔
      t.InRange key ∧ t.Admits key transition ∧ (t.view.at? key = none ∨ replace = true) := by
  simp only [put_ok_iff, exists_and_left]
  refine and_congr_right fun hk => and_congr_right fun _ => ?_
  rw [at?_of_inRange hk]
  cases t.definedAt (t.slot key) with
  | true => simp
  | false => simp

/-- **Registering entries of fresh keys adds those that are valid.** -/
theorem Sound.at?_putValid_eq_some_iff : ∀ (entries : List Entry) {t : Table}, t.Sound →
    FreshIn t.view.at? entries → ∀ key transition,
      ((t.putValid entries).view.at? key = some transition ↔ t.view.at? key = some transition ∨
        ((key, transition) ∈ entries ∧ t.InRange key ∧ t.Admits key transition))
  | [], t, _, _, key, transition => by simp [Table.putValid]
  | (k, tr) :: rest, t, h, hfresh, key, transition => by
    obtain ⟨hk, hrest⟩ := (freshIn_cons_iff ..).1 hfresh
    have hiff := put_succeeds_iff t k tr false
    rw [putValid_cons, List.mem_cons]
    cases hput : t.put k tr false with
    | error e =>
      have hinvalid : ¬ (t.InRange k ∧ t.Admits k tr) := fun ⟨hin, hadmits⟩ => by
        obtain ⟨u, hu⟩ := hiff.2 ⟨hin, hadmits, .inl hk⟩
        rw [hput] at hu
        cases hu
      show (t.putValid rest).view.at? key = some transition ↔ _
      rw [Sound.at?_putValid_eq_some_iff rest h hfresh.tail]
      constructor
      · exact Or.imp_right fun ⟨hmem, hvalid⟩ => ⟨.inr hmem, hvalid⟩
      · refine Or.imp_right fun ⟨hmem, hvalid⟩ => ⟨hmem.resolve_left fun heq => ?_, hvalid⟩
        obtain ⟨rfl, rfl⟩ := Prod.mk.inj heq
        exact hinvalid hvalid
    | ok u =>
      obtain ⟨hin, hadmits, -⟩ := hiff.1 ⟨u, hput⟩
      have hb := sameBounds_put hput
      have hview : u.view.at? = insertIn t.view.at? (k, tr) := congrArg View.at? (h.view_put hput)
      have hsame : (u.InRange key ∧ u.Admits key transition) ↔ (t.InRange key ∧ t.Admits key transition) :=
        ⟨fun hv => ⟨hv.1.congr hb.symm, hv.2.congr hb.symm⟩, fun hv => ⟨hv.1.congr hb, hv.2.congr hb⟩⟩
      have hentry : (key, transition) = (k, tr) → t.InRange key ∧ t.Admits key transition := fun heq => by
        obtain ⟨rfl, rfl⟩ := Prod.mk.inj heq
        exact ⟨hin, hadmits⟩
      show (u.putValid rest).view.at? key = some transition ↔ _
      rw [Sound.at?_putValid_eq_some_iff rest (h.put hput) (hview ▸ hrest), hsame, hview, insertIn_eq_some_iff hk]
      constructor
      · rintro ((heq | hat) | ⟨hmem, hvalid⟩)
        · exact .inr ⟨.inl heq, hentry heq⟩
        · exact .inl hat
        · exact .inr ⟨.inr hmem, hvalid⟩
      · rintro (hat | ⟨heq | hmem, hvalid⟩)
        · exact .inl (.inr hat)
        · exact .inl (.inl heq)
        · exact .inr ⟨hmem, hvalid⟩

/-! ## The number of states -/

theorem at?_blankSlate (states alphabetSize : Nat) (marker : Option Nat) (stillAllowed : Bool) (key : Key) :
    (blankSlate states alphabetSize marker stillAllowed).view.at? key = none := by
  simp [view, definedAt_blankSlate]

/-- **A change of the number of states that preserves keeps what there is room for.** -/
theorem Sound.view_resize (h : t.Sound) {u : Table} {states : Nat} (hresize : t.resize states true = .ok u) :
    u.view = t.view.resized states := by
  obtain ⟨hstates, hu⟩ := (resize_ok_iff ..).1 hresize
  by_cases heq : states = t.stateCount
  · rw [if_pos heq] at hu
    subst heq hu
    refine View.ext rfl rfl (funext fun key => Option.ext fun transition => ?_)
    rw [View.at?_resized_eq_some_iff]
    exact ⟨fun hat => ⟨hat, (h.inRange_of_at? hat).state_lt, (h.admits_of_at? hat).next_lt⟩, And.left⟩
  · rw [if_neg heq, if_pos rfl] at hu
    have hblank := sound_blankSlate states t.alphabetSize t.marker t.stillAllowed hstates.1
    have hb := sameBounds_putValid t.entries (blankSlate states t.alphabetSize t.marker t.stillAllowed)
    rw [← hu]
    refine View.ext hb.stateCount hb.stillAllowed (funext fun key => Option.ext fun transition => ?_)
    rw [Sound.at?_putValid_eq_some_iff t.entries hblank
      ⟨nodup_keys_of_ordered (entries_ordered t), fun _ _ => at?_blankSlate ..⟩, at?_blankSlate, h.mem_entries_iff_at?]
    rw [View.at?_resized_eq_some_iff]
    constructor
    · rintro (hnone | ⟨hat, hin, hadmits⟩)
      · cases hnone
      · exact ⟨hat, hin.state_lt, hadmits.next_lt⟩
    · rintro ⟨hat, hstate, hnext⟩
      have hin := h.inRange_of_at? hat
      have hadmits := h.admits_of_at? hat
      exact .inr ⟨hat, ⟨hstate, hin.symbol_lt⟩, ⟨hnext, hadmits.write_lt, hadmits.still, hadmits.marker⟩⟩

/-! ## Taking out -/

theorem Sound.view_clearAll (h : t.Sound) (p : Entry → Bool) :
    (t.clearAll [] (t.entries.filter p)).2.view = t.view.without p := by
  rw [clearAll_snd, h.view_undefineAll_filter p]

theorem view_resetAll (t : Table) : t.resetAll.2.view = t.view.without (fun _ => true) := by
  refine View.ext rfl rfl (funext fun key => Option.ext fun transition => ?_)
  rw [View.at?_without_eq_some_iff]
  show (blankSlate ..).view.at? key = some transition ↔ _
  rw [at?_blankSlate]
  simp

theorem view_allowStill (t : Table) (allowed : Bool) : (t.allowStill allowed).view = t.view.withStill allowed := rfl

theorem clearAll_allowStill (allowed : Bool) : ∀ (entries : List Entry) (t : Table) (done : List Entry),
    ((t.allowStill allowed).clearAll done entries).1 = (t.clearAll done entries).1
  | [], _, _ => rfl
  | (key, _) :: rest, t, done => by
    show (((t.allowStill allowed).undefine key).clearAll ((key, t.lookup key) :: done) rest).1 = _
    rw [undefine_allowStill, clearAll_allowStill allowed rest]
    rfl

/-- **Forbidding to stand still gives what does and takes it out**, whether or not the count says that there is any. -/
theorem Sound.setStillAllowed_false (h : t.Sound) : (t.setStillAllowed false).1 = t.entries.filter (·.2.isStill) ∧
    (t.setStillAllowed false).2.view = (t.view.without (·.2.isStill)).withStill false := by
  rw [setStillAllowed_snd]
  by_cases hzero : t.stillCount = 0
  · have hnone : ∀ key transition, t.view.at? key = some transition → transition.isStill = false := by
      intro key transition hat
      have hslot := h.slot_lt_size (h.inRange_of_at? hat)
      have hdirection := h.not_still_of_stillCount hzero hslot
      rw [← ((at?_eq_some_iff ..).1 hat).2.2]
      simpa [Transition.isStill, lookup] using hdirection
    constructor
    · have hnil : (t.setStillAllowed false).1 = [] := by simp [Table.setStillAllowed, hzero]
      rw [hnil]
      refine (List.filter_eq_nil_iff.2 (fun e he => ?_)).symm
      rw [hnone e.1 e.2 ((h.mem_entries_iff_at? e.1 e.2).1 he)]
      exact Bool.false_ne_true
    · rw [if_pos (.inr hzero), view_allowStill, t.view.without_eq_self _ hnone]
  · constructor
    · have hclear : (t.setStillAllowed false).1 =
          ((t.allowStill false).clearAll [] ((t.allowStill false).entries.filter (·.2.isStill))).1 := by
        unfold Table.setStillAllowed
        rw [if_neg]
        · rfl
        · exact fun hor => hor.elim Bool.false_ne_true hzero
      rw [hclear, clearAll_allowStill, entries_allowStill, h.clearAll_filter]
    · rw [if_neg (fun hor => hor.elim Bool.false_ne_true hzero), view_allowStill]
      exact congrArg (·.withStill false) (h.view_undefineAll_filter (·.2.isStill))

/-! ## Calls that fail -/

theorem resize_succeeds_iff (t : Table) (states : Nat) (preserve : Bool) :
    (∃ u, t.resize states preserve = .ok u) ↔ minStateCount ≤ states ∧ states ≤ maxStateCount := by
  simp only [resize_ok_iff, exists_and_left]
  refine and_iff_left ?_
  split
  · exact ⟨t, rfl⟩
  · exact ⟨_, rfl⟩

theorem Reachable.put_succeeds_iff_permits (h : Reachable a t) (key : Key) (transition : Transition)
    (replace : Bool) :
    (∃ u, t.put key transition replace = .ok u) ↔ t.view.Permits a (.put key transition replace) := by
  rw [put_succeeds_iff, View.Permits, h.inRange_view_iff, h.admits_view_iff]

/-- **A call that the map does not permit changes nothing.** -/
theorem Reachable.edit_of_not_permits (h : Reachable a t) (e : Edit) (he : ¬ t.view.Permits a e) : t.edit e = t := by
  cases e with
  | put key transition replace =>
    rw [← h.put_succeeds_iff_permits] at he
    exact Result.getD_of_failed he
  | reset key =>
    refine Result.getD_of_failed (fun ⟨u, hu⟩ => ?_)
    obtain ⟨⟨old, u'⟩, hreset, -⟩ := (Result.map_ok_iff ..).1 hu
    exact he ((h.inRange_view_iff key).2 ((reset_ok_iff ..).1 hreset).1)
  | resetState state =>
    refine Result.getD_of_failed (fun ⟨u, hu⟩ => ?_)
    obtain ⟨⟨old, u'⟩, hreset, -⟩ := (Result.map_ok_iff ..).1 hu
    exact he ((resetState_ok_iff ..).1 hreset).1
  | resetAll => exact absurd trivial he
  | resize states preserve => exact Result.getD_of_failed (fun hu => he ((resize_succeeds_iff t states preserve).1 hu))
  | setStillAllowed allowed => exact absurd trivial he

end

/-! ## All operations -/

/-- **A table is a map with bounds.**  What is in force for a key is what the map gives and else the identity; `entries`
lists the map; every call succeeds exactly if the map permits it, and then leaves the map that the call asks for and
gives what it took out of the old one; a call that the map does not permit changes nothing. -/
theorem reachable_refines_map (a : Alphabet) (t : Table) (h : Reachable a t) :
    (∀ key, (t.get key).SucceedsIff (t.view.InRange a key) (· = (t.view.at? key).getD (.identity key))) ∧
    t.view.Lists (fun _ => true) t.entries ∧
    (∀ key transition replace,
      (t.put key transition replace).SucceedsIff (t.view.Permits a (.put key transition replace))
        (fun u => u.view = t.view.insert key transition)) ∧
    (∀ key, (t.reset key).SucceedsIff (t.view.Permits a (.reset key))
      (fun (old, u) => t.get key = .ok old ∧ u.view = t.view.without (fun e => decide (e.1 = key)))) ∧
    (∀ state, (t.resetState state).SucceedsIff (t.view.Permits a (.resetState state))
      (fun (old, u) => t.view.Lists (·.1.state == state) old ∧ u.view = t.view.without (·.1.state == state))) ∧
    (t.view.Lists (fun _ => true) t.resetAll.1 ∧ t.resetAll.2.view = t.view.without (fun _ => true)) ∧
    t.setStillAllowed true = ([], { t with stillAllowed := true }) ∧
    (t.view.Lists (·.2.isStill) (t.setStillAllowed false).1 ∧
      (t.setStillAllowed false).2.view = (t.view.without (·.2.isStill)).withStill false) ∧
    (∀ states, (t.resize states true).SucceedsIff (t.view.Permits a (.resize states true))
      (fun u => u.view = t.view.resized states)) ∧
    ∀ e, ¬ t.view.Permits a e → t.edit e = t := by
  have hsound := h.sound
  have hall := hsound.lists_entries
  have hrange := h.inRange_view_iff
  refine ⟨fun key => ?_, hall, fun key transition replace => ?_, fun key => ?_, fun state => ?_,
    ⟨hall, view_resetAll t⟩, rfl, ?_, fun states => ?_, h.edit_of_not_permits⟩
  · refine Result.succeedsIff_of_ok_iff (t.lookup key) (fun b => ?_) (fun hk => hsound.lookup_eq ((hrange key).1 hk))
    rw [get_ok_iff, hrange]
  · exact ⟨h.put_succeeds_iff_permits key transition replace, fun u hu => hsound.view_put hu⟩
  · refine Result.succeedsIff_of_ok_iff (t.lookup key, t.undefine key) (fun b => ?_) (fun hk => ?_)
    · rw [reset_ok_iff t b.2 key b.1, Prod.ext_iff]
      exact and_congr_left fun _ => (hrange key).symm
    · exact ⟨(get_ok_iff ..).2 ⟨(hrange key).1 hk, rfl⟩, hsound.view_undefine ((hrange key).1 hk)⟩
  · refine Result.succeedsIff_of_ok_iff (t.clearAll [] (t.entries.filter (·.1.state == state)))
      (fun b => resetState_ok_iff t b.2 state b.1) (fun _ => ?_)
    have hfst := hsound.clearAll_filter (·.1.state == state)
    have hsnd := hsound.view_clearAll (·.1.state == state)
    refine ⟨?_, hsnd⟩
    rw [hfst]
    exact hsound.lists_filter _
  · obtain ⟨hgiven, hview⟩ := hsound.setStillAllowed_false
    rw [hgiven]
    exact ⟨hsound.lists_filter _, hview⟩
  · exact ⟨resize_succeeds_iff t states true, fun u hu => hsound.view_resize hu⟩

/-- Of three transitions one leaves state 1, one enters state 3 and one stands still: two do not fit into a table of
three states, one goes when standing still is forbidden, and none may be registered again. -/
theorem three_transitions_refine :
    let a : Alphabet := ⟨.leftEnd, ⟨#["0", "1"]⟩, #["0", "1", markerName, blankName]⟩
    let t := [.put ⟨1, 0⟩ ⟨0, 1, .right⟩ false, .put ⟨0, 1⟩ ⟨3, 0, .left⟩ false,
      .put ⟨0, 0⟩ ⟨0, 1, .still⟩ false].foldl edit (blankSlate 4 4 (some 2) true)
    Reachable a t ∧
      t.view.Lists (fun _ => true) [(⟨0, 0⟩, ⟨0, 1, .still⟩), (⟨0, 1⟩, ⟨3, 0, .left⟩), (⟨1, 0⟩, ⟨0, 1, .right⟩)] ∧
      (∃ u, t.resize 3 true = .ok u ∧ u.view = t.view.resized 3) ∧
      t.view.Lists (·.2.isStill) [(⟨0, 0⟩, ⟨0, 1, .still⟩)] ∧ t.edit (.put ⟨0, 1⟩ ⟨0, 0, .right⟩ false) = t := by
  intro a t
  have hstart : Reachable a (blankSlate 4 4 (some 2) true) :=
    .empty (show Table.empty 4 a true = .ok (blankSlate 4 4 (some 2) true) from rfl)
  have ht : Reachable a t := hstart.edits _
  obtain ⟨-, hall, -, -, -, -, -, hstill, hresize, hrefused⟩ := reachable_refines_map a t ht
  have hentries : t.entries =
      [(⟨0, 0⟩, ⟨0, 1, .still⟩), (⟨0, 1⟩, ⟨3, 0, .left⟩), (⟨1, 0⟩, ⟨0, 1, .right⟩)] := by decide
  have hpurged : (t.setStillAllowed false).1 = [(⟨0, 0⟩, ⟨0, 1, .still⟩)] := by decide
  obtain ⟨u, hu⟩ := (hresize 3).1.2 ⟨by decide, by decide⟩
  refine ⟨ht, hentries ▸ hall, ⟨u, hu, (hresize 3).2 u hu⟩, hpurged ▸ hstill.1, hrefused _ ?_⟩
  rintro ⟨-, -, hnone | hreplace⟩
  · exact absurd hnone (by decide)
  · cases hreplace

end Table
end BoundedTuring
