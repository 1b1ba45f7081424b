import BoundedTuring.Proofs.Table.Refinement
/-!
# Changing the number of states

Seen on the map, a change of the number of states that preserves keeps what there is room for, so of two in a row the
one to more states may as well not have happened (`View.resized_resized`).  A sound table is its map
(`Sound.ext_view`): what holds of the map holds of the cells, the marks and the counts too.  However many changes there
are, only the least number of states and the last one tell (`View.foldl_resized`).
-/
namespace BoundedTuring
namespace Table

/-- A number of states that a table may have. -/
def Allowed (states : Nat) : Prop := minStateCount ≤ states ∧ states ≤ maxStateCount

instance (states : Nat) : Decidable (Allowed states) :=
  inferInstanceAs (Decidable (minStateCount ≤ states ∧ states ≤ maxStateCount))

/-- Several changes of the number of states, one after the other, that preserve. -/
def resizeAll (t : Table) (counts : List Nat) : Result Table := counts.foldlM (fun t states => t.resize states true) t

/-- An entry that the check for registrations passes, were there another number of states. -/
def ValidAt (t : Table) (states : Nat) (e : Entry) : Prop :=
  (blankSlate states t.alphabetSize t.marker t.stillAllowed).validate e.1 e.2 = .ok ()

instance (t : Table) (states : Nat) (e : Entry) : Decidable (t.ValidAt states e) :=
  inferInstanceAs (Decidable (_ = Except.ok ()))

/-! ## On the map -/

namespace View

theorem Lists.nodup {v : View} {p : Entry → Bool} {xs : List Entry} (h : v.Lists p xs) : xs.Nodup := by
  refine h.ordered.imp ?_
  rintro e _ hbefore rfl
  exact not_before_self _ hbefore

/-- **Two lists of the same transitions are the same list**, as both are in key order. -/
theorem Lists.unique {v : View} {p : Entry → Bool} {xs ys : List Entry} (hxs : v.Lists p xs) (hys : v.Lists p ys) :
    xs = ys := by
  have hperm : xs.Perm ys := (List.perm_ext_iff_of_nodup hxs.nodup hys.nodup).2 fun e =>
    (hxs.mem_iff e.1 e.2).trans (hys.mem_iff e.1 e.2).symm
  refine hperm.eq_of_pairwise (fun e f _ _ hef hfe => ?_) hxs.ordered hys.ordered
  unfold Key.Before at hef hfe
  omega

/-- **Making room for more states first changes nothing.** -/
theorem resized_resized (v : View) {m n : Nat} (h : m ≤ n) : (v.resized n).resized m = v.resized m := by
  refine View.ext rfl rfl (funext fun key => Option.ext fun transition => ?_)
  simp only [at?_resized_eq_some_iff]
  constructor
  · rintro ⟨⟨hat, -, -⟩, hm⟩
    exact ⟨hat, hm⟩
  · rintro ⟨hat, hm⟩
    exact ⟨⟨hat, by omega, by omega⟩, hm⟩

/-- After several changes there is what there was room for each time. -/
theorem at?_foldl_resized (key : Key) (transition : Transition) : ∀ (counts : List Nat) (v : View),
    (counts.foldl resized v).at? key = some transition ↔
      v.at? key = some transition ∧ ∀ n ∈ counts, key.state < n - 2 ∧ transition.next < n
  | [], v => by simp
  | n :: counts, v => by
    rw [List.foldl_cons, at?_foldl_resized key transition counts, at?_resized_eq_some_iff, List.forall_mem_cons,
      and_assoc]

/-- **The least number of states and the last one tell what is left.** -/
theorem foldl_resized (v : View) {counts : List Nat} {n least : Nat} (hmem : least ∈ counts ++ [n])
    (hleast : ∀ k ∈ counts ++ [n], least ≤ k) :
    (counts ++ [n]).foldl resized v = (v.resized least).resized n := by
  have hstates : ((counts ++ [n]).foldl resized v).stateCount = n := by rw [List.foldl_concat]; rfl
  have hstill : ∀ (counts : List Nat) (v : View), (counts.foldl resized v).stillAllowed = v.stillAllowed := by
    intro counts
    induction counts with
    | nil => exact fun _ => rfl
    | cons k counts ih => exact fun v => ih (v.resized k)
  refine View.ext hstates (hstill _ v) (funext fun key => Option.ext fun transition => ?_)
  rw [at?_foldl_resized, at?_resized_eq_some_iff, at?_resized_eq_some_iff, and_assoc]
  refine and_congr_right fun _ => ?_
  constructor
  · intro hall
    exact ⟨hall least hmem, hall n (by simp)⟩
  · rintro ⟨hroom, -⟩ k hk
    have hle := hleast k hk
    omega

end View

/-! ## On the table -/

section

variable {t u : Table}

/-- **A sound table is its map**, over its alphabet. -/
theorem Sound.ext_view (ht : t.Sound) (hu : u.Sound) (hsame : SameAlphabet t u) (hview : u.view = t.view) : t = u := by
  have hb : SameBounds t u :=
    ⟨congrArg View.stateCount hview, hsame.alphabetSize, hsame.marker, congrArg View.stillAllowed hview⟩
  exact ht.ext hu hb (ht.lists_entries.unique (hview ▸ hu.lists_entries))

theorem SameAlphabet.trans {v : Table} (h : SameAlphabet t u) (h' : SameAlphabet u v) : SameAlphabet t v :=
  ⟨h'.alphabetSize.trans h.alphabetSize, h'.marker.trans h.marker⟩

theorem SameAlphabet.symm (h : SameAlphabet t u) : SameAlphabet u t := ⟨h.alphabetSize.symm, h.marker.symm⟩

/-- A sound table with a certain map, over the alphabet of another table. -/
structure Carries (u t : Table) (v : View) : Prop where
  sound : u.Sound
  same : SameAlphabet t u
  view_eq : u.view = v

theorem Sound.carries (h : t.Sound) : t.Carries t t.view := ⟨h, ⟨rfl, rfl⟩, rfl⟩

theorem Carries.unique {v : View} {w : Table} (hu : u.Carries t v) (hw : w.Carries t v) : u = w :=
  hu.sound.ext_view hw.sound (hu.same.symm.trans hw.same) (hw.view_eq.trans hu.view_eq.symm)

/-- **A change to a number that is allowed succeeds**, and keeps what there is room for. -/
theorem Carries.resize {v : View} (h : u.Carries t v) {n : Nat} (hn : Allowed n) :
    ∃ w, u.resize n true = .ok w ∧ w.Carries t (v.resized n) := by
  obtain ⟨w, hw⟩ := (resize_succeeds_iff u n true).2 hn
  refine ⟨w, hw, h.sound.resize hw, h.same.trans (sameAlphabet_resize hw), ?_⟩
  rw [h.sound.view_resize hw, h.view_eq]

theorem Carries.resizeAll : ∀ (counts : List Nat) {v : View} {u : Table}, u.Carries t v → (∀ n ∈ counts, Allowed n) →
    ∃ w, u.resizeAll counts = .ok w ∧ w.Carries t (counts.foldl View.resized v)
  | [], _, u, h, _ => ⟨u, rfl, h⟩
  | n :: counts, _, u, h, hall => by
    obtain ⟨hn, hcounts⟩ := List.forall_mem_cons.1 hall
    obtain ⟨w, hw, hcarries⟩ := h.resize hn
    obtain ⟨x, hx, hlast⟩ := Carries.resizeAll counts hcarries hcounts
    refine ⟨x, ?_, hlast⟩
    rw [Table.resizeAll, List.foldlM_cons, hw]
    exact hx

/-- **Of two changes the one to more states may be left out.** -/
theorem Sound.resize_absorbed (h : t.Sound) {m n : Nat} (hm : Allowed m) (hn : Allowed n) (hle : m ≤ n) :
    ∃ u v, t.resize n true = .ok u ∧ u.resize m true = .ok v ∧ t.resize m true = .ok v := by
  obtain ⟨u, hu, hgrown⟩ := h.carries.resize hn
  obtain ⟨v, hv, htwice⟩ := hgrown.resize hm
  obtain ⟨w, hw, honce⟩ := h.carries.resize hm
  rw [View.resized_resized _ hle] at htwice
  exact ⟨u, v, hu, hv, htwice.unique honce ▸ hw⟩

theorem Sound.validAt_iff (h : t.Sound) {e : Entry} (he : e ∈ t.entries) (states : Nat) :
    t.ValidAt states e ↔ e.1.state < states - 2 ∧ e.2.next < states := by
  have hat := (h.mem_entries_iff_at? e.1 e.2).1 he
  have hin := h.inRange_of_at? hat
  have hadmits := h.admits_of_at? hat
  rw [ValidAt, validate_ok_iff]
  constructor
  · rintro ⟨hin, hadmits⟩
    exact ⟨hin.state_lt, hadmits.next_lt⟩
  · rintro ⟨hstate, hnext⟩
    exact ⟨⟨hstate, hin.symbol_lt⟩, ⟨hnext, hadmits.write_lt, hadmits.still, hadmits.marker⟩⟩

/-- **What a change to the least number keeps is what is valid there**, also if more states follow. -/
theorem Sound.entries_of_carries (h : t.Sound) {least n : Nat} (hle : least ≤ n)
    (hu : u.Carries t ((t.view.resized least).resized n)) :
    u.entries = t.entries.filter (fun e => decide (t.ValidAt least e)) := by
  refine View.Lists.unique (v := t.view) ⟨entries_ordered u, fun key transition => ?_⟩ (h.lists_filter _)
  rw [hu.sound.mem_entries_iff_at?, hu.view_eq, View.at?_resized_eq_some_iff, View.at?_resized_eq_some_iff, and_assoc]
  refine and_congr_right fun hat => ?_
  rw [decide_eq_true_iff, h.validAt_iff ((h.mem_entries_iff_at? key transition).2 hat)]
  dsimp only
  omega

end

/-! ## Sequences of changes -/

/-- How changes of the number of states that preserve go together. -/
structure ResizesCompose (t : Table) : Prop where
  idempotent : ∀ n, Allowed n → ∃ u, t.resize n true = .ok u ∧ u.resize n true = .ok u
  absorbed : ∀ m n, Allowed m → Allowed n → m ≤ n →
    ∃ u v, t.resize n true = .ok u ∧ u.resize m true = .ok v ∧ t.resize m true = .ok v
  restored : ∀ n, Allowed n → t.stateCount ≤ n →
    ∃ u, t.resize n true = .ok u ∧ u.resize t.stateCount true = .ok t
  /-- A sequence of them ends as the change to the least number and then to the last does. -/
  sequence : ∀ (counts : List Nat) (n least : Nat), (∀ k ∈ counts ++ [n], Allowed k) → least ∈ counts ++ [n] →
    (∀ k ∈ counts ++ [n], least ≤ k) → ∃ u v, t.resizeAll (counts ++ [n]) = .ok u ∧
      t.resize least true = .ok v ∧ v.resize n true = .ok u ∧ u.stateCount = n ∧
      u.entries = t.entries.filter (fun e => decide (t.ValidAt least e))

/-- **Changes of the number of states that preserve go together**: what is left depends on the least number there ever
was, and not on the way there. -/
theorem preserving_resizes_compose (a : Alphabet) (t : Table) (h : Reachable a t) : t.ResizesCompose := by
  have hsound := h.sound
  refine ⟨fun n hn => ?_, fun m n hm hn hle => hsound.resize_absorbed hm hn hle, fun n hn hle => ?_, ?_⟩
  · obtain ⟨u, v, hu, hv, hv'⟩ := hsound.resize_absorbed hn hn (Nat.le_refl n)
    obtain rfl : u = v := Except.ok.inj (hu.symm.trans hv')
    exact ⟨u, hu, hv⟩
  · have hallowed : Allowed t.stateCount := ⟨hsound.states, h.withinLimit⟩
    have hsame : t.resize t.stateCount true = .ok t := (resize_ok_iff ..).2 ⟨hallowed, by rw [if_pos rfl]⟩
    obtain ⟨u, v, hu, hv, hv'⟩ := hsound.resize_absorbed hallowed hn hle
    obtain rfl : t = v := Except.ok.inj (hsame.symm.trans hv')
    exact ⟨u, hu, hv⟩
  · intro counts n least hall hmem hleast
    have hlast : n ∈ counts ++ [n] := by simp
    obtain ⟨u, hu, hfolded⟩ := hsound.carries.resizeAll (counts ++ [n]) hall
    obtain ⟨v, hv, hshrunk⟩ := hsound.carries.resize (hall least hmem)
    obtain ⟨w, hw, hgrown⟩ := hshrunk.resize (hall n hlast)
    rw [View.foldl_resized _ hmem hleast] at hfolded
    obtain rfl := hfolded.unique hgrown
    exact ⟨u, v, hu, hv, hw, congrArg View.stateCount hfolded.view_eq,
      hsound.entries_of_carries (hleast n hlast) hfolded⟩

/-- Of four entries two fit four states: of the others one leaves state 2 and one enters state 4.  A detour over more
states than there are loses nothing. -/
theorem entries_lost_on_the_way :
    let a : Alphabet := ⟨.leftEnd, ⟨#["0", "1"]⟩, #["0", "1", markerName, blankName]⟩
    let t := [.put ⟨0, 0⟩ ⟨1, 1, .still⟩ false, .setStillAllowed false, .put ⟨0, 1⟩ ⟨3, 0, .left⟩ false,
      .put ⟨1, 0⟩ ⟨4, 1, .right⟩ false, .put ⟨1, 2⟩ ⟨0, 2, .right⟩ false, .put ⟨2, 3⟩ ⟨0, 0, .left⟩ false].foldl edit
      (blankSlate 5 4 (some 2) true)
    Reachable a t ∧ (∃ u v, t.resizeAll [6, 4, 7] = .ok u ∧ t.resize 4 true = .ok v ∧ v.resize 7 true = .ok u ∧
      u.entries = [(⟨0, 1⟩, ⟨3, 0, .left⟩), (⟨1, 2⟩, ⟨0, 2, .right⟩)]) ∧
      ∃ u, t.resize 7 true = .ok u ∧ u.resize 5 true = .ok t := by
  intro a t
  have hstart : Reachable a (blankSlate 5 4 (some 2) true) :=
    .empty (show Table.empty 5 a true = .ok (blankSlate 5 4 (some 2) true) from rfl)
  have ht : Reachable a t := hstart.edits _
  have hcompose := preserving_resizes_compose a t ht
  obtain ⟨u, v, hu, hv, hw, -, hentries⟩ := hcompose.sequence [6, 4] 7 4 (by decide) (by decide) (by decide)
  refine ⟨ht, ⟨u, v, hu, hv, hw, hentries.trans (by decide)⟩, hcompose.restored 7 (by decide) (by decide)⟩

end Table
end BoundedTuring
