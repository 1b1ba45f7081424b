import BoundedTuring.Proofs.Table.History
/-!
# A table as a map

Seen from outside a table is its number of states, whether it allows standing still, and a partial map from keys to
the transitions defined for them.  Setting a cell changes the map at one key (`Sound.at?_setCell`), so every
operation either inserts one transition or takes out those that a condition is true of.  `entries` lists the map in
key order, and so do the lists that operations give back (`View.Lists`).
-/
namespace BoundedTuring

/-- The order of keys: by state, and in one state by symbol. -/
def Key.Before (k l : Key) : Prop := k.state < l.state ∨ (k.state = l.state ∧ k.symbol < l.symbol)

namespace Table

@[ext]
structure View where
  stateCount : Nat
  stillAllowed : Bool
  /-- The transition defined for a key. -/
  at? : Key → Option Transition

def view (t : Table) : View where
  stateCount := t.stateCount
  stillAllowed := t.stillAllowed
  at? key := if key.symbol < t.alphabetSize ∧ t.definedAt (t.slot key) = true then some (t.lookup key) else none

namespace View

def insert (v : View) (key : Key) (transition : Transition) : View :=
  { v with at? := fun k => if k = key then some transition else v.at? k }

/-- The map without the transitions a condition is true of. -/
def without (v : View) (p : Entry → Bool) : View :=
  { v with at? := fun k => (v.at? k).filter (fun transition => !p (k, transition)) }

/-- A list of exactly the transitions a condition is true of, in key order. -/
structure Lists (v : View) (p : Entry → Bool) (entries : List Entry) : Prop where
  ordered : entries.Pairwise (fun e f => e.1.Before f.1)
  mem_iff : ∀ key transition, (key, transition) ∈ entries ↔ v.at? key = some transition ∧ p (key, transition) = true

theorem at?_without_eq_some_iff (v : View) (p : Entry → Bool) (key : Key) (transition : Transition) :
    (v.without p).at? key = some transition ↔ v.at? key = some transition ∧ p (key, transition) = false := by
  simp [without, Option.filter_eq_some_iff]

theorem without_without (v : View) (p q : Entry → Bool) :
    (v.without p).without q = v.without (fun e => p e || q e) := by
  refine View.ext rfl rfl (funext fun key => Option.ext fun transition => ?_)
  simp only [at?_without_eq_some_iff, Bool.or_eq_false_iff, and_assoc]

theorem without_eq_self (v : View) (p : Entry → Bool)
    (h : ∀ key transition, v.at? key = some transition → p (key, transition) = false) : v.without p = v := by
  refine View.ext rfl rfl (funext fun key => Option.ext fun transition => ?_)
  rw [at?_without_eq_some_iff]
  exact ⟨And.left, fun hat => ⟨hat, h key transition hat⟩⟩

/-- Two conditions that agree on the map take out the same. -/
theorem without_congr (v : View) {p q : Entry → Bool}
    (h : ∀ key transition, v.at? key = some transition → p (key, transition) = q (key, transition)) :
    v.without p = v.without q := by
  refine View.ext rfl rfl (funext fun key => Option.ext fun transition => ?_)
  rw [at?_without_eq_some_iff, at?_without_eq_some_iff]
  exact and_congr_right fun hat => by rw [h key transition hat]

end View

/-! ## Reading the map -/

section Reading

variable {t : Table} {key : Key} {transition : Transition}

theorem at?_eq_some_iff (t : Table) (key : Key) (transition : Transition) :
    t.view.at? key = some transition ↔
      key.symbol < t.alphabetSize ∧ t.definedAt (t.slot key) = true ∧ t.lookup key = transition := by
  by_cases h : key.symbol < t.alphabetSize ∧ t.definedAt (t.slot key) = true
  · simp [view, h]
  · simp only [view, if_neg h]
    exact iff_of_false nofun fun ⟨hsymbol, hd, _⟩ => h ⟨hsymbol, hd⟩

theorem at?_of_inRange (hk : t.InRange key) :
    t.view.at? key = if t.definedAt (t.slot key) = true then some (t.lookup key) else none := by
  simp [view, hk.symbol_lt]

theorem Sound.inRange_of_at? (h : t.Sound) (hat : t.view.at? key = some transition) : t.InRange key := by
  obtain ⟨hsymbol, hd, -⟩ := (at?_eq_some_iff ..).1 hat
  have hlt := lt_of_definedAt t _ hd
  rw [h.size_defined] at hlt
  have hin := inRange_keyAt t _ hlt
  rwa [keyAt_slot t key hsymbol] at hin

/-- **What is defined is admitted.** -/
theorem Sound.admits_of_at? (h : t.Sound) (hat : t.view.at? key = some transition) : t.Admits key transition := by
  have hadmits := h.lookup_admits (h.inRange_of_at? hat)
  rwa [((at?_eq_some_iff ..).1 hat).2.2] at hadmits

/-- **What is in force for a key is what the map gives, and the identity where it gives nothing.** -/
theorem Sound.lookup_eq (h : t.Sound) (hk : t.InRange key) :
    t.lookup key = (t.view.at? key).getD (.identity key) := by
  rw [at?_of_inRange hk]
  cases hd : t.definedAt (t.slot key) with
  | true => rfl
  | false =>
    have hidentity := h.identity _ (h.slot_lt_size hk) hd
    rwa [keyAt_slot t key hk.symbol_lt] at hidentity

theorem slot_inj {k l : Key} (hk : k.symbol < t.alphabetSize) (hl : l.symbol < t.alphabetSize)
    (h : t.slot k = t.slot l) : k = l := by
  rw [← keyAt_slot t k hk, h, keyAt_slot t l hl]

end Reading

/-! ## The list of entries -/

theorem keyAt_before (t : Table) {i j : Nat} (h : i < j) : (t.keyAt i).Before (t.keyAt j) := by
  have hi := Nat.div_add_mod i t.alphabetSize
  have hj := Nat.div_add_mod j t.alphabetSize
  have hdiv : i / t.alphabetSize ≤ j / t.alphabetSize := Nat.div_le_div_right (Nat.le_of_lt h)
  unfold Key.Before keyAt keyOf
  dsimp only
  rcases Nat.lt_or_eq_of_le hdiv with hlt | heq
  · exact .inl hlt
  · rw [heq] at hi
    exact .inr ⟨heq, by omega⟩

theorem entries_ordered (t : Table) : t.entries.Pairwise (fun e f => e.1.Before f.1) := by
  rw [entries_eq, List.pairwise_map]
  exact (List.pairwise_lt_range.filter _).imp (keyAt_before t)

theorem not_before_self (k : Key) : ¬ k.Before k := by
  unfold Key.Before
  omega

theorem nodup_keys_of_ordered {entries : List Entry} (h : entries.Pairwise (fun e f => e.1.Before f.1)) :
    (entries.map Prod.fst).Nodup := by
  rw [List.Nodup, List.pairwise_map]
  refine h.imp (fun {e f} hbefore heq => ?_)
  rw [heq] at hbefore
  exact not_before_self _ hbefore

section Entries

variable {t : Table}

theorem Sound.mem_entries_iff_at? (h : t.Sound) (key : Key) (transition : Transition) :
    (key, transition) ∈ t.entries ↔ t.view.at? key = some transition := by
  rw [at?_eq_some_iff]
  constructor
  · intro hmem
    have hk := h.inRange_of_mem_entries hmem
    have hslot : t.keyAt (t.slot key) = key := keyAt_slot t key hk.symbol_lt
    rw [← hslot, keyAt_mem_entries_iff] at hmem
    exact ⟨hk.symbol_lt, hmem⟩
  · rintro ⟨hsymbol, hcell⟩
    rw [← keyAt_slot t key hsymbol, keyAt_mem_entries_iff]
    exact hcell

theorem Sound.lists_entries (h : t.Sound) : t.view.Lists (fun _ => true) t.entries where
  ordered := entries_ordered t
  mem_iff key transition := by simp [h.mem_entries_iff_at?]

/-- **The entries that a condition picks list the map where it is true.** -/
theorem Sound.lists_filter (h : t.Sound) (p : Entry → Bool) : t.view.Lists p (t.entries.filter p) where
  ordered := (entries_ordered t).filter p
  mem_iff key transition := by rw [List.mem_filter, h.mem_entries_iff_at?]

/-- **The count of defined cells is the number of entries.** -/
theorem Sound.length_entries (h : t.Sound) : t.entries.length = t.definedCount := by
  rw [entries_eq, List.length_map, ← List.countP_eq_length_filter, h.definedCount_eq, Cells.count_true_eq_countP_range]
  rfl

/-- Sound tables with the same bounds are equal if they have the same entries in whatever order. -/
theorem Sound.ext_perm {u : Table} (ht : t.Sound) (hu : u.Sound) (hb : SameBounds t u)
    (hperm : t.entries.Perm u.entries) : t = u := by
  refine ht.ext hu hb (hperm.eq_of_pairwise (fun e f _ _ hef hfe => ?_) (entries_ordered t) (entries_ordered u))
  unfold Key.Before at hef hfe
  omega

end Entries

/-! ## Changing the map -/

section Changing

variable {t : Table} {key : Key} {transition : Transition}

theorem Sound.at?_setCell (h : t.Sound) (hk : t.InRange key) {mark : Bool} {perState : Array Nat} {count still : Nat}
    (k : Key) : (t.setCell key transition mark perState count still).view.at? k =
      if k = key then (if mark = true then some transition else none) else t.view.at? k := by
  show (if k.symbol < t.alphabetSize ∧ (t.setCell key transition mark perState count still).definedAt (t.slot k) = true
    then some ((t.setCell key transition mark perState count still).cellAt (t.slot k)) else none) = _
  rw [cellAt_setCell (h.slot_lt_size hk), definedAt_setCell (h.slot_lt_marks hk)]
  by_cases hkey : k = key
  · subst hkey
    simp [hk.symbol_lt]
  · rw [if_neg hkey]
    by_cases hsymbol : k.symbol < t.alphabetSize
    · have hslot : t.slot key ≠ t.slot k := fun heq => hkey (slot_inj hsymbol hk.symbol_lt heq.symm)
      rw [if_neg hslot, if_neg hslot]
      rfl
    · simp [view, hsymbol]

theorem Sound.view_define (h : t.Sound) (hk : t.InRange key) (transition : Transition) :
    (t.define key transition).view = t.view.insert key transition :=
  View.ext rfl rfl (funext fun k => h.at?_setCell hk k)

theorem Sound.view_overwrite (h : t.Sound) (hk : t.InRange key) (transition : Transition)
    (hd : t.definedAt (t.slot key) = true) : (t.overwrite key transition).view = t.view.insert key transition := by
  rw [overwrite_eq_setCell hd]
  exact View.ext rfl rfl (funext fun k => h.at?_setCell hk k)

theorem Sound.view_undefine (h : t.Sound) (hk : t.InRange key) :
    (t.undefine key).view = t.view.without (fun e => decide (e.1 = key)) := by
  have hat : ∀ k, (t.undefine key).view.at? k = if k = key then none else t.view.at? k := fun k => by
    rw [undefine_eq_setCell]
    split
    · exact h.at?_setCell hk k
    · exact h.at?_setCell hk k
  have hb := sameBounds_undefine t key
  refine View.ext hb.stateCount hb.stillAllowed (funext fun k => Option.ext fun transition => ?_)
  rw [View.at?_without_eq_some_iff, hat]
  by_cases hkey : k = key
  · simp [hkey]
  · simp [hkey]

theorem Sound.view_undefineAll : ∀ (keys : List Key) {t : Table}, t.Sound → (∀ key ∈ keys, t.InRange key) →
    (t.undefineAll keys).view = t.view.without (fun e => decide (e.1 ∈ keys))
  | [], t, _, _ => (t.view.without_eq_self _ (fun _ _ _ => by simp)).symm
  | key :: keys, t, h, hkeys => by
    have hkey : t.InRange key := hkeys key List.mem_cons_self
    have hrest := Sound.view_undefineAll keys (h.undefine hkey)
      (fun k hmem => (hkeys k (List.mem_cons_of_mem key hmem)).congr (sameBounds_undefine t key))
    show ((t.undefine key).undefineAll keys).view = _
    rw [hrest, h.view_undefine hkey, View.without_without]
    exact View.without_congr _ (fun k _ _ => by simp)

/-- Undefining the entries that a condition picks takes them out of the map. -/
theorem Sound.view_undefineAll_filter (h : t.Sound) (p : Entry → Bool) :
    (t.undefineAll ((t.entries.filter p).map Prod.fst)).view = t.view.without p := by
  rw [Sound.view_undefineAll _ h (h.inRange_of_mem_filter p)]
  refine View.without_congr _ (fun key transition hat => ?_)
  rw [Bool.eq_iff_iff, decide_eq_true_iff, List.mem_map]
  constructor
  · rintro ⟨⟨k, tr⟩, hmem, rfl⟩
    obtain ⟨hat', hp⟩ := ((h.lists_filter p).mem_iff k tr).1 hmem
    rw [hat'] at hat
    rwa [← Option.some.inj hat]
  · intro hp
    exact ⟨(key, transition), ((h.lists_filter p).mem_iff key transition).2 ⟨hat, hp⟩, rfl⟩

/-- **Undefining gives what was in force for each key**, as no key is met twice. -/
theorem Sound.clearAll_fst : ∀ (entries : List Entry) {t : Table} (done : List Entry), t.Sound →
    (∀ e ∈ entries, t.InRange e.1) → (entries.map Prod.fst).Nodup →
      (t.clearAll done entries).1 = done.reverse ++ entries.map (fun e => (e.1, t.lookup e.1))
  | [], _, done, _, _, _ => by simp [Table.clearAll]
  | (key, tr) :: rest, t, done, h, hin, hnodup => by
    obtain ⟨hnot, hnodup⟩ := List.nodup_cons.1 hnodup
    have hkey : t.InRange key := hin (key, tr) List.mem_cons_self
    have hb := sameBounds_undefine t key
    have hrest := Sound.clearAll_fst rest ((key, t.lookup key) :: done) (h.undefine hkey)
      (fun e he => (hin e (List.mem_cons_of_mem _ he)).congr hb) hnodup
    have hlookup : ∀ e ∈ rest, (t.undefine key).lookup e.1 = t.lookup e.1 := fun e he => by
      have hsymbol := (hin e (List.mem_cons_of_mem _ he)).symbol_lt
      have hmem : e.1 ∈ rest.map Prod.fst := List.mem_map_of_mem he
      have hslot : t.slot key ≠ t.slot e.1 := fun heq => by
        rw [← slot_inj hkey.symbol_lt hsymbol heq] at hmem
        exact hnot hmem
      show (t.undefine key).cellAt ((t.undefine key).slot e.1) = _
      have hsame : (t.undefine key).slot e.1 = t.slot e.1 := by
        unfold slot
        rw [hb.alphabetSize]
      rw [hsame, cellAt_undefine key (h.slot_lt_size hkey), if_neg hslot]
      rfl
    show ((t.undefine key).clearAll ((key, t.lookup key) :: done) rest).1 = _
    rw [hrest, List.map_congr_left (fun e he => by rw [hlookup e he])]
    simp

/-- **Undefining the entries that a condition picks gives them back as they were.** -/
theorem Sound.clearAll_filter (h : t.Sound) (p : Entry → Bool) :
    (t.clearAll [] (t.entries.filter p)).1 = t.entries.filter p := by
  have hlists := h.lists_filter p
  have hin : ∀ e ∈ t.entries.filter p, t.InRange e.1 := fun e he =>
    h.inRange_of_mem_entries (List.mem_filter.1 he).1
  rw [Sound.clearAll_fst _ [] h hin (nodup_keys_of_ordered hlists.ordered), List.reverse_nil, List.nil_append]
  conv => rhs; rw [← List.map_id (t.entries.filter p)]
  refine List.map_congr_left (fun e he => ?_)
  have hat := ((hlists.mem_iff e.1 e.2).1 he).1
  rw [((at?_eq_some_iff ..).1 hat).2.2]
  rfl

end Changing

end Table
end BoundedTuring
