import BoundedTuring.Proofs.Alphabet.Unambiguous
/-!
# Words and their texts

A word over an input alphabet is spelled by the names of its symbols, one after the other (`render_ok_iff`).  Reading
takes a symbol as soon as it has read one.  Over an unambiguous alphabet that is always the right one, because no symbol
begins another (`Unambiguous.tokenizeFrom_symbol`), so every text that names spell is read, as the word of those names.
-/
namespace BoundedTuring
namespace InputAlphabet

/-- The names of the symbols of a word. -/
def Names (a : InputAlphabet) (w : Word) (names : List String) : Prop :=
  List.Forall₂ (fun index name => a.symbols[index]? = some name) w names

section

variable {a : InputAlphabet}

/-! ## Names -/

theorem symbol_ok_iff (a : InputAlphabet) (index : Nat) (name : String) :
    a.symbol index = .ok name ↔ a.symbols[index]? = some name := by
  unfold symbol
  cases a.symbols[index]? <;> simp [Result.fail]

theorem render_ok_iff (a : InputAlphabet) (w : Word) (text : String) :
    a.render w = .ok text ↔ ∃ names, a.Names w names ∧ String.join names = text := by
  unfold render Names
  simp only [Result.bind_ok_iff, Result.pure_ok_iff, Result.mapM_ok_iff, symbol_ok_iff]

/-- **A word in range has names.** -/
theorem exists_names (a : InputAlphabet) : ∀ w : Word, (∀ s ∈ w, s < a.size) → ∃ names, a.Names w names
  | [], _ => ⟨[], .nil⟩
  | s :: w, h => by
    obtain ⟨hs, hw⟩ := List.forall_mem_cons.1 h
    obtain ⟨names, hnames⟩ := exists_names a w hw
    exact ⟨_, .cons (Array.getElem?_eq_getElem hs) hnames⟩

theorem render_ok_of_lt (a : InputAlphabet) {w : Word} (h : ∀ s ∈ w, s < a.size) : ∃ text, a.render w = .ok text := by
  obtain ⟨names, hnames⟩ := exists_names a w h
  exact ⟨String.join names, (render_ok_iff ..).2 ⟨names, hnames, rfl⟩⟩

/-- **Names of symbols are the names of a word.** -/
theorem exists_word (a : InputAlphabet) : ∀ names : List String, (∀ name ∈ names, name ∈ a.symbols) →
    ∃ w, a.Names w names
  | [], _ => ⟨[], .nil⟩
  | name :: names, h => by
    obtain ⟨hname, hnames⟩ := List.forall_mem_cons.1 h
    obtain ⟨w, hw⟩ := exists_word a names hnames
    obtain ⟨index, hindex⟩ := Array.mem_iff_getElem?.1 hname
    exact ⟨index :: w, .cons hindex hw⟩

/-! ## Reading -/

/-- **A symbol is read to its end**, and nothing shorter is taken for one. -/
theorem Unambiguous.tokenizeFrom_symbol (h : a.Unambiguous) {index : Nat} {name : String}
    (hname : a.symbols[index]? = some name) (done : Word) (rest : List Char) :
    ∀ (tail : List Char) (start : String), tail ≠ [] → start.toList ++ tail = name.toList →
      a.tokenizeFrom done start (tail ++ rest) = a.tokenizeFrom (index :: done) "" rest
  | [], _, hne, _ => absurd rfl hne
  | [c], start, _, hstart => by
    have hwhole : start.push c = name := by
      rw [← String.toList_inj, String.toList_push, hstart]
    rw [List.singleton_append, tokenizeFrom, hwhole, (h.indexOf?_eq_some_iff name index).2 hname]
  | c :: c' :: tail, start, _, hstart => by
    have hpush : (start.push c).toList ++ c' :: tail = name.toList := by
      rw [String.toList_push, List.append_assoc, List.singleton_append, hstart]
    have hnone : a.indexOf? (start.push c) = none := by
      cases hfound : a.indexOf? (start.push c) with
      | none => rfl
      | some other =>
        -- a symbol that begins the name would be the name
        have hother := (h.indexOf?_eq_some_iff _ _).1 hfound
        have heq : start.push c = name := h.prefixFree _ (List.mem_of_getElem? (by simpa using hother)) _
          (List.mem_of_getElem? (by simpa using hname)) ⟨_, hpush⟩
        rw [heq] at hpush
        simp at hpush
    rw [List.cons_append, tokenizeFrom, hnone]
    exact h.tokenizeFrom_symbol hname done rest (c' :: tail) (start.push c) (List.cons_ne_nil _ _) hpush

/-- **The names of a word are read as the word.** -/
theorem Unambiguous.tokenizeFrom_names (h : a.Unambiguous) {w : Word} {names : List String} (hnames : a.Names w names)
    (done : Word) : a.tokenizeFrom done "" (names.flatMap String.toList) = some (done.reverse ++ w) := by
  induction hnames generalizing done with
  | nil => simp [tokenizeFrom]
  | @cons index name w names hname _ ih =>
    have hne : name.toList ≠ [] := by
      have hnonempty := h.nonempty name (List.mem_of_getElem? (by simpa using hname))
      simpa using hnonempty
    rw [List.flatMap_cons, h.tokenizeFrom_symbol hname done _ name.toList "" hne rfl, ih, List.reverse_cons,
      List.append_assoc, List.singleton_append]

/-- **What is read is a word whose names make up the text.** -/
theorem Unambiguous.names_of_tokenizeFrom (h : a.Unambiguous) : ∀ (text : List Char) (done : Word) (start : String)
    (v : Word), a.tokenizeFrom done start text = some v →
      ∃ w names, v = done.reverse ++ w ∧ a.Names w names ∧ start.toList ++ text = names.flatMap String.toList
  | [], done, start, v, hread => by
    unfold tokenizeFrom at hread
    split at hread
    · rename_i hempty
      rw [String.isEmpty_iff] at hempty
      cases hread
      exact ⟨[], [], (List.append_nil _).symm, .nil, by rw [hempty]; rfl⟩
    · cases hread
  | c :: text, done, start, v, hread => by
    unfold tokenizeFrom at hread
    dsimp only at hread
    cases hfound : a.indexOf? (start.push c) with
    | none =>
      rw [hfound] at hread
      obtain ⟨w, names, hv, hnames, htext⟩ := h.names_of_tokenizeFrom text done (start.push c) v hread
      refine ⟨w, names, hv, hnames, ?_⟩
      rw [← htext, String.toList_push, List.append_assoc, List.singleton_append]
    | some index =>
      rw [hfound] at hread
      obtain ⟨w, names, hv, hnames, htext⟩ := h.names_of_tokenizeFrom text (index :: done) "" v hread
      refine ⟨index :: w, start.push c :: names, ?_, .cons ((h.indexOf?_eq_some_iff _ _).1 hfound) hnames, ?_⟩
      · rw [hv, List.reverse_cons, List.append_assoc, List.singleton_append]
      · rw [List.flatMap_cons, ← htext, String.toList_push]
        simp

/-- **A text is read as a word exactly if the names of the word make it up.** -/
theorem Unambiguous.tokenize_ok_iff (h : a.Unambiguous) (text : String) (w : Word) :
    a.tokenize text = .ok w ↔ ∃ names, a.Names w names ∧ String.join names = text := by
  have hread : a.tokenize text = .ok w ↔ a.tokenizeFrom [] "" text.toList = some w := by
    unfold tokenize
    cases a.tokenizeFrom [] "" text.toList <;> simp [Result.fail]
  rw [hread]
  constructor
  · intro hw
    obtain ⟨w', names, rfl, hnames, htext⟩ := h.names_of_tokenizeFrom _ _ _ _ hw
    refine ⟨names, hnames, ?_⟩
    rw [← String.toList_inj, String.toList_join, ← htext]
    rfl
  · rintro ⟨names, hnames, rfl⟩
    rw [String.toList_join, h.tokenizeFrom_names hnames]
    rfl

theorem tokenize_error (a : InputAlphabet) {text : String} {e : Error} (h : a.tokenize text = .error e) :
    e = .ofFault (.notTokenized text) := by
  unfold tokenize at h
  split at h
  · cases h
  · cases h
    rfl

end

/-- **Reading and writing words are inverse to each other.**  A word in range has a text, which is read as that word; a
word that is read is written as its text; and a text is refused only if no symbols at all make it up.  So no two words
have the same text. -/
theorem tokenize_inverts_render {a : InputAlphabet} (h : a.Built) :
    (∀ w : Word, (∀ s ∈ w, s < a.size) → ∃ text, a.render w = .ok text ∧ a.tokenize text = .ok w) ∧
    (∀ text w, a.tokenize text = .ok w → a.render w = .ok text) ∧
    (∀ text e, a.tokenize text = .error e → e = .ofFault (.notTokenized text) ∧
      ∀ names : List String, (∀ name ∈ names, name ∈ a.symbols) → String.join names ≠ text) ∧
    (∀ v w text, a.render v = .ok text → a.render w = .ok text → v = w) := by
  have hsame : ∀ text w, a.tokenize text = .ok w ↔ a.render w = .ok text := fun text w =>
    (h.unambiguous.tokenize_ok_iff text w).trans (render_ok_iff a w text).symm
  refine ⟨?_, fun text w => (hsame text w).1, ?_, ?_⟩
  · intro w hw
    obtain ⟨text, htext⟩ := a.render_ok_of_lt hw
    exact ⟨text, htext, (hsame text w).2 htext⟩
  · intro text e he
    refine ⟨a.tokenize_error he, fun names hnames hjoin => ?_⟩
    obtain ⟨w, hw⟩ := a.exists_word names hnames
    have hread := (h.unambiguous.tokenize_ok_iff text w).2 ⟨names, hw, hjoin⟩
    rw [hread] at he
    cases he
  · intro v w text hv hw
    have hread := (hsame text v).2 hv
    rw [(hsame text w).2 hw] at hread
    cases hread
    rfl

/-- Two symbols share a beginning, which is no symbol, and a text may end with it. -/
theorem shared_beginning_inverse :
    let a : InputAlphabet := ⟨#["ab", "c", "da", "dé"]⟩
    a.Built ∧ (∀ s ∈ [3, 2, 1, 0], s < a.size) ∧
      (∃ text, a.render [3, 2, 1, 0] = .ok text ∧ a.tokenize text = .ok [3, 2, 1, 0]) ∧
      a.tokenize "dédacab" = .ok [3, 2, 1, 0] ∧ a.render [3, 2, 1, 0] = .ok "dédacab" ∧
      a.tokenize "dédacd" = .error (.ofFault (.notTokenized "dédacd")) ∧
      ∀ names : List String, (∀ name ∈ names, name ∈ a.symbols) → String.join names ≠ "dédacd" := by
  intro a
  have hlist : InputAlphabet.ofList ["ab", "c", "da", "dé"] = .ok a :=
    Alphabet.ofListAvoiding_of_ordered [] rfl (by decide) (by decide +kernel) (by decide)
  have hbuilt : a.Built := .inl ⟨_, hlist⟩
  have hrange : ∀ s ∈ [3, 2, 1, 0], s < a.size := by decide
  have hread : a.tokenize "dédacab" = .ok [3, 2, 1, 0] := by decide +kernel
  have hrefused : a.tokenize "dédacd" = .error (.ofFault (.notTokenized "dédacd")) := by decide +kernel
  obtain ⟨hwrite, hback, hcomplete, -⟩ := tokenize_inverts_render hbuilt
  exact ⟨hbuilt, hrange, hwrite _ hrange, hread, hback _ _ hread, hrefused, (hcomplete _ _ hrefused).2⟩

end InputAlphabet
end BoundedTuring
