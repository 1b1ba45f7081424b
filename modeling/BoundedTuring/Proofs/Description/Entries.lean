import BoundedTuring.Proofs.Description.Reading
import BoundedTuring.Proofs.FreshKeys
/-!
# Lines of entries

Transitions are read line by line, each into what the lines before it made.  What is made keeps a map, in which the key
of a line has to be free.  A key is free when its line is read exactly if it was free at first and none of the lines
before it has it (`freshIn_cons_iff`), so what has been made so far drops out of what is read
(`EntryReader.readEach_ok_iff`).
-/
namespace BoundedTuring

variable {α σ : Type}

/-- Reads lines one after the other, each into what those before it made. -/
def readEach (what : String) (read : σ → Line → Reading σ) : Nat → σ → Remaining → Reading (σ × Remaining)
  | 0, s, rest => .ok (s, rest)
  | count + 1, s, rest => do
    let (line, rest) ← rest.line what
    let s ← read s line
    readEach what read count s rest

/-- A reader of lines that each hold an entry, into things `Made` in some way.  It accepts a line of its kind if the
key is free in the map of what was made, and then inserts the entry. -/
structure EntryReader (Made : σ → Prop) (OfKind : List Char → Key × α → Prop) (at? : σ → Key → Option α)
    (insert : σ → Key × α → σ) (read : σ → Line → Reading σ) : Prop where
  ok_iff : ∀ {s}, Made s → ∀ line s', read s line = .ok s' ↔
    ∃ e, OfKind line.text e ∧ at? s e.1 = none ∧ insert s e = s'
  made : ∀ {s text e}, Made s → OfKind text e → at? s e.1 = none → Made (insert s e)
  at?_insert : ∀ {s text e}, Made s → OfKind text e → at? s e.1 = none → at? (insert s e) = insertIn (at? s) e

namespace EntryReader

variable {Made : σ → Prop} {OfKind : List Char → Key × α → Prop} {at? : σ → Key → Option α} {insert : σ → Key × α → σ}
  {read : σ → Line → Reading σ}

/-- **Entries are read from lines of their kind with fresh keys**, and are what is inserted. -/
theorem readEach_ok_iff (h : EntryReader Made OfKind at? insert read) (what : String) : ∀ (count : Nat) {s : σ},
    Made s → ∀ (rest rest' : Remaining) (s' : σ), readEach what read count s rest = .ok (s', rest') ↔
      ∃ body entries, rest.lines = body ++ rest'.lines ∧ body.length = count ∧ rest'.next = rest.next + count ∧
        List.Forall₂ OfKind body entries ∧ FreshIn (at? s) entries ∧ entries.foldl insert s = s'
  | 0, s, _, rest, rest', s' => by
    simp only [readEach, Except.ok.injEq, Prod.mk.injEq]
    constructor
    · rintro ⟨rfl, rfl⟩
      exact ⟨[], [], rfl, rfl, rfl, .nil, ⟨List.nodup_nil, nofun⟩, rfl⟩
    · rintro ⟨body, entries, hlines, hlength, hnext, hall, -, rfl⟩
      obtain rfl := List.eq_nil_of_length_eq_zero hlength
      cases hall
      obtain ⟨next, lines⟩ := rest
      obtain ⟨next', lines'⟩ := rest'
      simp only [List.nil_append] at hlines
      simp only [Nat.add_zero] at hnext
      exact ⟨rfl, by rw [hlines, hnext]⟩
  | count + 1, s, hs, rest, rest', s' => by
    unfold readEach
    simp only [Result.bind_ok_iff, h.ok_iff hs]
    constructor
    · rintro ⟨⟨line, rest₁⟩, hline, _, ⟨e, he, hfree, rfl⟩, hread⟩
      obtain ⟨hlines, -, hnext⟩ := (Remaining.line_ok_iff ..).1 hline
      obtain ⟨body, entries, hbody, hlength, hnext', hall, hfresh, hinsert⟩ :=
        (h.readEach_ok_iff what count (h.made hs he hfree) rest₁ rest' s').1 hread
      rw [h.at?_insert hs he hfree] at hfresh
      refine ⟨line.text :: body, e :: entries, ?_, ?_, ?_, .cons he hall, (freshIn_cons_iff ..).2 ⟨hfree, hfresh⟩,
        hinsert⟩
      · rw [hlines, hbody, List.cons_append]
      · rw [List.length_cons, hlength]
      · omega
    · rintro ⟨body, entries, hbody, hlength, hnext, hall, hfresh, hinsert⟩
      cases hall with
      | nil => cases hlength
      | @cons text e body entries he hall =>
        obtain ⟨hfree, hfresh⟩ := (freshIn_cons_iff ..).1 hfresh
        rw [← h.at?_insert hs he hfree] at hfresh
        refine ⟨(⟨rest.next, text⟩, ⟨rest.next + 1, body ++ rest'.lines⟩), ?_, _, ⟨e, he, hfree, rfl⟩, ?_⟩
        · exact (Remaining.line_ok_iff ..).2 ⟨hbody, rfl, rfl⟩
        · refine (h.readEach_ok_iff what count (h.made hs he hfree) _ rest' s').2
            ⟨body, entries, rfl, Nat.succ.inj hlength, ?_, hall, hfresh, hinsert⟩
          show rest'.next = rest.next + 1 + count
          omega

/-- **The entries that were inserted are in the map**, besides those that were in it before, and everything is still
made as it should be. -/
theorem foldl_insert (h : EntryReader Made OfKind at? insert read) : ∀ {body : List (List Char)}
    {entries : List (Key × α)}, List.Forall₂ OfKind body entries → ∀ {s : σ}, Made s → FreshIn (at? s) entries →
      Made (entries.foldl insert s) ∧
        ∀ key a, at? (entries.foldl insert s) key = some a ↔ (key, a) ∈ entries ∨ at? s key = some a
  | _, _, .nil, s, hs, _ => ⟨hs, fun key a => by simp⟩
  | _, e :: _, .cons he hall, s, hs, hfresh => by
    obtain ⟨hfree, hfresh⟩ := (freshIn_cons_iff ..).1 hfresh
    rw [← h.at?_insert hs he hfree] at hfresh
    obtain ⟨hmade, hat⟩ := h.foldl_insert hall (h.made hs he hfree) hfresh
    refine ⟨hmade, fun key a => ?_⟩
    rw [List.foldl_cons, hat, h.at?_insert hs he hfree, insertIn_eq_some_iff hfree, List.mem_cons]
    tauto

end EntryReader
end BoundedTuring
