import BoundedTuring.Proofs.Description.Evaluation
import BoundedTuring.Registry
/-!
# What the bundled descriptions describe

The three bundled texts are read, and the machines they describe are registered under their names in the order of the
texts (`registered_bundled`).  The machines are given here by their transitions over the indices of their symbols.
-/
namespace BoundedTuring
namespace Bundled

open MachineDescription (blankMachine readOver)

/-! ## Their machines -/

def containsOne : Machine := (blankMachine 3 (.binary .leftEnd)).putAll [
  (⟨0, 0⟩, ⟨0, 0, .right⟩), (⟨0, 1⟩, ⟨1, 1, .right⟩), (⟨0, 3⟩, ⟨2, 3, .right⟩)]

/-- Two letters and no other symbols but the special ones. -/
def letters : Alphabet := ⟨.leftEnd, ⟨#["a", "b"]⟩, #["a", "b", "leftend", "blank"]⟩

def evenLength : Machine := (blankMachine 4 letters).putAll [
  (⟨0, 0⟩, ⟨1, 0, .right⟩), (⟨0, 1⟩, ⟨1, 1, .right⟩), (⟨1, 0⟩, ⟨0, 0, .right⟩), (⟨1, 1⟩, ⟨0, 1, .right⟩),
  (⟨0, 3⟩, ⟨2, 3, .right⟩), (⟨1, 3⟩, ⟨3, 3, .right⟩)]

/-- Two letters and a mark for each of them: 0 and 1 are the letters, 2 and 3 their marks, and 5 is the blank. -/
def markedLetters : Alphabet := ⟨.leftEnd, ⟨#["a", "b"]⟩, #["a", "b", "X", "Y", "leftend", "blank"]⟩

/-- The transitions of the machine that matches letters, from state 0 on the first that is not marked.  State 1 looks
for a second letter to mark, state 2 goes back to the last mark, and state 3 checks that all is marked. -/
def anbnRules : List Entry := [
  (⟨0, 0⟩, ⟨1, 2, .right⟩), (⟨0, 3⟩, ⟨3, 3, .right⟩), (⟨0, 5⟩, ⟨4, 5, .right⟩), (⟨0, 1⟩, ⟨5, 1, .right⟩),
  (⟨0, 2⟩, ⟨5, 2, .right⟩), (⟨1, 0⟩, ⟨1, 0, .right⟩), (⟨1, 3⟩, ⟨1, 3, .right⟩), (⟨1, 1⟩, ⟨2, 3, .left⟩),
  (⟨1, 5⟩, ⟨5, 5, .right⟩), (⟨1, 2⟩, ⟨5, 2, .right⟩), (⟨2, 0⟩, ⟨2, 0, .left⟩), (⟨2, 3⟩, ⟨2, 3, .left⟩),
  (⟨2, 2⟩, ⟨0, 2, .right⟩), (⟨2, 1⟩, ⟨5, 1, .right⟩), (⟨2, 5⟩, ⟨5, 5, .right⟩), (⟨3, 3⟩, ⟨3, 3, .right⟩),
  (⟨3, 5⟩, ⟨4, 5, .right⟩), (⟨3, 0⟩, ⟨5, 0, .right⟩), (⟨3, 1⟩, ⟨5, 1, .right⟩), (⟨3, 2⟩, ⟨5, 2, .right⟩)]

def anbn : Machine := (blankMachine 6 markedLetters).putAll anbnRules

/-! ## Their alphabets -/

theorem ofList_letters : Alphabet.ofList ["a", "b"] 2 .leftEnd = .ok letters :=
  Alphabet.ofList_of_ordered (by decide) (by decide) rfl
    (Alphabet.ofListAvoiding_of_ordered _ rfl (by decide) rfl (by decide)) (by decide)

theorem ofList_markedLetters : Alphabet.ofList ["a", "b", "X", "Y"] 2 .leftEnd = .ok markedLetters :=
  Alphabet.ofList_of_ordered (by decide) (by decide) rfl
    (Alphabet.ofListAvoiding_of_ordered _ rfl (by decide) rfl (by decide)) (by decide)

/-! ## Reading them -/

section

variable {names lines : List String} {a : Alphabet}

theorem exists_of_readOver (ha : Alphabet.ofList names 2 .leftEnd = .ok a) {m : Machine}
    (hlines : lines ≠ [] ∧ ∀ line ∈ lines, Text.WithinLine line.toList)
    (hsize : ("\n".intercalate lines).utf8ByteSize ≤ maxDescriptionSize)
    (h : MachineDescription.machine <$> readOver .leftEnd names 2 a ⟨1, lines.map String.toList⟩ = .ok m) :
    ∃ d, MachineDescription.parse .leftEnd ("\n".intercalate lines) = .ok d ∧ d.machine = m := by
  obtain ⟨d, hd, hm⟩ := (Result.map_ok_iff ..).1 h
  exact ⟨d, MachineDescription.parse_ok_of_readOver ha hlines hsize hd, hm⟩

end

theorem parse_containsOneText :
    ∃ d, MachineDescription.parse .leftEnd containsOneText = .ok d ∧ d.machine = containsOne :=
  exists_of_readOver (Alphabet.ofList_binary .leftEnd) (by decide +kernel) (by decide +kernel) (by decide +kernel)

theorem parse_evenLengthText :
    ∃ d, MachineDescription.parse .leftEnd evenLengthText = .ok d ∧ d.machine = evenLength :=
  exists_of_readOver ofList_letters (by decide +kernel) (by decide +kernel) (by decide +kernel)

theorem parse_anbnText : ∃ d, MachineDescription.parse .leftEnd anbnText = .ok d ∧ d.machine = anbn :=
  exists_of_readOver ofList_markedLetters (by decide +kernel) (by decide +kernel) (by decide +kernel)

/-! ## Registering them -/

/-- A text that is read is registered under a name that no machine has. -/
theorem registerText_ok {r : Registry} {name text : String} {d : MachineDescription}
    (hparse : MachineDescription.parse .leftEnd text = .ok d) (hname : name ∉ r.names) :
    r.registerText name text = .ok (r.size, ⟨r.machines.push ⟨name, d⟩, r.parsedCount + 1⟩) := by
  have hname : r.indexOf? name = none := by
    rw [Registry.indexOf?, Array.findIdx?_eq_none_iff]
    intro m hm
    simpa using fun heq : m.name = name => hname (List.mem_map.2 ⟨m, Array.mem_toList_iff.2 hm, heq⟩)
  unfold Registry.registerText Registry.register
  rw [hparse, hname]
  rfl

/-- **Texts that are read are registered one after the other**, if their names are new and different. -/
theorem foldl_registerText : ∀ {texts : List (String × String)} {ds : List MachineDescription},
    List.Forall₂ (fun t d => MachineDescription.parse .leftEnd t.2 = .ok d) texts ds → ∀ r : Registry,
      (texts.map Prod.fst).Nodup → (∀ t ∈ texts, t.1 ∉ r.names) →
      texts.foldl (fun r (name, text) => match r.registerText name text with
        | .ok (_, r) => r
        | .error _ => r) r =
          ⟨r.machines ++ (List.zipWith (fun t d => ⟨t.1, d⟩) texts ds).toArray, r.parsedCount + texts.length⟩
  | _, _, .nil, r, _, _ => by simp
  | (name, _) :: texts, d :: _, .cons hparse hall, r, hnodup, hnew => by
    obtain ⟨hnot, hnodup⟩ := List.nodup_cons.1 hnodup
    obtain ⟨hname, hnew⟩ := List.forall_mem_cons.1 hnew
    have hnew : ∀ t ∈ texts, t.1 ∉ (Registry.mk (r.machines.push ⟨name, d⟩) (r.parsedCount + 1)).names := by
      intro t ht hmem
      rw [Registry.names, Array.toList_push, List.map_append, List.mem_append] at hmem
      rcases hmem with hold | hlast
      · exact hnew t ht hold
      · rw [List.map_singleton, List.mem_singleton] at hlast
        exact hnot (List.mem_map.2 ⟨t, ht, hlast⟩)
    rw [List.foldl_cons]
    dsimp only
    rw [registerText_ok hparse hname]
    dsimp only
    rw [foldl_registerText hall _ hnodup hnew]
    simp [Nat.add_assoc, Nat.add_comm 1]

/-- **Every bundled text is read and registered.** -/
theorem registered_bundled : ∃ d₁ d₂ d₃, Registry.bundled =
    ⟨#[⟨"contains-one", d₁⟩, ⟨"even-length", d₂⟩, ⟨"anbn", d₃⟩], 3⟩ ∧
      d₁.machine = containsOne ∧ d₂.machine = evenLength ∧ d₃.machine = anbn := by
  obtain ⟨d₁, hd₁, hm₁⟩ := parse_containsOneText
  obtain ⟨d₂, hd₂, hm₂⟩ := parse_evenLengthText
  obtain ⟨d₃, hd₃, hm₃⟩ := parse_anbnText
  have hparse : List.Forall₂ (fun t d => MachineDescription.parse .leftEnd t.2 = .ok d) bundledDescriptions
      [d₁, d₂, d₃] := .cons hd₁ (.cons hd₂ (.cons hd₃ .nil))
  refine ⟨d₁, d₂, d₃, ?_, hm₁, hm₂, hm₃⟩
  exact foldl_registerText hparse .empty (by decide) (by simp [Registry.names, Registry.empty])

end Bundled
end BoundedTuring
