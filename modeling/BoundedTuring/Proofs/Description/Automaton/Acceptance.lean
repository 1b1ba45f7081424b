import BoundedTuring.Proofs.Description.Automaton.Format
/-!
# Which texts are automaton descriptions

The accepting states and the transitions that are read end up in the automaton whatever their order: it is determined by
which states accept and which keys are defined (`Describes.unique`).  So texts are read if their lines are in the format
(`written_of_read`, `Written.read_ok`), as the one description with their contents (`Written.describes`).
-/
namespace BoundedTuring
namespace AutomatonDescription

/-! ## The accepting states -/

/-- What marking a state keeps, marking states does. -/
theorem acceptAll_induct {P : Automaton → Prop} (hmark : ∀ {d : Automaton} {q : Nat}, P d → P (d.mark q true)) :
    ∀ (states : List Nat) {d : Automaton}, P d → P (acceptAll d states)
  | [], _, h => h
  | q :: states, d, h => acceptAll_induct hmark states <| Result.getD_induct _ _ h fun d' hd' => by
    obtain ⟨-, rfl⟩ := (Automaton.setAccepting_ok_iff ..).1 hd'
    exact hmark h

/-- Marking states changes neither the transitions nor the bounds. -/
theorem acceptAll_frame (d : Automaton) (states : List Nat) : (acceptAll d states).input = d.input ∧
    (acceptAll d states).stateCount = d.stateCount ∧ (acceptAll d states).at? = d.at? ∧
    (acceptAll d states).definedCount = d.definedCount := by
  refine acceptAll_induct (P := fun d' => d'.input = d.input ∧ d'.stateCount = d.stateCount ∧ d'.at? = d.at? ∧
    d'.definedCount = d.definedCount) ?_ states ⟨rfl, rfl, rfl, rfl⟩
  rintro d' q ⟨hinput, hstates, hat, hcount⟩
  refine ⟨(Automaton.input_mark ..).trans hinput, (Automaton.stateCount_mark ..).trans hstates, ?_,
    (Automaton.definedCount_mark ..).trans hcount⟩
  funext key
  rw [Automaton.at?_mark, hat]

theorem accepts?_acceptAll (q : Nat) : ∀ (states : List Nat) (d : Automaton), (∀ p ∈ states, p < d.stateCount) →
    ((acceptAll d states).accepts? q = true ↔ q ∈ states ∨ d.accepts? q = true)
  | [], d, _ => by simp [acceptAll]
  | p :: states, d, hlt => by
    obtain ⟨hp, hlt⟩ := List.forall_mem_cons.1 hlt
    have hstates : (d.edit (.setAccepting p true)).stateCount = d.stateCount := by
      rw [Automaton.edit_setAccepting hp, Automaton.stateCount_mark]
    show (acceptAll (d.edit (.setAccepting p true)) states).accepts? q = true ↔ _
    rw [accepts?_acceptAll q states _ (hstates ▸ hlt), Automaton.edit_setAccepting hp, Automaton.accepts?_mark hp,
      List.mem_cons]
    by_cases hq : p = q
    · simp [hq]
    · simp [hq, Ne.symm hq]

theorem reachable_acceptAll {d : Automaton} (h : d.Reachable) (states : List Nat) : (acceptAll d states).Reachable := by
  have hedits := h.edits (states.map (fun state => .setAccepting state true))
  rwa [List.foldl_map] at hedits

/-! ## The transitions -/

/-- Registers entries whose keys are free. -/
def putAll (d : Automaton) (entries : List (Key × Nat)) : Automaton :=
  entries.foldl (fun d e => d.edit (.put e.1 e.2 false)) d

section Transitions

variable {input : InputAlphabet} {states : Nat} {accepting : List Nat}

theorem TransitionLine.edit_put {d : Automaton} {text : List Char} {e : Key × Nat}
    (hline : TransitionLine d.input d.stateCount text e) (hfree : d.at? e.1 = none) :
    d.InRange e.1 ∧ d.edit (.put e.1 e.2 false) = d.define e.1 e.2 := by
  obtain ⟨q, read, r, -, -, hread, -⟩ := hline.fields
  have hk : d.InRange e.1 := ⟨hline.state_lt, (Array.getElem?_eq_some_iff.1 hread).1⟩
  exact ⟨hk, Automaton.edit_put hk hline.next_lt hfree⟩

/-- An automaton as the first lines say, whatever its transitions. -/
structure Marked (input : InputAlphabet) (states : Nat) (accepting : List Nat) (d : Automaton) : Prop where
  reachable : d.Reachable
  input_eq : d.input = input
  stateCount_eq : d.stateCount = states
  acceptingStates_eq : d.acceptingStates = accepting

/-- Its transitions are read as entries. -/
theorem entryReader (input : InputAlphabet) (states : Nat) (accepting : List Nat) :
    EntryReader (Marked input states accepting) (TransitionLine input states) Automaton.at?
      (fun d e => d.edit (.put e.1 e.2 false)) readTransition where
  ok_iff := by
    rintro d ⟨hd, rfl, rfl, rfl⟩ line d'
    exact readTransition_ok_iff hd line d'
  made := by
    rintro d text e ⟨hd, rfl, rfl, rfl⟩ he hfree
    have hreachable := hd.edit (.put e.1 e.2 false)
    rw [(he.edit_put hfree).2] at hreachable ⊢
    exact ⟨hreachable, rfl, rfl, rfl⟩
  at?_insert := by
    rintro d text e ⟨hd, rfl, rfl, rfl⟩ he hfree
    obtain ⟨hk, hput⟩ := he.edit_put hfree
    funext key
    rw [hput, hd.sound.at?_define hk, insertIn]

/-- **The transitions that are read are counted.** -/
theorem definedCount_putAll : ∀ {body : List (List Char)} {entries : List (Key × Nat)},
    List.Forall₂ (TransitionLine input states) body entries → ∀ {d : Automaton}, Marked input states accepting d →
      FreshIn d.at? entries → (putAll d entries).definedCount = d.definedCount + entries.length
  | _, _, .nil, _, _, _ => rfl
  | _, e :: entries, .cons he hall, d, hd, hfresh => by
    have reader := entryReader input states accepting
    obtain ⟨hfree, hfresh⟩ := (freshIn_cons_iff ..).1 hfresh
    rw [← reader.at?_insert hd he hfree] at hfresh
    have ih := definedCount_putAll hall (reader.made hd he hfree) hfresh
    rw [← hd.input_eq, ← hd.stateCount_eq] at he
    obtain ⟨hk, hput⟩ := he.edit_put hfree
    show (putAll (d.edit (.put e.1 e.2 false)) entries).definedCount = _
    rw [ih, hput, Automaton.definedCount_define hk hfree, List.length_cons]
    omega

end Transitions

/-! ## Reading the whole -/

/-- The automaton with some accepting states and no transitions. -/
def markedSlate (states : Nat) (input : InputAlphabet) (accepting : List Nat) : Automaton :=
  acceptAll (Automaton.blankSlate states input) accepting

section MarkedSlate

variable {states : Nat} {input : InputAlphabet} {accepting : List Nat}

theorem at?_markedSlate (states : Nat) (input : InputAlphabet) (accepting : List Nat) (key : Key) :
    (markedSlate states input accepting).at? key = none := by
  rw [markedSlate, (acceptAll_frame ..).2.2.1, Automaton.at?_blankSlate]

theorem AcceptingLine.distinct {line : List Char} (h : AcceptingLine states line accepting) :
    accepting.Nodup ∧ ∀ q ∈ accepting, q < states := by
  cases h with
  | none => exact ⟨List.nodup_nil, nofun⟩
  | some _ _ hnodup hlt => exact ⟨hnodup, hlt⟩

/-- **The states on the line of accepting states are the ones that accept.** -/
theorem marked_markedSlate {symbolsLine acceptingLine : List Char} {inputSize : Nat}
    (hstates : minAutomatonStates ≤ states ∧ states ≤ maxStateCount)
    (hsymbols : SymbolsLine symbolsLine inputSize input) (haccepting : AcceptingLine states acceptingLine accepting) :
    Marked input states accepting.mergeSort (markedSlate states input accepting) := by
  obtain ⟨names, -, -, hinput⟩ := hsymbols
  obtain ⟨hnodup, hlt⟩ := haccepting.distinct
  obtain ⟨hframeInput, hframeStates, -⟩ := acceptAll_frame (Automaton.blankSlate states input) accepting
  rw [Automaton.stateCount_blankSlate] at hframeStates
  have hreachable := reachable_acceptAll (.blank ((Automaton.ofSymbols_ok_iff ..).2 ⟨hstates, input, hinput, rfl⟩))
    accepting
  refine ⟨hreachable, hframeInput, hframeStates, Automaton.acceptingStates_eq_mergeSort hnodup fun q => ?_⟩
  rw [Automaton.mem_acceptingStates_iff, markedSlate, hframeStates, accepts?_acceptAll _ _ _
    (by rwa [Automaton.stateCount_blankSlate]), Automaton.accepts?_blankSlate]
  constructor
  · rintro ⟨-, hmem | hblank⟩
    · exact hmem
    · cases hblank
  · intro hmem
    exact ⟨hlt q hmem, .inl hmem⟩

/-- **The transitions of an automaton are read from lines of their kind with different keys.** -/
theorem readTransitions_ok_iff {accepting' : List Nat}
    (h : Marked input states accepting' (markedSlate states input accepting)) (count : Nat)
    (rest rest' : Remaining) (d : Automaton) :
    readTransitions count (markedSlate states input accepting) rest = .ok (d, rest') ↔
      ∃ body entries, rest.lines = body ++ rest'.lines ∧ body.length = count ∧ rest'.next = rest.next + count ∧
        List.Forall₂ (TransitionLine input states) body entries ∧ (entries.map Prod.fst).Nodup ∧
        putAll (markedSlate states input accepting) entries = d := by
  have hfresh : ∀ entries : List (Key × Nat),
      FreshIn (markedSlate states input accepting).at? entries ↔ (entries.map Prod.fst).Nodup :=
    fun _ => and_iff_left fun _ _ => at?_markedSlate ..
  have hread := (entryReader input states accepting').readEach_ok_iff "transition" count h rest rest' d
  simp only [hfresh] at hread
  rw [readTransitions_eq_readEach]
  exact hread

end MarkedSlate

/-- The automaton with the accepting states and the transitions that are written. -/
def Contents.automaton (c : Contents) : Automaton := putAll (markedSlate c.states c.input c.accepting) c.transitions

def Contents.description (c : Contents) : AutomatonDescription :=
  ⟨c.automaton, c.config, (⟨0, c.comments⟩ : Remaining).comments⟩

/-- What the lines make of a blank automaton. -/
theorem Written.made {lines : List (List Char)} {c : Contents} (h : Written lines c) :
    Marked c.input c.states c.accepting.mergeSort c.automaton ∧
      (∀ key next, c.automaton.at? key = some next ↔ (key, next) ∈ c.transitions) ∧
      c.automaton.definedCount = c.transitions.length := by
  obtain ⟨header, symbols, accepting, body, rest, inputSize, -, hheader, hsymbols, haccepting, hall, hnodup, -⟩ := h
  have hmarked := marked_markedSlate hheader.states_range hsymbols haccepting
  have hfresh : FreshIn (markedSlate c.states c.input c.accepting).at? c.transitions :=
    ⟨hnodup, fun _ _ => at?_markedSlate ..⟩
  obtain ⟨hmade, hat⟩ := (entryReader ..).foldl_insert hall hmarked hfresh
  refine ⟨hmade, fun key next => ?_, ?_⟩
  · rw [Contents.automaton, putAll, hat, at?_markedSlate]
    simp
  · rw [Contents.automaton, definedCount_putAll hall hmarked hfresh, markedSlate, (acceptAll_frame ..).2.2.2]
    exact Nat.zero_add _

/-- **What is read was written in the format.** -/
theorem written_of_read {lines : List (List Char)} {d : AutomatonDescription} (hread : read ⟨1, lines⟩ = .ok d) :
    ∃ c, Written lines c ∧ c.description = d := by
  unfold read at hread
  simp only [Result.bind_ok_iff, Result.pure_ok_iff, readHeader_ok_iff] at hread
  obtain ⟨⟨line₁, rest₁⟩, hline₁, h, hheader, ⟨line₂, rest₂⟩, hline₂, d₂, hsymbols, ⟨line₃, rest₃⟩, hline₃, d₃,
    haccepting, ⟨d₄, rest₄⟩, htransitions, ⟨config, rest₅⟩, hsettings, rfl⟩ := hread
  obtain ⟨hlines₁, -, (hnext₁ : rest₁.next = 1 + 1)⟩ := (Remaining.line_ok_iff ..).1 hline₁
  obtain ⟨hlines₂, -, (hnext₂ : rest₂.next = rest₁.next + 1)⟩ := (Remaining.line_ok_iff ..).1 hline₂
  obtain ⟨hlines₃, -, (hnext₃ : rest₃.next = rest₂.next + 1)⟩ := (Remaining.line_ok_iff ..).1 hline₃
  obtain ⟨input, hinput, rfl⟩ := (readSymbols_ok_iff h line₂ d₂ hheader.states_range).1 hsymbols
  obtain ⟨accepting, hline, hacceptingCount, rfl⟩ := (readAccepting_ok_iff ..).1 haccepting
  have hmarked := marked_markedSlate hheader.states_range hinput hline
  obtain ⟨body, entries, hbody, hcount, hnext₄, hall, hnodup, rfl⟩ :=
    (readTransitions_ok_iff hmarked _ rest₃ rest₄ d₄).1 htransitions
  have hending := (readSettings_ok_iff _ rest₄ config rest₅.lines).1 ⟨rest₅.next, hsettings⟩
  have hfresh : FreshIn (markedSlate h.states input accepting).at? entries := ⟨hnodup, fun _ _ => at?_markedSlate ..⟩
  have hputInput := ((entryReader ..).foldl_insert hall hmarked hfresh).1.input_eq
  refine ⟨⟨h.states, input, accepting, entries, config, rest₅.lines⟩, ⟨line₁.text, line₂.text, line₃.text, body,
    rest₄.lines, h.inputSize, ?_, ?_, hinput, hline, hall, hnodup, ?_⟩, rfl⟩
  · rw [← hbody, ← hlines₃, ← hlines₂, ← hlines₁]
  · rw [hacceptingCount, hcount]
    exact hheader
  · have hnumber : rest₄.next = 4 + body.length := by omega
    rw [hnumber] at hending
    exact hputInput ▸ hending

/-- **What is written in the format is read.** -/
theorem Written.read_ok {lines : List (List Char)} {c : Contents} (h : Written lines c) :
    read ⟨1, lines⟩ = .ok c.description := by
  have hinput := h.made.1.input_eq
  obtain ⟨header, symbols, accepting, body, rest, inputSize, rfl, hheader, hsymbols, haccepting, hall, hnodup,
    hending⟩ := h
  have hmarked := marked_markedSlate hheader.states_range hsymbols haccepting
  rw [← hinput] at hending
  obtain ⟨next, hsettings⟩ := (readSettings_ok_iff c.automaton.input ⟨4 + body.length, rest⟩ _ _).2 hending
  unfold read
  simp only [Result.bind_ok_iff, Result.pure_ok_iff, readHeader_ok_iff]
  refine ⟨(⟨1, header⟩, ⟨2, symbols :: accepting :: (body ++ rest)⟩), rfl,
    ⟨c.states, inputSize, c.accepting.length, body.length⟩, hheader,
    (⟨2, symbols⟩, ⟨3, accepting :: (body ++ rest)⟩), rfl, Automaton.blankSlate c.states c.input, ?_,
    (⟨3, accepting⟩, ⟨4, body ++ rest⟩), rfl, markedSlate c.states c.input c.accepting, ?_,
    (c.automaton, ⟨4 + body.length, rest⟩), ?_, _, hsettings, rfl⟩
  · exact (readSymbols_ok_iff _ _ _ hheader.states_range).2 ⟨_, hsymbols, rfl⟩
  · exact (readAccepting_ok_iff ..).2 ⟨_, haccepting, rfl, rfl⟩
  · exact (readTransitions_ok_iff hmarked ..).2 ⟨body, c.transitions, rfl, rfl, rfl, hall, hnodup, rfl⟩

/-! ## What is described -/

/-- A description with certain contents.  Its automaton has exactly the transitions that are listed, in whatever order,
and stays in its state where none is; exactly the states that are listed accept. -/
structure Describes (c : Contents) (d : AutomatonDescription) : Prop where
  reachable : d.automaton.Reachable
  input : d.automaton.input = c.input
  states : d.automaton.stateCount = c.states
  acceptingStates : d.automaton.acceptingStates = c.accepting.mergeSort
  acceptingCount : d.automaton.acceptingCount = c.accepting.length
  listed : ∀ key next, (key, next) ∈ c.transitions → d.automaton.nextState key = .ok next
  unlisted : ∀ key, key.state < c.states → key.symbol < c.input.size → key ∉ c.transitions.map Prod.fst →
    d.automaton.nextState key = .ok key.state
  defined : ∀ key next, d.automaton.at? key = some next ↔ (key, next) ∈ c.transitions
  definedCount : d.automaton.definedCount = c.transitions.length
  config : d.config = c.config
  comments : CommentText c.comments d.comments

/-- There is one description with certain contents. -/
theorem Describes.unique {c : Contents} {d d' : AutomatonDescription} (h : Describes c d) (h' : Describes c d') :
    d = d' := by
  have hstates : d.automaton.stateCount = d'.automaton.stateCount := h.states.trans h'.states.symm
  have haccepting := h.acceptingStates.trans h'.acceptingStates.symm
  have hautomaton : d.automaton = d'.automaton := by
    refine h.reachable.sound.ext h'.reachable.sound (h.input.trans h'.input.symm) hstates (fun q hq => ?_) fun key => ?_
    · rw [Bool.eq_iff_iff]
      have hmem := Automaton.mem_acceptingStates_iff d.automaton q
      rw [haccepting, Automaton.mem_acceptingStates_iff, ← hstates] at hmem
      simpa [hq] using hmem.symm
    · refine Option.ext fun next => ?_
      rw [h.defined, h'.defined]
  have hcomments := (Remaining.comments_eq_iff ⟨0, c.comments⟩ _).2 h.comments
  rw [(Remaining.comments_eq_iff ⟨0, c.comments⟩ _).2 h'.comments] at hcomments
  obtain ⟨automaton, config, comments⟩ := d
  obtain ⟨automaton', config', comments'⟩ := d'
  simp only at hautomaton hcomments
  rw [hautomaton, hcomments, show config = config' from h.config.trans h'.config.symm]

/-- **What is written is described by what is read.** -/
theorem Written.describes {lines : List (List Char)} {c : Contents} (h : Written lines c) :
    Describes c c.description := by
  obtain ⟨⟨hreachable, hinput, hstates, hacceptingStates⟩, hat, hcount⟩ := h.made
  have hnext : ∀ {key}, c.automaton.InRange key →
      c.automaton.nextState key = .ok ((c.automaton.at? key).getD key.state) := fun hk =>
    (Automaton.nextState_ok_iff ..).2 ⟨hk, hreachable.sound.lookup_eq hk⟩
  refine ⟨hreachable, hinput, hstates, hacceptingStates, ?_, ?_, ?_, hat, hcount, rfl,
    (Remaining.comments_eq_iff ⟨0, c.comments⟩ _).1 rfl⟩
  · show c.automaton.acceptingCount = _
    rw [← hreachable.sound.length_acceptingStates, hacceptingStates, List.length_mergeSort]
  · intro key next hlisted
    have hsome := (hat key next).2 hlisted
    show c.automaton.nextState key = _
    rw [hnext (hreachable.sound.inRange_of_at? hsome), hsome]
    rfl
  · intro key hstate hsymbol hnot
    have hnone : c.automaton.at? key = none := by
      refine Option.eq_none_iff_forall_not_mem.2 fun next hsome => hnot ?_
      exact List.mem_map.2 ⟨(key, next), (hat key next).1 hsome, rfl⟩
    show c.automaton.nextState key = _
    rw [hnext ⟨hstates ▸ hstate, hinput ▸ hsymbol⟩, hnone]
    rfl

/-- **A text whose lines are in the format is read.** -/
theorem Written.parse_ok {text : String} {lines : List (List Char)} {c : Contents} (h : Written lines c)
    (hsize : text.utf8ByteSize ≤ maxDescriptionSize) (hlines : Text.Lines text.toList lines) :
    parse text = .ok c.description := by
  rw [parse, readDescription_ok_iff, (Text.lines_iff ..).1 hlines]
  exact ⟨hsize, h.read_ok⟩

/-- **A text is read as a description exactly if its lines are in the format and that is what they describe.** -/
theorem parse_ok_iff (text : String) (d : AutomatonDescription) :
    parse text = .ok d ↔ text.utf8ByteSize ≤ maxDescriptionSize ∧
      ∃ lines c, Text.Lines text.toList lines ∧ Written lines c ∧ Describes c d := by
  constructor
  · intro hparse
    obtain ⟨hsize, hread⟩ := (readDescription_ok_iff ..).1 hparse
    obtain ⟨c, hwritten, rfl⟩ := written_of_read hread
    exact ⟨hsize, _, c, (Text.lines_iff ..).2 rfl, hwritten, hwritten.describes⟩
  · rintro ⟨hsize, lines, c, hlines, hwritten, hd⟩
    rw [hwritten.parse_ok hsize hlines, hwritten.describes.unique hd]

/-- **Every automaton that is read is one that a history leads to.** -/
theorem reachable_of_parse {text : String} {d : AutomatonDescription} (h : parse text = .ok d) :
    d.automaton.Reachable := by
  obtain ⟨-, lines, c, -, -, hd⟩ := (parse_ok_iff ..).1 h
  exact hd.reachable

/-- **An automaton is read from the texts whose lines are in the format, and is the one they describe.** -/
theorem parse_iff_written (text : String) :
    ((∃ d, parse text = .ok d) ↔ text.utf8ByteSize ≤ maxDescriptionSize ∧
      ∃ lines c, Text.Lines text.toList lines ∧ Written lines c) ∧
    ∀ d, parse text = .ok d ↔ text.utf8ByteSize ≤ maxDescriptionSize ∧
      ∃ lines c, Text.Lines text.toList lines ∧ Written lines c ∧ Describes c d := by
  refine ⟨?_, parse_ok_iff text⟩
  simp only [parse_ok_iff]
  constructor
  · rintro ⟨d, hsize, lines, c, hlines, hwritten, -⟩
    exact ⟨hsize, lines, c, hlines, hwritten⟩
  · rintro ⟨hsize, lines, c, hlines, hwritten⟩
    exact ⟨c.description, hsize, lines, c, hlines, hwritten, hwritten.describes⟩

end AutomatonDescription
end BoundedTuring
