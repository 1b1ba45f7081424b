import BoundedTuring.Proofs.Bundled.Descriptions
import Mathlib.Data.List.Nodup
/-!
# Histories of a registry

A registry starts empty or with the bundled machines, and machines are registered in it one by one, from texts and from
directories.  `Performed` says all that a call can do: it is refused and leaves the registry as it is, or machines with
new names are appended.  So names stay distinct and machines keep their places (`Performed.extends`), and since each
call counts what it parsed (`Performed.accounted`), the machines that are not counted are those that were registered
directly.
-/
namespace BoundedTuring
namespace Registry

/-- What can be done to a registry. -/
inductive Call where
  | register (name : String) (description : MachineDescription)
  | registerText (name text : String)
  | registerDirectory (fs : FileSystem) (mode : TapeMode) (path : String)
  deriving DecidableEq, Repr

/-- What a call answers, which is an index or how many machines were added, and the registry after it, which is as it
was if the call fails. -/
def perform (r : Registry) : Call → Result Nat × Registry
  | .register name description => single r (r.register name description)
  | .registerText name text => single r (r.registerText name text)
  | .registerDirectory fs mode path =>
    let (added, r) := r.registerLoads (Loads.ofDirectory fs mode path)
    (.ok added, r)
where
  single (r : Registry) : Result (Nat × Registry) → Result Nat × Registry
    | .ok (index, r) => (.ok index, r)
    | .error e => (.error e, r)

/-- The registry after some calls. -/
def after (r : Registry) (calls : List Call) : Registry := calls.foldl (fun r c => (r.perform c).2) r

/-- Whether a call registers a machine that was not parsed for it. -/
def registersDirectly (r : Registry) : Call → Bool
  | .register name description => (r.register name description).isOk
  | .registerText .. | .registerDirectory .. => false

/-- How many of some calls register a machine that was not parsed for them. -/
def directCount (r : Registry) : List Call → Nat
  | [] => 0
  | c :: rest => (if r.registersDirectly c then 1 else 0) + directCount (r.perform c).2 rest

/-- A registry with some more machines, of which some number are counted as parsed. -/
def append (r : Registry) (added : List RegisteredMachine) (parsed : Nat) : Registry :=
  ⟨r.machines ++ added.toArray, r.parsedCount + parsed⟩

/-- Machines under names that are different and that no machine of the registry has. -/
structure New (r : Registry) (added : List RegisteredMachine) : Prop where
  nodup : (added.map (·.name)).Nodup
  not_mem : ∀ m ∈ added, m.name ∉ r.names

/-- **What a call does**, with what it answers and the registry after it. -/
inductive Performed (r : Registry) : Call → Result Nat → Registry → Prop
  | registered {name : String} {d : MachineDescription} (hnew : name ∉ r.names) :
    Performed r (.register name d) (.ok r.size) (r.append [⟨name, d⟩] 0)
  | taken {name : String} {d : MachineDescription} (hold : name ∈ r.names) :
    Performed r (.register name d) (.error (.ofFault (.nameTaken name))) r
  | parsed {name text : String} {d : MachineDescription} (hparse : MachineDescription.parse .leftEnd text = .ok d)
    (hnew : name ∉ r.names) : Performed r (.registerText name text) (.ok r.size) (r.append [⟨name, d⟩] 1)
  | notParsed {name text : String} {e : Error} (hparse : MachineDescription.parse .leftEnd text = .error e) :
    Performed r (.registerText name text) (.error e) r
  | parsedTaken {name text : String} {d : MachineDescription}
    (hparse : MachineDescription.parse .leftEnd text = .ok d) (hold : name ∈ r.names) :
    Performed r (.registerText name text) (.error (.ofFault (.nameTaken name))) r
  | directory {fs : FileSystem} {mode : TapeMode} {path : String} {added : List RegisteredMachine} (hnew : r.New added)
    (hloaded : added.Sublist
      ((Loads.ofDirectory fs mode path).loaded.map fun m => ⟨Path.stem m.name, m.description⟩)) :
    Performed r (.registerDirectory fs mode path) (.ok added.length) (r.append added added.length)

/-! ## One registration -/

section

variable {r r' : Registry} {c : Call} {answer : Result Nat}

theorem append_nil (r : Registry) : r.append [] 0 = r := by
  obtain ⟨machines, parsedCount⟩ := r
  simp [append]

theorem append_append (r : Registry) (first second : List RegisteredMachine) (n m : Nat) :
    (r.append first n).append second m = r.append (first ++ second) (n + m) := by
  simp [append, Nat.add_assoc]

theorem names_append (r : Registry) (added : List RegisteredMachine) (parsed : Nat) :
    (r.append added parsed).names = r.names ++ added.map (·.name) := by
  simp [append, names]

theorem size_append (r : Registry) (added : List RegisteredMachine) (parsed : Nat) :
    (r.append added parsed).size = r.size + added.length := by
  simp [append, size]

theorem isSome_indexOf?_iff (r : Registry) (name : String) : (r.indexOf? name).isSome = true ↔ name ∈ r.names := by
  rw [indexOf?, Array.findIdx?_isSome, Array.any_eq_true', names, List.mem_map]
  simp only [beq_iff_eq, Array.mem_toList_iff]

theorem register_of_new {name : String} (d : MachineDescription) (hnew : name ∉ r.names) :
    r.register name d = .ok (r.size, r.append [⟨name, d⟩] 0) := by
  unfold register
  rw [if_neg (fun hsome => hnew ((isSome_indexOf?_iff r name).1 hsome))]
  simp [append]

theorem register_of_taken {name : String} (d : MachineDescription) (hold : name ∈ r.names) :
    r.register name d = .error (.ofFault (.nameTaken name)) := if_pos ((isSome_indexOf?_iff r name).2 hold)

theorem countParsed_append (r : Registry) (added : List RegisteredMachine) (parsed : Nat) :
    (r.append added parsed).countParsed = r.append added (parsed + 1) := rfl

/-- **Loaded machines are registered as far as their names are new.** -/
theorem exists_append_of_registerLoaded : ∀ (loaded : List LoadedMachine) (n : Nat) (r : Registry),
    ∃ added, loaded.foldl registerLoaded (n, r) = (n + added.length, r.append added added.length) ∧ r.New added ∧
      added.Sublist (loaded.map fun m => ⟨Path.stem m.name, m.description⟩)
  | [], n, r => ⟨[], by simp [append_nil], ⟨List.nodup_nil, nofun⟩, .slnil⟩
  | m :: loaded, n, r => by
    rw [List.foldl_cons]
    by_cases hname : Path.stem m.name ∈ r.names
    · have hstep : registerLoaded (n, r) m = (n, r) := by
        simp only [registerLoaded, register_of_taken m.description hname]
      obtain ⟨added, hfold, hnew, hloaded⟩ := exists_append_of_registerLoaded loaded n r
      exact ⟨added, by rw [hstep, hfold], hnew, hloaded.cons _⟩
    · have hstep : registerLoaded (n, r) m =
          (n + 1, r.append [⟨Path.stem m.name, m.description⟩] 1) := by
        simp only [registerLoaded, register_of_new m.description hname, countParsed_append]
      obtain ⟨added, hfold, ⟨hnodup, hnot⟩, hloaded⟩ := exists_append_of_registerLoaded loaded (n + 1)
        (r.append [⟨Path.stem m.name, m.description⟩] 1)
      simp only [names_append, List.map_cons, List.map_nil, List.mem_append, List.mem_singleton, not_or] at hnot
      refine ⟨⟨Path.stem m.name, m.description⟩ :: added, ?_, ⟨?_, ?_⟩, hloaded.cons_cons _⟩
      · rw [hstep, hfold, append_append, List.length_cons, Nat.add_assoc, Nat.add_comm 1]
        rfl
      · rw [List.map_cons, List.nodup_cons, List.mem_map]
        exact ⟨fun ⟨m', hm', heq⟩ => (hnot m' hm').2 heq, hnodup⟩
      · exact List.forall_mem_cons.2 ⟨hname, fun m' hm' => (hnot m' hm').1⟩

/-- **Whatever is called is performed.** -/
theorem performed_perform (r : Registry) (c : Call) : Performed r c (r.perform c).1 (r.perform c).2 := by
  cases c with
  | register name d =>
    by_cases hname : name ∈ r.names
    · simp only [perform, register_of_taken d hname]
      exact .taken hname
    · simp only [perform, register_of_new d hname]
      exact .registered hname
  | registerText name text =>
    cases hparse : MachineDescription.parse .leftEnd text with
    | error e =>
      have hregister : r.registerText name text = .error e := by
        unfold registerText
        rw [hparse]
        rfl
      simp only [perform, hregister]
      exact .notParsed hparse
    | ok d =>
      have hregister : r.registerText name text =
          (r.register name d >>= fun (index, r) => pure (index, r.countParsed)) := by
        unfold registerText
        rw [hparse]
        rfl
      by_cases hname : name ∈ r.names
      · simp only [perform, hregister, register_of_taken d hname]
        exact .parsedTaken hparse hname
      · simp only [perform, hregister, register_of_new d hname]
        exact .parsed hparse hname
  | registerDirectory fs mode path =>
    obtain ⟨added, hfold, hnew, hloaded⟩ :=
      exists_append_of_registerLoaded (Loads.ofDirectory fs mode path).loaded 0 r
    rw [Nat.zero_add] at hfold
    simp only [perform, registerLoads, hfold]
    exact .directory hnew hloaded

/-! ## What every call keeps -/

/-- **A call appends machines under new names**, or none. -/
theorem Performed.extends (h : Performed r c answer r') : ∃ added parsed, r.New added ∧ r' = r.append added parsed := by
  have hone : ∀ {name : String} (d : MachineDescription), name ∉ r.names → r.New [⟨name, d⟩] := fun d hnew =>
    ⟨List.pairwise_singleton .., List.forall_mem_singleton.2 hnew⟩
  have hnone : ∃ added parsed, r.New added ∧ r = r.append added parsed :=
    ⟨[], 0, ⟨List.nodup_nil, nofun⟩, (append_nil r).symm⟩
  cases h with
  | registered hnew => exact ⟨_, _, hone _ hnew, rfl⟩
  | taken => exact hnone
  | parsed _ hnew => exact ⟨_, _, hone _ hnew, rfl⟩
  | notParsed => exact hnone
  | parsedTaken => exact hnone
  | directory hnew => exact ⟨_, _, hnew, rfl⟩

theorem New.names_nodup {added : List RegisteredMachine} (h : r.New added) (hr : r.names.Nodup) (parsed : Nat) :
    (r.append added parsed).names.Nodup := by
  rw [names_append, List.nodup_append]
  refine ⟨hr, h.nodup, fun name hname name' hname' heq => ?_⟩
  obtain ⟨m, hm, rfl⟩ := List.mem_map.1 hname'
  exact h.not_mem m hm (heq ▸ hname)

/-- **What is not counted as parsed was registered directly.** -/
theorem Performed.accounted (h : Performed r c answer r') {others : Nat} (hr : r.size = r.parsedCount + others) :
    r'.size = r'.parsedCount + ((if r.registersDirectly c then 1 else 0) + others) := by
  cases h with
  | @registered name d hnew =>
    have hdirect : r.registersDirectly (.register name d) = true := by
      simp [registersDirectly, register_of_new d hnew, Except.isOk, Except.toBool]
    rw [size_append, hdirect]
    show r.size + 1 = r.parsedCount + 0 + (1 + others)
    omega
  | @taken name d hold =>
    have hrefused : r.registersDirectly (.register name d) = false := by
      simp [registersDirectly, register_of_taken d hold, Except.isOk, Except.toBool]
    rw [hrefused, hr]
    simp
  | parsed =>
    rw [size_append]
    show r.size + 1 = r.parsedCount + 1 + (0 + others)
    omega
  | notParsed | parsedTaken =>
    show r.size = r.parsedCount + (0 + others)
    omega
  | @directory _ _ _ added =>
    rw [size_append]
    show r.size + added.length = r.parsedCount + added.length + (0 + others)
    omega

/-! ## Looking up -/

theorem byIndex_ok_iff (r : Registry) (index : Nat) (m : RegisteredMachine) :
    r.byIndex index = .ok m ↔ r.machines[index]? = some m := by
  unfold byIndex
  cases r.machines[index]? <;> simp [Result.fail]

/-- **A machine keeps its index when others are appended.** -/
theorem byIndex_append {index : Nat} {m : RegisteredMachine} (h : r.byIndex index = .ok m)
    (added : List RegisteredMachine) (parsed : Nat) : (r.append added parsed).byIndex index = .ok m := by
  rw [byIndex_ok_iff] at h ⊢
  exact (Array.getElem?_append_left (Array.getElem?_eq_some_iff.1 h).1).trans h

/-- **Where names are distinct a machine is found by its name.** -/
theorem byName_ok_of_mem (hr : r.names.Nodup) {m : RegisteredMachine} (hm : m ∈ r.machines) :
    r.byName m.name = .ok m := by
  unfold byName
  cases hfind : r.machines.find? (·.name == m.name) with
  | none => exact absurd (Array.find?_eq_none.1 hfind m hm) (by simp)
  | some found =>
    have hname : found.name = m.name := by simpa using Array.find?_some hfind
    have hfound : found ∈ r.machines.toList := Array.mem_toList_iff.2 (Array.mem_of_find?_eq_some hfind)
    rw [List.inj_on_of_nodup_map hr hfound (Array.mem_toList_iff.2 hm) hname]

end

/-! ## Histories -/

theorem after_append (start : Registry) (earlier later : List Call) :
    start.after (earlier ++ later) = (start.after earlier).after later := List.foldl_append ..

/-- **What every call keeps, a history keeps.** -/
theorem after_induct {P : Registry → Prop} (hcall : ∀ r c, P r → P (r.perform c).2) :
    ∀ (calls : List Call) (r : Registry), P r → P (r.after calls)
  | [], _, h => h
  | c :: calls, r, h => after_induct hcall calls (r.perform c).2 (hcall r c h)

theorem names_nodup_after {start : Registry} (h : start.names.Nodup) (calls : List Call) :
    (start.after calls).names.Nodup := by
  refine after_induct (P := fun r => r.names.Nodup) (fun r c hr => ?_) calls start h
  obtain ⟨added, parsed, hnew, heq⟩ := (performed_perform r c).extends
  rw [heq]
  exact hnew.names_nodup hr parsed

theorem byIndex_after {r : Registry} {index : Nat} {m : RegisteredMachine} (h : r.byIndex index = .ok m)
    (calls : List Call) : (r.after calls).byIndex index = .ok m := by
  refine after_induct (P := fun r => r.byIndex index = .ok m) (fun r c hr => ?_) calls r h
  obtain ⟨added, parsed, -, heq⟩ := (performed_perform r c).extends
  rw [heq]
  exact byIndex_append hr added parsed

theorem size_after : ∀ (calls : List Call) {r : Registry} {others : Nat}, r.size = r.parsedCount + others →
    (r.after calls).size = (r.after calls).parsedCount + (r.directCount calls + others)
  | [], r, others, h => by rwa [directCount, Nat.zero_add]
  | c :: calls, r, others, h => by
    have hrest := size_after calls ((performed_perform r c).accounted h)
    rw [directCount, Nat.add_comm (if r.registersDirectly c then 1 else 0), Nat.add_assoc]
    exact hrest

/-- A registry in order, after some calls. -/
structure Consistent (start : Registry) (calls : List Call) : Prop where
  names_nodup : (start.after calls).names.Nodup
  /-- What a further call does. -/
  performed : ∀ c, Performed (start.after calls) c ((start.after calls).perform c).1 ((start.after calls).perform c).2
  /-- Whatever had an index before has it now. -/
  kept : ∀ earlier later, calls = earlier ++ later → ∀ index m,
    (start.after earlier).byIndex index = .ok m → (start.after calls).byIndex index = .ok m
  accounted : (start.after calls).size = (start.after calls).parsedCount + start.directCount calls
  found : ∀ index < (start.after calls).size, ∃ m, (start.after calls).byIndex index = .ok m ∧
    (start.after calls).names[index]? = some m.name ∧ (start.after calls).byName m.name = .ok m

theorem consistent_of_parsed {start : Registry} (hnames : start.names.Nodup) (hcount : start.size = start.parsedCount)
    (calls : List Call) : Consistent start calls where
  names_nodup := names_nodup_after hnames calls
  performed := performed_perform _
  kept := by
    rintro earlier later rfl index m h
    rw [after_append]
    exact byIndex_after h later
  accounted := size_after calls (show start.size = start.parsedCount + 0 from hcount)
  found index hindex := by
    have hget : (start.after calls).machines[index]? = some (start.after calls).machines[index] :=
      Array.getElem?_eq_getElem hindex
    refine ⟨_, (byIndex_ok_iff ..).2 hget, ?_, ?_⟩
    · rw [names, List.getElem?_map, Array.getElem?_toList, hget]
      rfl
    · exact byName_ok_of_mem (names_nodup_after hnames calls) (Array.getElem_mem hindex)

/-- **A registry stays in order**, whether it starts empty or with the bundled machines, and whatever is registered in
it: names are distinct, machines are appended and keep their places, a failed call changes nothing, the machines that
are not counted as parsed are those that were registered directly, and each machine is found by its index and by the
name at that index. -/
theorem registry_consistent (calls : List Call) : Consistent .empty calls ∧ Consistent .bundled calls := by
  refine ⟨consistent_of_parsed (by decide) rfl calls, ?_⟩
  obtain ⟨d₁, d₂, d₃, hbundled, -⟩ := Bundled.registered_bundled
  have hnames : Registry.bundled.names = ["contains-one", "even-length", "anbn"] := by rw [hbundled]; rfl
  exact consistent_of_parsed (hnames ▸ by decide) (by rw [hbundled]; rfl) calls

end Registry
end BoundedTuring
