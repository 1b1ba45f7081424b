import BoundedTuring.Proofs.Storage.Path
import BoundedTuring.Storage.Loading
import Mathlib.Data.List.Nodup
import Mathlib.Data.List.Perm.Basic
/-!
# Loading a directory

A directory lists its entries in any order.  Each description file among them gives one result, which does not depend
on the others (`LoadsTo`).  Results are sorted by a lawful comparison (`pairwise_toList`), and stably, so errors stay as
they were met (`failed_ofResults`).  Since no two entries have one name, no machine is like another: they are strictly
in the order of their paths (`Precedes`), and there is one such order (`loaded_eq_of_perm`).
-/
namespace BoundedTuring

/-- What a directory can list: no name twice, and each a name that a file may have. -/
structure IsListing (entries : List (String × FileNode)) : Prop where
  nodup : (entries.map Prod.fst).Nodup
  names : ∀ entry ∈ entries, Path.IsName entry.1

theorem IsListing.of_perm {entries entries' : List (String × FileNode)} (h : IsListing entries)
    (hperm : entries.Perm entries') : IsListing entries' :=
  ⟨(hperm.map Prod.fst).nodup_iff.1 h.nodup, fun entry hentry => h.names entry (hperm.mem_iff.2 hentry)⟩

namespace Loads

/-- Whether an entry is a file with the extension of machine descriptions. -/
def isDescription : String × FileNode → Bool
  | (_, .directory) => false
  | (name, .file _) => Path.extension? name == some descriptionExtension

/-- What a description file of a directory loads to: the description that its text is read as, or an error that names
its path and says why there is none. -/
inductive LoadsTo (mode : TapeMode) (directory : String) : String × FileNode → Result LoadedMachine → Prop
  | loaded {name text : String} {d : MachineDescription} (hparse : MachineDescription.parse mode text = .ok d) :
    LoadsTo mode directory (name, .file (some text)) (.ok ⟨name, Path.join directory name, d⟩)
  | refused {name text : String} {e : Error} (hparse : MachineDescription.parse mode text = .error e) :
    LoadsTo mode directory (name, .file (some text))
      (Result.fail (.machineNotLoaded (Path.join directory name) e.message))
  | notText {name : String} :
    LoadsTo mode directory (name, .file none) (Result.fail (.machineNotLoaded (Path.join directory name)
      (Error.ofFault (.fileNotRead (Path.join directory name) .notText)).message))

/-- The order of results: machines by their paths, then errors. -/
def Precedes : Result LoadedMachine → Result LoadedMachine → Prop
  | .ok a, .ok b => Path.Before a.path b.path
  | .ok _, .error _ => True
  | .error _, .ok _ => False
  | .error _, .error _ => True

variable {mode : TapeMode} {directory : String} {entry : String × FileNode} {entries entries' : List (String × FileNode)}
  {results : List (Result LoadedMachine)}

/-! ## One file after the other -/

section

variable {name text : String}

theorem loadFile?_of_parsed (hextension : Path.extension? name = some descriptionExtension) {d : MachineDescription}
    (hparse : MachineDescription.parse mode text = .ok d) (directory : String) :
    loadFile? mode directory (name, .file (some text)) = some (.ok ⟨name, Path.join directory name, d⟩) := by
  have hload : loadMachine (fun _ => .ok text) mode (Path.join directory name) = .ok d := hparse
  simp [loadFile?, hextension, hload]

theorem loadFile?_of_refused (hextension : Path.extension? name = some descriptionExtension) {e : Error}
    (hparse : MachineDescription.parse mode text = .error e) (directory : String) :
    loadFile? mode directory (name, .file (some text)) =
      some (Result.fail (.machineNotLoaded (Path.join directory name) e.message)) := by
  have hload : loadMachine (fun _ => .ok text) mode (Path.join directory name) = .error e := hparse
  simp [loadFile?, hextension, hload]

theorem loadFile?_of_notText (hextension : Path.extension? name = some descriptionExtension) (mode : TapeMode)
    (directory : String) : loadFile? mode directory (name, .file none) =
      some (Result.fail (.machineNotLoaded (Path.join directory name)
        (Error.ofFault (.fileNotRead (Path.join directory name) .notText)).message)) := if_pos hextension

end

theorem loadFile?_of_description (mode : TapeMode) (directory : String) (h : isDescription entry = true) :
    ∃ r, loadFile? mode directory entry = some r ∧ LoadsTo mode directory entry r := by
  obtain ⟨name, content | _⟩ := entry
  · have hextension : Path.extension? name = some descriptionExtension := by simpa [isDescription] using h
    cases content with
    | none => exact ⟨_, loadFile?_of_notText hextension mode directory, .notText⟩
    | some text =>
      cases hparse : MachineDescription.parse mode text with
      | ok d => exact ⟨_, loadFile?_of_parsed hextension hparse directory, .loaded hparse⟩
      | error e => exact ⟨_, loadFile?_of_refused hextension hparse directory, .refused hparse⟩
  · cases h

theorem loadFile?_of_other (mode : TapeMode) (directory : String) (h : isDescription entry = false) :
    loadFile? mode directory entry = none := by
  obtain ⟨name, content | _⟩ := entry
  · exact if_neg (by simpa [isDescription] using h)
  · rfl

/-- **Each description file gives one result, and nothing else does.** -/
theorem forall₂_loadFile? (mode : TapeMode) (directory : String) : ∀ entries : List (String × FileNode),
    List.Forall₂ (LoadsTo mode directory) (entries.filter isDescription) (entries.filterMap (loadFile? mode directory))
  | [] => .nil
  | entry :: entries => by
    have ih := forall₂_loadFile? mode directory entries
    cases hdescription : isDescription entry with
    | false => rwa [List.filter_cons_of_neg (by simp [hdescription]),
        List.filterMap_cons_none (loadFile?_of_other mode directory hdescription)]
    | true =>
      obtain ⟨r, hload, hr⟩ := loadFile?_of_description mode directory hdescription
      rw [List.filter_cons_of_pos hdescription, List.filterMap_cons_some hload]
      exact .cons hr ih

section

variable {files : List (String × FileNode)}

/-- Each machine is loaded from a file of its own and has the name of that file. -/
theorem names_of_loads (h : List.Forall₂ (LoadsTo mode directory) files results) :
    ((results.filterMap Except.toOption).map (·.name)).Sublist (files.map Prod.fst) := by
  induction h with
  | nil => exact .slnil
  | cons hload _ ih =>
    cases hload with
    | loaded => exact ih.cons_cons _
    | refused => exact ih.cons _
    | notText => exact ih.cons _

theorem path_of_loads (h : List.Forall₂ (LoadsTo mode directory) files results) :
    ∀ m ∈ results.filterMap Except.toOption, m.path = Path.join directory m.name := by
  induction h with
  | nil => exact nofun
  | cons hload _ ih =>
    cases hload with
    | loaded => exact List.forall_mem_cons.2 ⟨rfl, ih⟩
    | refused => exact ih
    | notText => exact ih

end

/-! ## In order -/

instance transCmp_compareResults : Std.TransCmp compareResults where
  eq_swap {r r'} := by
    cases r <;> cases r'
    case ok.ok => exact Path.transCmp_compare.eq_swap
    all_goals rfl
  isLE_trans {r r' r''} h h' := by
    cases r <;> cases r' <;> cases r''
    case ok.ok.ok => exact Path.transCmp_compare.isLE_trans h h'
    case error.ok.ok => cases h
    case ok.error.ok | error.error.ok => cases h'
    all_goals rfl

theorem compareResults_total (r r' : Result LoadedMachine) :
    ((compareResults r r').isLE || (compareResults r' r).isLE) = true := by
  rw [transCmp_compareResults.eq_swap (a := r') (b := r)]
  cases compareResults r r' <;> rfl

theorem toList_perm (results : List (Result LoadedMachine)) : (ofResults results).toList.Perm results :=
  List.mergeSort_perm ..

theorem loaded_perm (results : List (Result LoadedMachine)) :
    (ofResults results).loaded.Perm (results.filterMap Except.toOption) := (toList_perm results).filterMap _

/-- **The results are sorted.** -/
theorem pairwise_toList (results : List (Result LoadedMachine)) :
    (ofResults results).toList.Pairwise fun r r' => (compareResults r r').isLE = true :=
  List.pairwise_mergeSort (fun _ _ _ => Std.TransCmp.isLE_trans) compareResults_total results

/-- **Errors stay in the order they were met in**, as the sort is stable. -/
theorem failed_ofResults (results : List (Result LoadedMachine)) : (ofResults results).failed = failed ⟨results⟩ := by
  have herrors : failed ⟨results.filter fun r => !r.isOk⟩ = failed ⟨results⟩ := by
    unfold failed
    rw [List.filterMap_filter]
    congr 1
    funext r
    cases r <;> rfl
  have halike : (results.filter fun r => !r.isOk).Pairwise fun r r' => (compareResults r r').isLE = true := by
    refine List.pairwise_filter.2 (List.pairwise_of_forall fun r r' hr hr' => ?_)
    cases r <;> cases r'
    case ok.ok | error.ok => cases hr'
    all_goals rfl
  have hsublist : (results.filter fun r => !r.isOk).Sublist (ofResults results).toList :=
    List.sublist_mergeSort (fun _ _ _ => Std.TransCmp.isLE_trans) compareResults_total halike List.filter_sublist
  have hfailed : (failed ⟨results⟩).Sublist (ofResults results).failed := herrors ▸ hsublist.filterMap _
  exact (hfailed.eq_of_length ((toList_perm results).filterMap _).length_eq.symm).symm

/-- **Machines from different files of a directory are strictly in order**, and errors are after them. -/
theorem pairwise_precedes (hnodup : ((results.filterMap Except.toOption).map (·.name)).Nodup)
    (hfiles : ∀ m ∈ results.filterMap Except.toOption, Path.IsName m.name ∧ m.path = Path.join directory m.name) :
    (ofResults results).toList.Pairwise Precedes := by
  have hfile : ∀ m, .ok m ∈ (ofResults results).toList → Path.IsName m.name ∧ m.path = Path.join directory m.name :=
    fun m hm => hfiles m (List.mem_filterMap.2 ⟨_, (toList_perm results).mem_iff.1 hm, rfl⟩)
  have hdistinct := List.pairwise_filterMap.1 (List.pairwise_map.1 (((loaded_perm results).map _).nodup_iff.2 hnodup))
  refine ((pairwise_toList results).and hdistinct).imp_of_mem ?_
  intro r r' hr hr' h
  obtain ⟨hle, hne⟩ := h
  cases r <;> cases r'
  case ok.ok m m' =>
    obtain ⟨hname, hpath⟩ := hfile m hr
    obtain ⟨hname', hpath'⟩ := hfile m' hr'
    change Path.Before m.path m'.path
    change (Path.compare m.path m'.path).isLE = true at hle
    rw [hpath, hpath'] at hle ⊢
    exact Path.before_of_isLE hname hname' (hne m rfl m' rfl) directory hle
  case error.ok => cases hle
  all_goals trivial

/-- Machines among ordered results are in the order of their paths. -/
theorem pairwise_loaded {loads : Loads} (hordered : loads.toList.Pairwise Precedes) :
    loads.loaded.Pairwise fun m m' => Path.Before m.path m'.path := by
  refine hordered.filterMap _ fun r r' hprecedes m hm m' hm' => ?_
  cases r <;> cases hm
  cases r' <;> cases hm'
  exact hprecedes

/-- **There is one order for machines with paths that are not alike.** -/
theorem loaded_eq_of_perm {loads : Loads} (hordered : loads.toList.Pairwise Precedes) {machines : List LoadedMachine}
    (hmachines : machines.Pairwise fun m m' => Path.Before m.path m'.path) (hperm : loads.loaded.Perm machines) :
    loads.loaded = machines :=
  hperm.eq_of_pairwise (fun _ _ _ _ h h' => absurd h h'.asymm) (pairwise_loaded hordered) hmachines

/-! ## A directory -/

/-- What loading a directory gives for the entries it lists: one result for each description file, in order. -/
structure OfEntries (mode : TapeMode) (directory : String) (entries : List (String × FileNode)) (loads : Loads) :
    Prop where
  each : ∃ files, files.Perm (entries.filter isDescription) ∧
    List.Forall₂ (LoadsTo mode directory) files loads.toList
  ordered : loads.toList.Pairwise Precedes

/-- The names of the machines that are loaded are different names of entries. -/
theorem names_of_listing (h : IsListing entries) (mode : TapeMode) (directory : String) :
    ((((entries.filterMap (loadFile? mode directory)).filterMap Except.toOption).map (·.name)).Nodup) ∧
      ∀ m ∈ (entries.filterMap (loadFile? mode directory)).filterMap Except.toOption, Path.IsName m.name := by
  have hnames := (names_of_loads (forall₂_loadFile? mode directory entries)).trans (List.filter_sublist.map Prod.fst)
  refine ⟨h.nodup.sublist hnames, fun m hm => ?_⟩
  obtain ⟨entry, hentry, hname⟩ := List.mem_map.1 (hnames.subset (List.mem_map_of_mem hm))
  exact hname ▸ h.names entry hentry

theorem ofListing_ofEntries (h : IsListing entries) (mode : TapeMode) (directory : String) :
    OfEntries mode directory entries (ofListing mode directory entries) := by
  have hloads := forall₂_loadFile? mode directory entries
  obtain ⟨hnodup, hnames⟩ := names_of_listing h mode directory
  constructor
  case each =>
    obtain ⟨files, hfiles, hperm⟩ := List.perm_comp_forall₂ (toList_perm _) hloads.flip
    exact ⟨files, hperm, hfiles.flip⟩
  case ordered => exact pairwise_precedes hnodup fun m hm => ⟨hnames m hm, path_of_loads hloads m hm⟩

/-- **Entries in another order load the same machines**, and the same errors in another order. -/
theorem ofListing_of_perm (h : IsListing entries) (hperm : entries.Perm entries') (mode : TapeMode)
    (directory : String) :
    (ofListing mode directory entries).loaded = (ofListing mode directory entries').loaded ∧
      (ofListing mode directory entries).failed.Perm (ofListing mode directory entries').failed := by
  have hresults := hperm.filterMap (loadFile? mode directory)
  have hloads := (toList_perm _).trans (hresults.trans (toList_perm _).symm)
  have hordered := (ofListing_ofEntries h mode directory).ordered
  have hordered' := (ofListing_ofEntries (h.of_perm hperm) mode directory).ordered
  exact ⟨loaded_eq_of_perm hordered (pairwise_loaded hordered') (hloads.filterMap _), hloads.filterMap _⟩

theorem ofDirectory_of_listed {fs : FileSystem} (hlist : fs.list directory = .ok entries) (mode : TapeMode) :
    ofDirectory fs mode directory = ofListing mode directory entries := by
  unfold ofDirectory
  rw [hlist]

end Loads
end BoundedTuring
