import BoundedTuring.Proofs.Registry.History
import BoundedTuring.Proofs.Storage.Loading
/-!
# Directories in any order

A file system lists a directory in whatever order it likes.  What is loaded from it is put in order before it is
registered, errors are skipped wherever they stand (`registerLoads_eq`), and so the registry is the same whatever order
that was.
-/
namespace BoundedTuring
namespace Registry

/-- Registers the machine that a file loaded to, or skips the error. -/
def registerResult : Nat × Registry → Result LoadedMachine → Nat × Registry
  | registered, .ok m => registerLoaded registered m
  | registered, .error _ => registered

theorem foldl_registerResult : ∀ (results : List (Result LoadedMachine)) (registered : Nat × Registry),
    results.foldl registerResult registered = (results.filterMap Except.toOption).foldl registerLoaded registered
  | [], _ => rfl
  | .ok _ :: results, _ => foldl_registerResult results _
  | .error _ :: results, _ => foldl_registerResult results _

/-- **What is loaded is registered one result after the other**, as far as there is a machine. -/
theorem registerLoads_eq (r : Registry) (loads : Loads) :
    r.registerLoads loads = loads.toList.foldl registerResult (0, r) := (foldl_registerResult loads.toList (0, r)).symm

/-- **The order that a directory is listed in is immaterial.**  From the entries of a directory, listed in two orders,
the same machines are loaded, in the order of their paths and each as its file describes it; the same errors follow them,
in some order; and registering these results one after the other leaves the same behind. -/
theorem listing_order_immaterial {fs fs' : FileSystem} {directory : String} {entries entries' : List (String × FileNode)}
    (hentries : IsListing entries) (hperm : entries.Perm entries') (hlist : fs.list directory = .ok entries)
    (hlist' : fs'.list directory = .ok entries') (mode : TapeMode) :
    let loads := Loads.ofDirectory fs mode directory
    let loads' := Loads.ofDirectory fs' mode directory
    loads.OfEntries mode directory entries ∧ loads'.OfEntries mode directory entries' ∧
      loads.loaded = loads'.loaded ∧ loads.failed.Perm loads'.failed ∧
      ∀ r : Registry, r.registerLoads loads = loads.toList.foldl registerResult (0, r) ∧
        r.perform (.registerDirectory fs mode directory) = r.perform (.registerDirectory fs' mode directory) := by
  intro loads loads'
  have hloads : loads = Loads.ofListing mode directory entries := Loads.ofDirectory_of_listed hlist mode
  have hloads' : loads' = Loads.ofListing mode directory entries' := Loads.ofDirectory_of_listed hlist' mode
  obtain ⟨hloaded, hfailed⟩ := Loads.ofListing_of_perm hentries hperm mode directory
  rw [← hloads, ← hloads'] at hloaded hfailed
  refine ⟨?first, ?second, hloaded, hfailed, fun r => ⟨registerLoads_eq r loads, ?registered⟩⟩
  case first =>
    rw [hloads]
    exact Loads.ofListing_ofEntries hentries mode directory
  case second =>
    rw [hloads']
    exact Loads.ofListing_ofEntries (hentries.of_perm hperm) mode directory
  case registered =>
    have hsame : r.registerLoads loads = r.registerLoads loads' := congrArg (List.foldl registerLoaded (0, r)) hloaded
    simp only [perform]
    rw [hsame]

/-- Six entries, of which two are machines, two are faulty, one has no description's extension and one is a directory.
Listed backwards, the machines are loaded in the order of their paths still. -/
theorem files_loaded_from_backwards_listing :
    let entries : List (String × FileNode) := [("anbn.tm", .file (some anbnText)), ("broken.tm", .file (some "3 4 2")),
      ("even.tm", .file (some evenLengthText)), ("notes.txt", .file (some "")), ("odd.tm", .file none),
      ("old.tm", .directory)]
    let fs : FileSystem := ⟨(["m"], .directory) :: entries.map fun (name, node) => (["m", name], node)⟩
    let fs' : FileSystem := ⟨(["m"], .directory) :: entries.reverse.map fun (name, node) => (["m", name], node)⟩
    let loads := Loads.ofDirectory fs' .leftEnd "m"
    IsListing entries ∧ entries.Perm entries.reverse ∧ fs.list "m" = .ok entries ∧ fs'.list "m" = .ok entries.reverse ∧
      loads.OfEntries .leftEnd "m" entries.reverse ∧ loads.loaded.map (·.path) = ["m/anbn.tm", "m/even.tm"] ∧
      loads.failed.length = 2 ∧
      Registry.empty.perform (.registerDirectory fs .leftEnd "m") =
        Registry.empty.perform (.registerDirectory fs' .leftEnd "m") := by
  intro entries fs fs' loads
  have hlist : fs.list "m" = .ok entries := rfl
  have hlist' : fs'.list "m" = .ok entries.reverse := rfl
  have hentries : IsListing entries := ⟨by decide, by decide⟩
  have hperm : entries.Perm entries.reverse := (List.reverse_perm entries).symm
  obtain ⟨-, hloads, hloaded, hfailed, hregistry⟩ := listing_order_immaterial hentries hperm hlist hlist' .leftEnd
  obtain ⟨d, hanbn, -⟩ := Bundled.parse_anbnText
  obtain ⟨d', heven, -⟩ := Bundled.parse_evenLengthText
  have hbroken : MachineDescription.parse .leftEnd "3 4 2" = Result.fail (.missingLine "tape symbols" 2) := by
    decide +kernel
  have hresults : entries.filterMap (Loads.loadFile? .leftEnd "m") = [.ok ⟨"anbn.tm", "m/anbn.tm", d⟩,
      Result.fail (.machineNotLoaded "m/broken.tm" (Error.ofFault (.missingLine "tape symbols" 2)).message),
      .ok ⟨"even.tm", "m/even.tm", d'⟩,
      Result.fail (.machineNotLoaded "m/odd.tm" (Error.ofFault (.fileNotRead "m/odd.tm" .notText)).message)] := by
    rw [List.filterMap_cons_some (Loads.loadFile?_of_parsed (by decide) hanbn "m"),
      List.filterMap_cons_some (Loads.loadFile?_of_refused (by decide) hbroken "m"),
      List.filterMap_cons_some (Loads.loadFile?_of_parsed (by decide) heven "m"),
      List.filterMap_cons_none (Loads.loadFile?_of_other .leftEnd "m" (by decide)),
      List.filterMap_cons_some (Loads.loadFile?_of_notText (by decide) .leftEnd "m")]
    rfl
  -- the machines of the listing are in the order of their paths already
  have hsorted : (Loads.ofListing .leftEnd "m" entries).loaded =
      [⟨"anbn.tm", "m/anbn.tm", d⟩, ⟨"even.tm", "m/even.tm", d'⟩] := by
    have hbefore : Path.Before (Path.join "m" "anbn.tm") (Path.join "m" "even.tm") :=
      Path.before_join (by decide) (by decide) (by decide +kernel) "m"
    have hmachines : (entries.filterMap (Loads.loadFile? .leftEnd "m")).filterMap Except.toOption =
        [⟨"anbn.tm", "m/anbn.tm", d⟩, ⟨"even.tm", "m/even.tm", d'⟩] := by
      rw [hresults]
      rfl
    refine Loads.loaded_eq_of_perm (Loads.ofListing_ofEntries hentries .leftEnd "m").ordered
      (List.pairwise_pair.2 hbefore) ?_
    rw [← hmachines]
    exact Loads.loaded_perm _
  have herrors : (Loads.ofListing .leftEnd "m" entries).failed.length = 2 := by
    unfold Loads.ofListing
    rw [Loads.failed_ofResults, hresults]
    rfl
  rw [Loads.ofDirectory_of_listed hlist] at hloaded hfailed
  refine ⟨hentries, hperm, hlist, hlist', hloads, ?_, ?_, (hregistry .empty).2⟩
  · show (Loads.ofDirectory fs' .leftEnd "m").loaded.map (·.path) = _
    rw [← hloaded, hsorted]
    rfl
  · exact hfailed.length_eq.symm.trans herrors

end Registry
end BoundedTuring
