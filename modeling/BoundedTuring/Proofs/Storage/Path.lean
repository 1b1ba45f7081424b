import BoundedTuring.Storage.Path
import Mathlib.Data.List.Basic
import Mathlib.Data.Prod.Lex
import Mathlib.Data.String.Basic
/-!
# The order of paths

Components are in a linear order, so comparing paths is lawful (`compare_eq_lt` and the instance before it).  The paths
of two files in one directory differ in their last component only, which is their name, so they are in the order of
their names (`before_join`).
-/
namespace BoundedTuring
namespace Path

/-- A name that a file may have. -/
structure IsName (name : String) : Prop where
  ne_empty : name ≠ ""
  ne_here : name ≠ "."
  ne_parent : name ≠ ".."
  no_slash : '/' ∉ name.toList

instance (name : String) : Decidable (IsName name) :=
  decidable_of_iff (name ≠ "" ∧ name ≠ "." ∧ name ≠ ".." ∧ '/' ∉ name.toList)
    ⟨fun ⟨hempty, hhere, hparent, hslash⟩ => ⟨hempty, hhere, hparent, hslash⟩,
      fun ⟨hempty, hhere, hparent, hslash⟩ => ⟨hempty, hhere, hparent, hslash⟩⟩

variable {directory name a b : String}

/-! ## Comparing -/

namespace Component

def text : Component → String
  | .name text => text
  | _ => ""

/-- What a component is compared by. -/
def key (c : Component) : Nat ×ₗ String := toLex (c.rank, c.text)

theorem key_injective : Function.Injective key := by
  intro c c' h
  cases c <;> cases c' <;> simp_all [key, text, rank]

theorem lt_iff_key {c c' : Component} : c < c' ↔ c.key < c'.key := by
  change Before c c' ↔ _
  cases c <;> cases c' <;> simp [Before, key, text, rank, Prod.Lex.toLex_lt_toLex]

instance : Std.Irrefl fun c c' : Component => c < c' := ⟨fun c h => lt_irrefl c.key (lt_iff_key.1 h)⟩

instance : Trans (fun c c' : Component => c < c') (fun c c' : Component => c < c') fun c c' : Component => c < c' where
  trans h h' := lt_iff_key.2 ((lt_iff_key.1 h).trans (lt_iff_key.1 h'))

instance : Std.Trichotomous fun c c' : Component => c < c' where
  trichotomous _ _ h h' := key_injective (le_antisymm (not_lt.1 (mt lt_iff_key.2 h')) (not_lt.1 (mt lt_iff_key.2 h)))

end Component

instance transCmp_components : Std.TransCmp fun way way' : List Component => compareOfLessAndEq way way' :=
  .compareOfLessAndEq_of_irrefl_of_trans_of_antisymm List.lt_irrefl List.lt_trans fun h h' =>
    List.le_antisymm (List.not_lt.1 h') (List.not_lt.1 h)

instance transCmp_compare : Std.TransCmp compare where
  eq_swap := transCmp_components.eq_swap
  isLE_trans := transCmp_components.isLE_trans

theorem compare_eq_lt : compare a b = .lt ↔ Before a b := compareOfLessAndEq_eq_lt

theorem Before.asymm (h : Before a b) : ¬ Before b a :=
  fun h' => Std.OrientedCmp.not_lt_of_lt (compare_eq_lt.2 h) (compare_eq_lt.2 h')

/-! ## Pieces -/

theorem pieces_ne_nil (path : String) : pieces path ≠ [] := by
  simp [pieces]

theorem pieces_eq_singleton (h : '/' ∉ name.toList) : pieces name = [name] := by
  simp [pieces, List.splitOn_eq_singleton h]

theorem pieces_append_slash (path name : String) : pieces (path ++ "/" ++ name) = pieces path ++ pieces name := by
  have hchars : (path ++ "/" ++ name).toList = path.toList ++ '/' :: name.toList := by simp
  unfold pieces
  rw [hchars, List.splitOn_append_cons_self, List.map_append]

/-! ## Files of a directory -/

/-- A path in a directory has the pieces of the directory, less what is empty after a slash at its end, and the name. -/
theorem exists_pieces_join (hdirectory : directory ≠ "") (name : String) : ∃ way, way ≠ [] ∧
    (pieces directory = way ∨ pieces directory = way ++ [""]) ∧ pieces (join directory name) = way ++ pieces name := by
  have hempty : ¬ directory.isEmpty = true := by simpa using hdirectory
  unfold join
  rw [if_neg hempty]
  split
  · rename_i hslash
    obtain ⟨front, hfront⟩ := List.getLast?_eq_some_iff.1 hslash
    obtain rfl : directory = String.ofList front ++ "/" := by
      rw [← String.toList_inj, hfront]
      simp
    refine ⟨pieces (String.ofList front), pieces_ne_nil _, .inr ?_, pieces_append_slash ..⟩
    rw [← String.append_empty (s := String.ofList front ++ "/"), pieces_append_slash]
    rfl
  · exact ⟨pieces directory, pieces_ne_nil _, .inl rfl, pieces_append_slash ..⟩

theorem start_join (hdirectory : directory ≠ "") (name : String) : start (join directory name) = start directory := by
  have hnil : directory.toList ≠ [] := by simpa using hdirectory
  have hchar : (join directory name).toList.head? = directory.toList.head? := by
    unfold join
    split
    · simp_all
    split
    · rw [String.toList_append, List.head?_append_of_ne_nil _ hnil]
    · rw [String.toList_append, String.toList_append, List.append_assoc, List.head?_append_of_ne_nil _ hnil]
  have hpiece : (pieces (join directory name)).head? = (pieces directory).head? := by
    obtain ⟨way, hne, hway, hjoin⟩ := exists_pieces_join hdirectory name
    rw [hjoin, List.head?_append_of_ne_nil _ hne]
    rcases hway with hway | hway
    · rw [hway]
    · rw [hway, List.head?_append_of_ne_nil _ hne]
  unfold start
  rw [hchar, hpiece]

theorem IsName.start_eq (h : IsName name) : start name = [] := by
  have hslash : name.toList.head? ≠ some '/' := fun hhead => h.no_slash (List.mem_of_mem_head? hhead)
  simp [start, hslash, pieces_eq_singleton h.no_slash, h.ne_here]

/-- **A path in a directory leads through the directory and ends in the name.** -/
theorem components_join (h : IsName name) (directory : String) :
    components (join directory name) = components directory ++ [.name name] := by
  have hname : pieces name = [name] := pieces_eq_singleton h.no_slash
  have hpiece : Component.ofPiece? name = some (.name name) := by
    simp [Component.ofPiece?, h.ne_empty, h.ne_here, h.ne_parent]
  have hskip : Component.ofPiece? "" = none := by decide
  unfold components
  by_cases hempty : directory = ""
  · have hnothing : start "" ++ (pieces "").filterMap Component.ofPiece? = [] := by decide
    have hjoin : join directory name = name := if_pos (by simpa using hempty)
    rw [hjoin, hempty, hnothing, h.start_eq, hname]
    simp [hpiece]
  · obtain ⟨way, -, hway, hjoin⟩ := exists_pieces_join hempty name
    rw [start_join hempty, hjoin, hname]
    rcases hway with hway | hway <;> simp [hway, hpiece, hskip]

/-- **Files of a directory are in the order of their names.** -/
theorem before_join (ha : IsName a) (hb : IsName b) (hlt : a < b) (directory : String) :
    Before (join directory a) (join directory b) := by
  unfold Before
  rw [components_join ha, components_join hb]
  exact List.append_left_lt (List.Lex.rel hlt)

/-- Since no two files of a directory have one name, none of their paths are alike. -/
theorem before_of_isLE (ha : IsName a) (hb : IsName b) (hne : a ≠ b) (directory : String)
    (hle : (compare (join directory a) (join directory b)).isLE = true) :
    Before (join directory a) (join directory b) := by
  rcases lt_or_gt_of_ne hne with hlt | hgt
  · exact before_join ha hb hlt directory
  · exact absurd hle (Std.OrientedCmp.not_isLE_of_lt (compare_eq_lt.2 (before_join hb ha hgt directory)))

end Path
end BoundedTuring
