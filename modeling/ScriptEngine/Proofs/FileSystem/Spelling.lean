import Mathlib.Data.List.Dedup
import Mathlib.Data.List.Perm.Subperm
import Mathlib.Data.List.ProdSigma
import Mathlib.Tactic.Choose
import ScriptEngine.FileSystem

/-!
# Spellings of paths to files

However a path to a file is written, its canonical form is the one spelling of the path to the
place of that file. So there are never more canonical paths to files than there are files.
-/

namespace ScriptEngine.FileSystem

variable {fs : FileSystem}

/-- The places of the files. -/
def filePlaces (fs : FileSystem) : List Place :=
  ((fs.entries.map (·.1)).filter fun place =>
    match fs.entry? place with
    | some (.file _) => true
    | _ => false).dedup

/-- The path is the one spelling of the path to a file. -/
def Spells (fs : FileSystem) (path : Path) : Prop :=
  ∃ place ∈ fs.filePlaces, path = pathOf place

/-- A place where a file is found is among the places of the files: directories may be there without
being listed, files may not. -/
theorem mem_filePlaces {place : Place} {text? : Option String}
    (h : fs.entry? place = some (.file text?)) : place ∈ fs.filePlaces := by
  refine List.mem_dedup.mpr (List.mem_filter.mpr ⟨?_, by rw [h]⟩)
  unfold entry? at h
  split at h
  · next e heq =>
    obtain ⟨before, after, hentries, -⟩ := List.lookup_eq_some_iff.mp heq
    rw [hentries]
    simp
  · split at h
    · cases h
    · cases h

/-- The canonical form of a path to a file is its one spelling. -/
theorem spells_canonicalize {path : Path} (h : fs.isFile path = true) :
    fs.Spells ((fs.canonicalize path).toOption.getD path) := by
  unfold isFile at h
  unfold canonicalize
  cases hlocate : fs.locate path with
  | error fault =>
    rw [hlocate] at h
    cases h
  | ok place =>
    rw [hlocate] at h
    simp only [Except.toOption, Option.bind_some] at h
    split at h
    · next text? hentry => exact ⟨place, mem_filePlaces hentry, rfl⟩
    · cases h

/-- Things that have different paths if they are of the same kind, each path the spelling of a path
to a file, are at most as many for each kind as there are files. -/
theorem length_le_filePlaces {α β : Type} {xs : List α} {kind : α → β} {kinds : List β}
    {path : α → Path} (hkind : ∀ x ∈ xs, kind x ∈ kinds) (hspells : ∀ x ∈ xs, fs.Spells (path x))
    (hdistinct : (xs.map fun x => (kind x, path x)).Nodup) :
    xs.length ≤ kinds.length * fs.filePlaces.length := by
  choose! place hmem hpath using hspells
  have hnodup : (xs.map fun x => (kind x, place x)).Nodup := by
    refine List.pairwise_map.mpr ((List.pairwise_map.mp hdistinct).imp_of_mem ?_)
    intro x y hx hy hne heq
    obtain ⟨hkinds, hplaces⟩ := Prod.mk.inj heq
    rw [hpath x hx, hpath y hy, hkinds, hplaces] at hne
    exact hne rfl
  have hsub : (xs.map fun x => (kind x, place x)) ⊆ kinds ×ˢ fs.filePlaces := by
    intro a ha
    obtain ⟨x, hx, rfl⟩ := List.mem_map.mp ha
    exact List.mem_product.mpr ⟨hkind x hx, hmem x hx⟩
  have hle := (List.subperm_of_subset hnodup hsub).length_le
  rwa [List.length_map, List.length_product] at hle

end ScriptEngine.FileSystem
