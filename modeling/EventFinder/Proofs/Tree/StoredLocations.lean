import Mathlib.Data.Set.List
import EventFinder.Proofs.Tree.Names
import EventFinder.Proofs.Tree.Scanning

/-!
# Trees of locations

A tree that consists of the directories of some locations, all of the same number of names, and the
directories on the way to them. A scan at this number of levels finds exactly the locations, as
their bytes and in the order of their names (`FileSystem.scan_of_consistsOf`).
-/

set_option autoImplicit false

namespace EventFinder

/-- The directories of the node are itself, those of the locations and those on the way to them. -/
def Node.ConsistsOf (node : Node) (locations : List Text) : Prop :=
  ∀ names, node.HasDirectory names ↔
    names = [] ∨ ∃ location ∈ locations, names <+: locationNames location

/-- The tree that was made for locations consists of them. -/
theorem Node.consistsOf_ofDirectories (locations : List Text) :
    (ofDirectories (locations.map locationNames)).ConsistsOf locations := by
  intro names
  simp [hasDirectory_ofDirectories]

section ConsistsOf

variable {node : Node} {locations : List Text} {depth : Nat}

/-- A tree of locations is a directory. -/
theorem Node.ConsistsOf.isDirectory (h : node.ConsistsOf locations) :
    node.isDirectory = true := by
  obtain ⟨entries, hentries⟩ := (h []).2 (.inl rfl)
  cases hentries
  rfl

/-- At the level of the locations there are no other directories. -/
theorem Node.ConsistsOf.hasDirectory_iff (h : node.ConsistsOf locations)
    (hdepth : ∀ location ∈ locations, (locationNames location).length = depth) (hne : depth ≠ 0)
    {names : List Bytes} :
    names.length = depth ∧ node.HasDirectory names ↔
      ∃ location ∈ locations, locationNames location = names := by
  rw [h names]
  constructor
  · rintro ⟨hlength, rfl | ⟨location, hmem, hbegins⟩⟩
    · exact absurd hlength.symm hne
    · have hlengths : names.length = (locationNames location).length :=
        hlength.trans (hdepth location hmem).symm
      exact ⟨location, hmem, (hbegins.eq_of_length hlengths).symm⟩
  · rintro ⟨location, hmem, rfl⟩
    exact ⟨hdepth location hmem, .inr ⟨location, hmem, List.prefix_rfl⟩⟩

/-- Above the level of the locations there are only the directories on the way to them. -/
theorem Node.ConsistsOf.forall_above_iff (h : node.ConsistsOf locations)
    (hdepth : ∀ location ∈ locations, (locationNames location).length = depth) {root : Path}
    (hroot : root.length ≤ maxPathBytes) :
    (∀ names, names.length < depth → node.HasDirectory names →
        (root.below names).length ≤ maxPathBytes) ↔
      ∀ location ∈ locations, ∀ k < depth,
        (root.below ((locationNames location).take k)).length ≤ maxPathBytes := by
  constructor
  · intro hall location hmem k hk
    refine hall _ ?_ ((h _).2 (.inr ⟨location, hmem, List.take_prefix k _⟩))
    rw [List.length_take, hdepth location hmem]
    omega
  · intro hall names hlength hnames
    obtain rfl | ⟨location, hmem, hbegins⟩ := (h names).1 hnames
    · exact hroot
    · rw [List.prefix_iff_eq_take.1 hbegins]
      exact hall location hmem _ hlength

end ConsistsOf

namespace FileSystem

/-- A scan at the level of the locations finds each of them once, in the order of their names. It
succeeds exactly if the paths on the way to them can be followed. -/
theorem scan_of_consistsOf {files : FileSystem} {root : Path} {place : Place}
    {locations : List Text} {depth : Nat} (hroot : files.resolve root = .ok place)
    (hordered : place.node.Ordered) (hconsists : place.node.ConsistsOf locations)
    (hdepth : ∀ location ∈ locations, (locationNames location).length = depth) (hne : depth ≠ 0)
    (hnames : ∀ location ∈ locations, IsPathOfNames location) :
    ∃ found : List Text, (found.map locationNames).Pairwise (· < ·) ∧
      (∀ location, location ∈ found ↔ location ∈ locations) ∧
      ∀ report, files.scan root { depth } = .ok report ↔
        (∀ location ∈ locations, ∀ k < depth,
          (root.below ((locationNames location).take k)).length ≤ maxPathBytes) ∧
        report = ⟨found.map Text.toBytes, 0, depth⟩ := by
  have hlevel : ∀ names, names ∈ place.node.directoriesAt depth ↔
      ∃ location ∈ locations, locationNames location = names := fun names =>
    (Node.mem_directoriesAt_iff hordered).trans (hconsists.hasDirectory_iff hdepth hne)
  obtain ⟨found, hfound⟩ : place.node.directoriesAt depth ∈ Set.range (List.map locationNames) := by
    rw [Set.range_list_map]
    intro names hmem
    obtain ⟨location, -, rfl⟩ := (hlevel names).1 hmem
    exact ⟨location, rfl⟩
  have hmem : ∀ location, location ∈ found ↔ location ∈ locations := by
    intro location
    have := hlevel (locationNames location)
    rw [← hfound, List.mem_map_of_injective locationNames_injective] at this
    rw [this]
    constructor
    · rintro ⟨other, hother, heq⟩
      rwa [← locationNames_injective heq]
    · exact fun h => ⟨location, h, rfl⟩
  have hcandidates : (found.map locationNames).map (Path.below []) = found.map Text.toBytes := by
    rw [List.map_map]
    exact List.map_congr_left fun location h => (hnames location ((hmem location).1 h)).nil_below
  refine ⟨found, hfound ▸ Node.pairwise_directoriesAt hordered depth, hmem, fun report => ?_⟩
  rw [scan_eq_ok_iff_directoriesAt hroot hconsists.isDirectory hordered hne false,
    hconsists.forall_above_iff hdepth (length_le_of_resolve hroot), ← hcandidates, hfound]
  rfl

end FileSystem

end EventFinder
