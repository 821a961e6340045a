import Mathlib.Tactic.SplitIfs
import EventFinder.Proofs.Lookup
import EventFinder.Tree.Node

/-!
# The directories of a tree

The directories of a tree are given by the names that lead to them. `HasDirectory` says which there
are, without a walk, and `directoriesWithin` lists those down to some level. In a tree whose
entries stand in the order of their names (`Ordered`), the list holds each of them once
(`mem_directoriesWithin_iff`) and in the order of their names, compared one after the other
(`pairwise_directoriesWithin`). Making a directory keeps the order and adds only the directories on
the way to it (`hasDirectory_addDirectory`).
-/

set_option autoImplicit false

namespace EventFinder

namespace Node

/-- In every directory the entries stand in the order of their names, and no name stands twice. -/
inductive Ordered : Node → Prop where
  | file (content : Bytes) : Ordered (.file content)
  | link (target : Path) : Ordered (.link target)
  | directory {entries : List (Bytes × Node)}
      (names : entries.Pairwise fun first second => first.1 < second.1)
      (nodes : ∀ entry ∈ entries, Ordered entry.2) : Ordered (.directory entries)

/-- Names lead from the node to a directory, and not through links. -/
def HasDirectory (node : Node) (names : List Bytes) : Prop :=
  ∃ entries, node.at? names = some (.directory entries)

/-- The names of the directories at most the given number of levels below the node, which comes
first if it is one itself. -/
def directoriesWithin : Nat → Node → List (List Bytes)
  | 0, .directory _ => [[]]
  | levels + 1, .directory entries =>
    [] :: entries.flatMap fun entry => (directoriesWithin levels entry.2).map (entry.1 :: ·)
  | _, _ => []

/-- The names of the directories at most one level more than the given number below a directory with
these entries, itself not included. -/
def directoriesOfEntries (levels : Nat) (entries : List (Bytes × Node)) : List (List Bytes) :=
  entries.flatMap fun entry => (directoriesWithin levels entry.2).map (entry.1 :: ·)

/-- At the last level there is the directory itself. -/
theorem directoriesWithin_zero (entries : List (Bytes × Node)) :
    directoriesWithin 0 (directory entries) = [[]] :=
  rfl

/-- Above the last level there is the directory itself, and there are those below its entries. -/
theorem directoriesWithin_succ (levels : Nat) (entries : List (Bytes × Node)) :
    directoriesWithin (levels + 1) (directory entries) =
      [] :: directoriesOfEntries levels entries :=
  rfl

/-- The directories below the first entry stand before those below the others. -/
theorem directoriesOfEntries_cons (levels : Nat) (name : Bytes) (node : Node)
    (entries : List (Bytes × Node)) :
    directoriesOfEntries levels ((name, node) :: entries) =
      (directoriesWithin levels node).map (name :: ·) ++ directoriesOfEntries levels entries :=
  rfl

/-- A directory below entries is not the one that they stand in. -/
theorem nil_notMem_directoriesOfEntries (levels : Nat) (entries : List (Bytes × Node)) :
    [] ∉ directoriesOfEntries levels entries := by
  simp [directoriesOfEntries]

/-- A directory comes first in the list of its directories. -/
theorem directoriesWithin_directory (levels : Nat) (entries : List (Bytes × Node)) :
    ∃ rest, directoriesWithin levels (directory entries) = [] :: rest ∧ [] ∉ rest := by
  cases levels with
  | zero => exact ⟨[], rfl, by simp⟩
  | succ levels =>
    exact ⟨directoriesOfEntries levels entries, rfl,
      nil_notMem_directoriesOfEntries levels entries⟩

/-- There are no directories in what is none. -/
theorem directoriesWithin_of_not_isDirectory {node : Node} (h : node.isDirectory = false)
    (levels : Nat) : directoriesWithin levels node = [] := by
  cases node with
  | file content => cases levels <;> rfl
  | link target => cases levels <;> rfl
  | directory entries => cases h

/-! ## Looking names up -/

/-- Names that stand in order do not repeat. -/
theorem nodup_names {entries : List (Bytes × Node)}
    (horder : entries.Pairwise fun first second => first.1 < second.1) :
    (entries.map Prod.fst).Nodup := by
  rw [List.Nodup, List.pairwise_map]
  refine horder.imp fun {first second} hlt heq => ?_
  rw [heq] at hlt
  exact List.lt_irrefl _ hlt

/-- Looking a name up in an ordered list finds exactly its entries. -/
theorem lookup_eq_some_iff_mem {name : Bytes} {entries : List (Bytes × Node)} {node : Node}
    (horder : entries.Pairwise fun first second => first.1 < second.1) :
    entries.lookup name = some node ↔ (name, node) ∈ entries :=
  ⟨mem_of_lookup_eq_some, lookup_eq_some_of_mem (nodup_names horder)⟩

/-- What names lead to in an ordered tree is ordered. -/
theorem Ordered.of_at? {node found : Node} {names : List Bytes} (h : node.Ordered)
    (hfound : node.at? names = some found) : found.Ordered := by
  induction names generalizing node with
  | nil =>
    cases hfound
    exact h
  | cons name names ih =>
    cases h with
    | file content => cases hfound
    | link target => cases hfound
    | directory horder hnodes =>
      simp only [at?, Option.bind_eq_some_iff] at hfound
      obtain ⟨next, hnext, hrest⟩ := hfound
      exact ih (hnodes _ (mem_of_lookup_eq_some hnext)) hrest

/-! ## Directories by their names -/

/-- A directory has itself. -/
@[simp] theorem hasDirectory_directory_nil (entries : List (Bytes × Node)) :
    (directory entries).HasDirectory [] :=
  ⟨entries, rfl⟩

/-- A file has no directory. -/
@[simp] theorem not_hasDirectory_file (content : Bytes) (names : List Bytes) :
    ¬ (file content).HasDirectory names := by
  rintro ⟨entries, h⟩
  cases names <;> cases h

/-- A link has no directory of its own. -/
@[simp] theorem not_hasDirectory_link (target : Path) (names : List Bytes) :
    ¬ (link target).HasDirectory names := by
  rintro ⟨entries, h⟩
  cases names <;> cases h

/-- The first name leads to an entry, and the others on from there. -/
theorem hasDirectory_cons_iff {entries : List (Bytes × Node)} {name : Bytes}
    {names : List Bytes} :
    (directory entries).HasDirectory (name :: names) ↔
      ∃ node, entries.lookup name = some node ∧ node.HasDirectory names := by
  simp only [HasDirectory, at?, Option.bind_eq_some_iff]
  constructor
  · rintro ⟨found, node, hnode, h⟩
    exact ⟨node, hnode, found, h⟩
  · rintro ⟨node, hnode, found, h⟩
    exact ⟨found, node, hnode, h⟩

/-- The list holds exactly the directories down to its level. -/
theorem mem_directoriesWithin_iff {node : Node} (hordered : node.Ordered) {levels : Nat}
    {names : List Bytes} :
    names ∈ directoriesWithin levels node ↔ names.length ≤ levels ∧ node.HasDirectory names := by
  induction levels generalizing node names with
  | zero =>
    cases node with
    | file content => simp [directoriesWithin]
    | link target => simp [directoriesWithin]
    | directory entries =>
      simp only [directoriesWithin, List.mem_singleton, Nat.le_zero, List.length_eq_zero_iff]
      constructor
      · rintro rfl
        exact ⟨rfl, hasDirectory_directory_nil entries⟩
      · exact And.left
  | succ levels ih =>
    cases hordered with
    | file content => simp [directoriesWithin]
    | link target => simp [directoriesWithin]
    | @directory entries horder hnodes =>
      cases names with
      | nil => simp [directoriesWithin]
      | cons name names =>
        rw [hasDirectory_cons_iff]
        simp only [lookup_eq_some_iff_mem horder, directoriesWithin, List.mem_cons, reduceCtorEq,
          List.mem_flatMap, List.mem_map, List.cons.injEq, false_or, List.length_cons,
          Nat.add_le_add_iff_right]
        constructor
        · rintro ⟨⟨_, node⟩, hmem, _, hnames, rfl, rfl⟩
          obtain ⟨hlength, hnode⟩ := (ih (hnodes _ hmem)).1 hnames
          exact ⟨hlength, node, hmem, hnode⟩
        · rintro ⟨hlength, node, hmem, hnode⟩
          exact ⟨(name, node), hmem, names, (ih (hnodes _ hmem)).2 ⟨hlength, hnode⟩, rfl, rfl⟩

/-- The list is in the order of the names, compared one after the other. -/
theorem pairwise_directoriesWithin {node : Node} (hordered : node.Ordered) (levels : Nat) :
    (directoriesWithin levels node).Pairwise (· < ·) := by
  induction levels generalizing node with
  | zero => cases node <;> simp [directoriesWithin]
  | succ levels ih =>
    cases hordered with
    | file content => simp [directoriesWithin]
    | link target => simp [directoriesWithin]
    | @directory entries horder hnodes =>
      refine List.pairwise_cons.2 ⟨?_, List.pairwise_flatMap.2 ⟨?_, ?_⟩⟩
      · simp only [List.mem_flatMap, List.mem_map]
        rintro _ ⟨entry, -, names, -, rfl⟩
        exact List.nil_lt_cons entry.1 names
      · intro entry hmem
        rw [List.pairwise_map]
        apply (ih (hnodes entry hmem)).imp
        intro names others h
        exact List.cons_lt_cons_iff.2 (.inr ⟨rfl, h⟩)
      · apply horder.imp
        intro first second hlt
        simp only [List.mem_map]
        rintro _ ⟨names, -, rfl⟩ _ ⟨others, -, rfl⟩
        exact List.cons_lt_cons_iff.2 (.inl hlt)

/-- The names of the directories the given number of levels below the node. -/
def directoriesAt (level : Nat) (node : Node) : List (List Bytes) :=
  (directoriesWithin level node).filter fun names => names.length = level

/-- At a level there are the directories that are reached by as many names. -/
theorem mem_directoriesAt_iff {node : Node} (hordered : node.Ordered) {level : Nat}
    {names : List Bytes} :
    names ∈ directoriesAt level node ↔ names.length = level ∧ node.HasDirectory names := by
  rw [directoriesAt, List.mem_filter, mem_directoriesWithin_iff hordered, decide_eq_true_eq]
  constructor
  · rintro ⟨⟨-, hmem⟩, hlength⟩
    exact ⟨hlength, hmem⟩
  · rintro ⟨hlength, hmem⟩
    exact ⟨⟨Nat.le_of_eq hlength, hmem⟩, hlength⟩

/-- The directories at a level stand in the order of their names. -/
theorem pairwise_directoriesAt {node : Node} (hordered : node.Ordered) (level : Nat) :
    (directoriesAt level node).Pairwise (· < ·) :=
  (pairwise_directoriesWithin hordered level).filter _

/-! ## Adding directories -/

section Alter

variable {name : Bytes} {leaf : Option Node → Node} {entries : List (Bytes × Node)}

/-- Every entry of a changed list is an old one or the one with the changed name. -/
theorem mem_alter {entry : Bytes × Node} (h : entry ∈ alter name leaf entries) :
    entry ∈ entries ∨ entry.1 = name ∧ ∃ old, entry.2 = leaf old ∧
      ∀ node, old = some node → (name, node) ∈ entries := by
  induction entries with
  | nil =>
    obtain rfl := List.mem_singleton.1 h
    exact .inr ⟨rfl, none, rfl, nofun⟩
  | cons first entries ih =>
    obtain ⟨other, node⟩ := first
    unfold alter at h
    split_ifs at h with hother hlt
    · subst hother
      obtain rfl | hmem := List.mem_cons.1 h
      · refine .inr ⟨rfl, some node, rfl, ?_⟩
        rintro _ ⟨⟩
        exact List.mem_cons_self
      · exact .inl (List.mem_cons_of_mem _ hmem)
    · obtain rfl | hmem := List.mem_cons.1 h
      · exact .inr ⟨rfl, none, rfl, nofun⟩
      · exact .inl hmem
    · obtain rfl | hmem := List.mem_cons.1 h
      · exact .inl List.mem_cons_self
      · obtain hold | ⟨hname, old, hleaf, hfound⟩ := ih hmem
        · exact .inl (List.mem_cons_of_mem _ hold)
        · exact .inr ⟨hname, old, hleaf,
            fun node hnode => List.mem_cons_of_mem _ (hfound node hnode)⟩

/-- Changing an entry keeps the order of the names. -/
theorem pairwise_alter (horder : entries.Pairwise fun first second => first.1 < second.1) :
    (alter name leaf entries).Pairwise fun first second => first.1 < second.1 := by
  induction entries with
  | nil => simp [alter]
  | cons first entries ih =>
    obtain ⟨other, node⟩ := first
    obtain ⟨hfirst, hrest⟩ := List.pairwise_cons.1 horder
    unfold alter
    split_ifs with hother hlt
    · exact List.pairwise_cons.2 ⟨hfirst, hrest⟩
    · refine List.pairwise_cons.2 ⟨?_, horder⟩
      intro entry hmem
      obtain rfl | hmem := List.mem_cons.1 hmem
      · exact hlt
      · exact List.lt_trans hlt (hfirst entry hmem)
    · have hgt : other < name := Std.lt_of_le_of_ne (List.not_lt.1 hlt) hother
      refine List.pairwise_cons.2 ⟨?_, ih hrest⟩
      intro entry hmem
      obtain hold | ⟨hname, -⟩ := mem_alter hmem
      · exact hfirst entry hold
      · rw [hname]
        exact hgt

/-- A name in front of all entries is none of theirs. -/
theorem lookup_eq_none_of_lt (h : ∀ entry ∈ entries, name < entry.1) :
    entries.lookup name = none := by
  cases hfound : entries.lookup name with
  | none => rfl
  | some node => exact absurd (h _ (mem_of_lookup_eq_some hfound)) (List.lt_irrefl name)

/-- What a changed list holds under a name. -/
theorem lookup_alter (horder : entries.Pairwise fun first second => first.1 < second.1)
    (other : Bytes) :
    (alter name leaf entries).lookup other =
      if other = name then some (leaf (entries.lookup name)) else entries.lookup other := by
  induction entries with
  | nil => rw [alter, lookup_cons_eq_ite, List.lookup_nil, List.lookup_nil]
  | cons first entries ih =>
    obtain ⟨own, node⟩ := first
    obtain ⟨hfirst, hrest⟩ := List.pairwise_cons.1 horder
    by_cases hown : own = name
    · subst hown
      rw [alter, if_pos rfl]
      simp only [lookup_cons_eq_ite, if_true]
      split <;> rfl
    · by_cases hlt : name < own
      · have hnone : ((own, node) :: entries).lookup name = none := by
          apply lookup_eq_none_of_lt
          intro entry hmem
          obtain rfl | hmem := List.mem_cons.1 hmem
          · exact hlt
          · exact List.lt_trans hlt (hfirst entry hmem)
        rw [alter, if_neg hown, if_pos hlt, hnone, lookup_cons_eq_ite]
      · rw [alter, if_neg hown, if_neg hlt]
        simp only [lookup_cons_eq_ite, ih hrest, if_neg (Ne.symm hown)]
        split
        · rename_i hother
          rw [if_neg (hother ▸ hown)]
        · rfl

end Alter

/-- The entries of what stands at a place, none if that is no directory. -/
def entriesOf : Option Node → List (Bytes × Node)
  | some (directory entries) => entries
  | _ => []

/-- What stands at a place becomes a directory of its entries. -/
theorem orDirectory_eq (old : Option Node) : orDirectory old = directory (entriesOf old) := by
  rcases old with _ | _ | _ | _ <;> rfl

/-- What lies along several names is changed in the entry of the first of them. -/
theorem change_cons (leaf : Option Node → Node) (name : Bytes) (names : List Bytes)
    (old : Option Node) :
    change leaf (name :: names) old =
      directory (alter name (change leaf names) (entriesOf old)) := by
  rcases old with _ | _ | _ | _ <;> rfl

/-- The entries of an ordered node are in order. -/
theorem ordered_entriesOf {old : Option Node} (h : ∀ node, old = some node → node.Ordered) :
    (directory (entriesOf old)).Ordered := by
  rcases old with _ | _ | _ | entries
  · exact .directory .nil (by simp [entriesOf])
  · exact .directory .nil (by simp [entriesOf])
  · exact .directory .nil (by simp [entriesOf])
  · exact h _ rfl

/-- Apart from itself, the directory with the entries of a node has the directories of the node. -/
theorem hasDirectory_entriesOf {old : Option Node} {names : List Bytes} :
    (directory (entriesOf old)).HasDirectory names ↔
      names = [] ∨ ∃ node, old = some node ∧ node.HasDirectory names := by
  cases names with
  | nil => simp
  | cons name names => rcases old with _ | _ | _ | _ <;>
    simp [entriesOf, hasDirectory_cons_iff]

/-- Making directories keeps a tree in order. -/
theorem ordered_change_orDirectory {names : List Bytes} {old : Option Node}
    (h : ∀ node, old = some node → node.Ordered) : (change orDirectory names old).Ordered := by
  induction names generalizing old with
  | nil => simpa only [change, orDirectory_eq] using ordered_entriesOf h
  | cons name names ih =>
    rw [change_cons]
    obtain _ | _ | ⟨horder, hnodes⟩ := ordered_entriesOf h
    apply Ordered.directory (pairwise_alter horder)
    intro entry hmem
    obtain hold | ⟨-, old, hleaf, hfound⟩ := mem_alter hmem
    · exact hnodes entry hold
    · rw [hleaf]
      exact ih fun node hnode => hnodes _ (hfound node hnode)

/-- Making a directory adds the directories on the way to it, and no others. -/
theorem hasDirectory_change_orDirectory {names others : List Bytes} {old : Option Node}
    (h : ∀ node, old = some node → node.Ordered) :
    (change orDirectory names old).HasDirectory others ↔
      others <+: names ∨ ∃ node, old = some node ∧ node.HasDirectory others := by
  induction names generalizing old others with
  | nil => simp only [change, orDirectory_eq, hasDirectory_entriesOf, List.prefix_nil]
  | cons name names ih =>
    rw [change_cons]
    cases others with
    | nil => simp
    | cons other others =>
      have hentries : (directory (entriesOf old)).HasDirectory (other :: others) ↔ _ :=
        hasDirectory_entriesOf
      obtain _ | _ | ⟨horder, hnodes⟩ := ordered_entriesOf h
      have ih := @ih others ((entriesOf old).lookup name) fun node hnode =>
        hnodes _ (mem_of_lookup_eq_some hnode)
      simp only [hasDirectory_cons_iff, reduceCtorEq, false_or] at hentries
      simp only [hasDirectory_cons_iff, lookup_alter horder, List.cons_prefix_cons, ← hentries]
      by_cases hname : other = name
      · subst hname
        simpa using ih
      · simp [hname]

/-- A directory is added in its place. -/
theorem Ordered.addDirectory {tree : Node} (h : tree.Ordered) (names : List Bytes) :
    (tree.addDirectory names).Ordered :=
  ordered_change_orDirectory (by simpa using h)

/-- A tree with one more directory has it, the ones on the way to it, and those that it had. -/
theorem hasDirectory_addDirectory {tree : Node} (h : tree.Ordered) {names others : List Bytes} :
    (tree.addDirectory names).HasDirectory others ↔
      others <+: names ∨ tree.HasDirectory others := by
  rw [Node.addDirectory, hasDirectory_change_orDirectory (by simpa using h)]
  simp

/-- The tree that consists of the given directories and those on the way to them. -/
def ofDirectories (directories : List (List Bytes)) : Node :=
  directories.foldl (fun tree names => tree.addDirectory names) empty

/-- Directories that are made one after the other keep a tree in order, and are all that is added
to it. -/
theorem foldl_addDirectory {tree : Node} (h : tree.Ordered) (directories : List (List Bytes)) :
    (directories.foldl (fun tree names => tree.addDirectory names) tree).Ordered ∧
      ∀ names, (directories.foldl (fun tree names => tree.addDirectory names) tree).HasDirectory
          names ↔ tree.HasDirectory names ∨ ∃ directory ∈ directories, names <+: directory := by
  induction directories generalizing tree with
  | nil => simp [h]
  | cons directory directories ih =>
    obtain ⟨hordered, hiff⟩ := ih (h.addDirectory directory)
    refine ⟨hordered, fun names => ?_⟩
    rw [List.foldl_cons, hiff, hasDirectory_addDirectory h]
    simp only [List.mem_cons, exists_eq_or_imp]
    rw [or_assoc, or_left_comm]

/-- The empty tree is in order. -/
theorem ordered_empty : empty.Ordered :=
  .directory .nil (by simp)

/-- A tree that is made of directories is in order, whatever order they are given in. -/
theorem ordered_ofDirectories (directories : List (List Bytes)) :
    (ofDirectories directories).Ordered :=
  (foldl_addDirectory ordered_empty directories).1

/-- The tree has its root, the given directories and those on the way to them, and no others. -/
theorem hasDirectory_ofDirectories {directories : List (List Bytes)} {names : List Bytes} :
    (ofDirectories directories).HasDirectory names ↔
      names = [] ∨ ∃ directory ∈ directories, names <+: directory := by
  have hempty : empty.HasDirectory names ↔ names = [] := by
    cases names <;> simp [empty, hasDirectory_cons_iff]
  rw [ofDirectories, (foldl_addDirectory ordered_empty directories).2, hempty]

end Node

end EventFinder
