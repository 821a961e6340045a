import EventFinder.Proofs.Tree.Directories
import EventFinder.Proofs.Tree.Names

/-!
# Names in a tree

In a tree that a file system can hold, the entries have names that an entry can have (`WellNamed`),
and names that lead from one place to another are of this kind (`WellNamed.of_at?`). Making
directories in such a tree under such names makes another one (`WellNamed.addDirectory`).
-/

set_option autoImplicit false

namespace EventFinder

namespace Node

/-- In every directory the entries have names that an entry can have. -/
inductive WellNamed : Node → Prop where
  | file (content : Bytes) : WellNamed (.file content)
  | link (target : Path) : WellNamed (.link target)
  | directory {entries : List (Bytes × Node)} (names : ∀ entry ∈ entries, IsName entry.1)
      (nodes : ∀ entry ∈ entries, WellNamed entry.2) : WellNamed (.directory entries)

/-- Names are followed one after the other. -/
theorem at?_append (node : Node) (names more : List Bytes) :
    node.at? (names ++ more) = (node.at? names).bind fun found => found.at? more := by
  induction names generalizing node with
  | nil => rfl
  | cons name names ih =>
    cases node with
    | file content => rfl
    | link target => rfl
    | directory entries =>
      simp only [List.cons_append, at?]
      cases entries.lookup name with
      | none => rfl
      | some found => exact ih found

/-- What names lead to is well named, and the names on the way are names of entries. -/
theorem WellNamed.of_at? {node found : Node} {names : List Bytes} (h : node.WellNamed)
    (hfound : node.at? names = some found) : found.WellNamed ∧ ∀ name ∈ names, IsName name := by
  induction names generalizing node with
  | nil =>
    cases hfound
    exact ⟨h, by simp⟩
  | cons name names ih =>
    cases h with
    | file content => cases hfound
    | link target => cases hfound
    | directory hnames hnodes =>
      simp only [at?, Option.bind_eq_some_iff] at hfound
      obtain ⟨next, hnext, hrest⟩ := hfound
      have hmem := mem_of_lookup_eq_some hnext
      obtain ⟨hwell, hisName⟩ := ih (hnodes _ hmem) hrest
      exact ⟨hwell, List.forall_mem_cons.2 ⟨hnames _ hmem, hisName⟩⟩

/-- The directories of a well-named tree are reached by proper names. -/
theorem WellNamed.isName_of_mem_directoriesWithin {node : Node} (h : node.WellNamed)
    (hordered : node.Ordered) {levels : Nat} {names : List Bytes}
    (hnames : names ∈ directoriesWithin levels node) : ∀ name ∈ names, IsName name := by
  obtain ⟨-, entries, hfound⟩ := (mem_directoriesWithin_iff hordered).1 hnames
  exact (h.of_at? hfound).2

/-! ## Making directories in a tree -/

/-- The entries of a well-named node are well named. -/
theorem wellNamed_entriesOf {old : Option Node} (h : ∀ node, old = some node → node.WellNamed) :
    (directory (entriesOf old)).WellNamed := by
  rcases old with _ | _ | _ | entries
  · exact .directory (by simp [entriesOf]) (by simp [entriesOf])
  · exact .directory (by simp [entriesOf]) (by simp [entriesOf])
  · exact .directory (by simp [entriesOf]) (by simp [entriesOf])
  · exact h _ rfl

/-- A change under names that entries can have keeps a tree well named if the node that it makes is
well named. -/
theorem wellNamed_change {leaf : Option Node → Node} {names : List Bytes} {old : Option Node}
    (hleaf : ∀ old, (∀ node, old = some node → node.WellNamed) → (leaf old).WellNamed)
    (hnames : ∀ name ∈ names, IsName name) (h : ∀ node, old = some node → node.WellNamed) :
    (change leaf names old).WellNamed := by
  induction names generalizing old with
  | nil => exact hleaf old h
  | cons name names ih =>
    obtain ⟨hname, hrest⟩ := List.forall_mem_cons.1 hnames
    obtain _ | _ | ⟨hentries, hnodes⟩ := wellNamed_entriesOf h
    rw [change_cons]
    apply WellNamed.directory
    · intro entry hmem
      obtain hold | ⟨rfl, -⟩ := mem_alter hmem
      · exact hentries entry hold
      · exact hname
    · intro entry hmem
      obtain hold | ⟨-, old, hchanged, hfound⟩ := mem_alter hmem
      · exact hnodes entry hold
      · rw [hchanged]
        exact ih hrest fun node hnode => hnodes _ (hfound node hnode)

/-- A directory with proper names can be added. -/
theorem WellNamed.addDirectory {tree : Node} {names : List Bytes} (h : tree.WellNamed)
    (hnames : ∀ name ∈ names, IsName name) : (tree.addDirectory names).WellNamed := by
  refine wellNamed_change (fun old hold => ?_) hnames (by simpa using h)
  rw [orDirectory_eq]
  exact wellNamed_entriesOf hold

/-- A tree that is made of directories with proper names is well named. -/
theorem wellNamed_ofDirectories {directories : List (List Bytes)}
    (h : ∀ names ∈ directories, ∀ name ∈ names, IsName name) :
    (ofDirectories directories).WellNamed := by
  suffices ∀ tree : Node, tree.WellNamed →
      (directories.foldl (fun tree names => tree.addDirectory names) tree).WellNamed from
    this empty (.directory (by simp) (by simp))
  intro tree htree
  induction directories generalizing tree with
  | nil => exact htree
  | cons names directories ih =>
    obtain ⟨hnames, hrest⟩ := List.forall_mem_cons.1 h
    exact ih hrest _ (htree.addDirectory hnames)

end Node

end EventFinder
