import EventFinder.Proofs.Text.Splitting
import EventFinder.Proofs.Tree.Pruning

/-!
# Names and paths

A path that is walked from nowhere is its names with slashes between them (`Path.nil_below`), and
following it finds the names again (`Path.names_intercalate`), as long as they are names that a
directory can have (`IsName`). A location whose pieces between slashes are such names is a path as
it stands: walking along the names gives its bytes, and these have that location again.
-/

set_option autoImplicit false

namespace EventFinder

/-- A name that an entry of a directory can have. -/
structure IsName (name : Bytes) : Prop where
  ne_nil : name ≠ []
  slash_notMem : slash ∉ name
  ne_dot : name ≠ [dot]
  ne_dot_dot : name ≠ [dot, dot]

/-- All conditions are tested. -/
instance (name : Bytes) : Decidable (IsName name) :=
  decidable_of_iff (name ≠ [] ∧ slash ∉ name ∧ name ≠ [dot] ∧ name ≠ [dot, dot])
    ⟨fun ⟨hne, hslash, hdot, hdots⟩ => ⟨hne, hslash, hdot, hdots⟩,
      fun h => ⟨h.ne_nil, h.slash_notMem, h.ne_dot, h.ne_dot_dot⟩⟩

namespace Step

/-- The pieces that stand for names are those that an entry can have, apart from slashes. -/
theorem ofPiece?_eq_some_name_iff {piece name : Bytes} :
    ofPiece? piece = some (.name name) ↔
      piece = name ∧ name ≠ [] ∧ name ≠ [dot] ∧ name ≠ [dot, dot] := by
  unfold ofPiece?
  constructor
  · intro h
    split_ifs at h with hne hdot hdots
    · simp at h
    · simp at h
    · obtain rfl : piece = name := by injection Option.some.inj h
      exact ⟨rfl, hne, hdot, hdots⟩
  · rintro ⟨rfl, hne, hdot, hdots⟩
    rw [if_neg hne, if_neg hdot, if_neg hdots]

/-- A name between slashes is a step by this name. -/
theorem ofPiece?_of_isName {name : Bytes} (hname : IsName name) :
    ofPiece? name = some (.name name) :=
  ofPiece?_eq_some_name_iff.2 ⟨rfl, hname.ne_nil, hname.ne_dot, hname.ne_dot_dot⟩

end Step

namespace Path

/-- What ends with a name does not end with a slash. -/
theorem endsWithSlash_append (before : Path) {name : Bytes} (hname : IsName name) :
    endsWithSlash (before ++ name) = false := by
  rw [endsWithSlash, List.getLast?_append_of_ne_nil _ hname.ne_nil, beq_eq_false_iff_ne]
  exact fun h => hname.slash_notMem (List.mem_of_getLast? h)

/-- A path that ends with a name does not end with a slash. -/
theorem endsWithSlash_join {directory : Path} {name : Bytes} (hname : IsName name) :
    (directory.join name).endsWithSlash = false := by
  unfold join
  split_ifs
  · exact endsWithSlash_append directory hname
  · rw [← List.singleton_append, ← List.append_assoc]
    exact endsWithSlash_append _ hname

/-- A path that does not end with a slash is continued by one. -/
theorem below_of_not_endsWithSlash {directory : Path} (hne : directory ≠ [])
    (hslash : directory.endsWithSlash = false) {names : List Bytes}
    (hnames : ∀ name ∈ names, IsName name) :
    directory.below names = [slash].intercalate (directory :: names) := by
  induction names generalizing directory with
  | nil => exact List.intercalate_singleton.symm
  | cons name names ih =>
    have hname : IsName name := hnames name List.mem_cons_self
    have hjoin : directory.join name = directory ++ slash :: name := by
      simp [join, hne, hslash]
    have hrest : ∀ other ∈ names, IsName other := fun other h =>
      hnames other (List.mem_cons_of_mem _ h)
    rw [below_cons, ih (by simp [hjoin]) (endsWithSlash_join hname) hrest, hjoin]
    cases names <;> simp

/-- From nowhere, names lead along the path of these names. -/
theorem nil_below {names : List Bytes} (hnames : ∀ name ∈ names, IsName name) :
    below [] names = [slash].intercalate names := by
  cases names with
  | nil => rfl
  | cons name names =>
    have hname : IsName name := hnames name List.mem_cons_self
    exact below_of_not_endsWithSlash hname.ne_nil (endsWithSlash_append [] hname)
      fun other h => hnames other (List.mem_cons_of_mem _ h)

/-- The names of a path are those pieces between slashes that lead to an entry. -/
theorem names_eq_filterMap (path : Path) :
    path.names =
      (path.splitOn slash).filterMap fun piece => (Step.ofPiece? piece).bind Step.name? := by
  rw [names, steps, List.filterMap_append, List.filterMap_filterMap]
  split <;> simp [Step.name?]

/-- The names that a path was joined from are found again. -/
theorem names_intercalate {names : List Bytes} (hne : names ≠ [])
    (hnames : ∀ name ∈ names, IsName name) : Path.names ([slash].intercalate names) = names := by
  rw [names_eq_filterMap,
    List.splitOn_intercalate slash (fun name h => (hnames name h).slash_notMem) hne]
  refine (List.filterMap_congr fun name h => ?_).trans List.filterMap_some
  rw [Step.ofPiece?_of_isName (hnames name h)]
  rfl

/-- The names of a path are those that it was made of. -/
theorem names_nil_below {names : List Bytes} (hne : names ≠ [])
    (hnames : ∀ name ∈ names, IsName name) : (below [] names).names = names := by
  rw [nil_below hnames, names_intercalate hne hnames]

end Path

/-! ## Locations as paths -/

/-- The names that a location stands for as a path. -/
def locationNames (location : Text) : List Bytes :=
  (location.splitOn '/').map Text.toBytes

/-- The location is a path of names that directories can have. -/
def IsPathOfNames (location : Text) : Prop :=
  ∀ piece ∈ location.splitOn '/', piece ≠ [] ∧ piece ≠ ['.'] ∧ piece ≠ ['.', '.']

/-- All pieces are tested. -/
instance (location : Text) : Decidable (IsPathOfNames location) :=
  inferInstanceAs (Decidable (∀ piece ∈ location.splitOn '/', _))

section LocationNames

variable {location : Text}

/-- A location has one name at least. -/
theorem locationNames_ne_nil (location : Text) : locationNames location ≠ [] := by
  simp [locationNames]

/-- A location has one name more than slashes. -/
theorem length_locationNames (location : Text) :
    (locationNames location).length = location.count '/' + 1 := by
  rw [locationNames, List.length_map, length_splitOn]

/-- The names of a path of names can stand in directories. -/
theorem IsPathOfNames.isName (h : IsPathOfNames location) :
    ∀ name ∈ locationNames location, IsName name := by
  intro name hname
  obtain ⟨piece, hpiece, rfl⟩ := List.mem_map.1 hname
  obtain ⟨hne, hdot, hdots⟩ := h piece hpiece
  exact ⟨fun heq => hne (Bytes.toBytes_injective (heq.trans rfl)),
    Bytes.slash_notMem_toBytes (notMem_of_mem_splitOn hpiece),
    fun heq => hdot (Bytes.toBytes_injective (heq.trans rfl)),
    fun heq => hdots (Bytes.toBytes_injective (heq.trans rfl))⟩

/-- The names of a location make up its bytes. -/
theorem intercalate_locationNames (location : Text) :
    [slash].intercalate (locationNames location) = location.toBytes := by
  have hbytes := Text.intercalate_map_toBytes ['/'] (location.splitOn '/')
  rwa [List.intercalate_splitOn] at hbytes

/-- Locations with the same names are the same. -/
theorem locationNames_injective : Function.Injective locationNames := by
  intro first second h
  apply Bytes.toBytes_injective
  rw [← intercalate_locationNames, ← intercalate_locationNames, h]

/-- From nowhere, the names of a location lead along its bytes. -/
theorem IsPathOfNames.nil_below (h : IsPathOfNames location) :
    Path.below [] (locationNames location) = location.toBytes := by
  rw [Path.nil_below h.isName, intercalate_locationNames]

/-- The bytes of a location are a path with its names. -/
theorem IsPathOfNames.names_toBytes (h : IsPathOfNames location) :
    Path.names location.toBytes = locationNames location := by
  rw [← intercalate_locationNames, Path.names_intercalate (locationNames_ne_nil location) h.isName]

/-- A path that was written as the bytes of a location has that location. -/
theorem IsPathOfNames.location_toBytes (h : IsPathOfNames location) :
    Path.location location.toBytes = location := by
  have hdecode : Bytes.toText ∘ Text.toBytes = id := funext Bytes.toText_toBytes
  rw [Path.location, h.names_toBytes, locationNames, List.map_map, hdecode, List.map_id,
    List.intercalate_splitOn]

end LocationNames

end EventFinder
