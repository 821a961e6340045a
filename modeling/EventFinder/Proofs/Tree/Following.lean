import EventFinder.Proofs.Tree.WellNamed

/-!
# Following paths

Where a path leads is a node of the tree, which the names of the place lead to (`at?_of_follow`).
Steps behind a path that leads to a directory are followed from there (`follow_append_eq`), so the
path of an entry leads on to that entry (`FileSystem.resolve_join`), and is no link if the entry is
none. If the entry is a link, its path leads to where the link does
(`FileSystem.resolve_join_of_link`), with fewer links left (`linksLeft_lt_of_followLink`).
-/

set_option autoImplicit false

namespace EventFinder

/-! ## Steps -/

namespace Path

/-- The steps that the pieces between the slashes of a path stand for. -/
def pieceSteps (path : Path) : List Step :=
  (path.splitOn slash).filterMap Step.ofPiece?

/-- At its end a path may ask to stay where it leads, and for nothing else. -/
theorem exists_steps_eq (path : Path) :
    ∃ trailing, path.steps = path.pieceSteps ++ trailing ∧ ∀ step ∈ trailing, step = .here := by
  refine ⟨_, rfl, ?_⟩
  split <;> simp

/-- The steps of a path go by names that entries can have. -/
theorem isName_of_mem_steps {path : Path} {name : Bytes} (h : Step.name name ∈ path.steps) :
    IsName name := by
  obtain ⟨trailing, hsteps, htrailing⟩ := path.exists_steps_eq
  rw [hsteps] at h
  obtain h | h := List.mem_append.1 h
  · obtain ⟨piece, hpiece, hname⟩ := List.mem_filterMap.1 h
    have hslash : slash ∉ piece := notMem_of_mem_splitOn hpiece
    obtain ⟨rfl, hne, hdot, hdots⟩ := Step.ofPiece?_eq_some_name_iff.1 hname
    exact ⟨hne, hslash, hdot, hdots⟩
  · cases htrailing _ h

/-- The last name of a path is one that an entry can have. -/
theorem isName_of_fileName? {path : Path} {name : Bytes} (h : path.fileName? = some name) :
    IsName name := by
  unfold fileName? at h
  split at h
  · rename_i last hlast
    cases h
    exact isName_of_mem_steps (List.mem_of_mem_filter (List.mem_of_getLast? hlast))
  · cases h

section Join

variable {directory : Path} {name : Bytes}

/-- The pieces of an entry's path lead to its directory and then to its name. -/
theorem pieceSteps_join (hdirectory : directory ≠ []) (hname : IsName name) :
    (directory.join name).pieceSteps = directory.pieceSteps ++ [.name name] := by
  have hpieces : name.splitOn slash = [name] := List.splitOn_eq_singleton hname.slash_notMem
  have hlast : [name].filterMap Step.ofPiece? = [.name name] := by
    simp [Step.ofPiece?_of_isName hname]
  unfold join
  split_ifs with h
  · obtain ⟨before, rfl⟩ := List.getLast?_eq_some_iff.1 (eq_of_beq (h.resolve_left hdirectory))
    have hempty : (([] : Path).splitOn slash).filterMap Step.ofPiece? = [] := rfl
    rw [pieceSteps, pieceSteps, List.append_assoc, List.singleton_append,
      List.splitOn_append_cons_self, List.splitOn_append_cons_self, hpieces,
      List.filterMap_append, List.filterMap_append, hlast, hempty,
      List.append_nil]
  · rw [pieceSteps, pieceSteps, List.splitOn_append_cons_self, hpieces, List.filterMap_append,
      hlast]

/-- A name that is joined to a path is one step more. -/
theorem steps_join (hdirectory : directory ≠ []) (hname : IsName name) :
    (directory.join name).steps = directory.pieceSteps ++ [.name name] := by
  have hsteps : (directory.join name).steps = (directory.join name).pieceSteps ++
      if (directory.join name).endsWithSlash then [.here] else [] := rfl
  rw [hsteps, endsWithSlash_join hname, pieceSteps_join hdirectory hname]
  exact List.append_nil _

/-- A path starts where it starts, whatever is joined to it. -/
theorem isAbsolute_join (hdirectory : directory ≠ []) :
    (directory.join name).isAbsolute = directory.isAbsolute := by
  obtain ⟨b, directory, rfl⟩ := List.exists_cons_of_ne_nil hdirectory
  unfold join
  split_ifs <;> rfl

/-- The last name of a path is the one that was joined to it. -/
theorem fileName?_join (hdirectory : directory ≠ []) (hname : IsName name) :
    (directory.join name).fileName? = some name := by
  rw [fileName?, steps_join hdirectory hname, List.filter_append]
  simp

end Join

end Path

/-! ## Places -/

section Follow

variable {top : Node} {linksLeft : Nat}
  {viaLink : List Bytes → List Step → Except LookupError Place} {names : List Bytes}
  {steps trailing : List Step} {place : Place}

/-- Steps lead to what stands at the names of the place, if the ways through links do. -/
theorem at?_of_followWith (hvia : ∀ names steps place, viaLink names steps = .ok place →
    top.at? place.names = some place.node)
    (h : followWith top linksLeft viaLink names steps = .ok place) :
    top.at? place.names = some place.node := by
  fun_induction followWith top linksLeft viaLink names steps with
  | case1 names node hnode =>
    cases h
    exact hnode
  | case2 => cases h
  | case3 names rest ih => exact ih h
  | case4 names rest ih => exact ih h
  | case5 => cases h
  | case6 => cases h
  | case7 => exact hvia _ _ _ h
  | case8 names name rest hlength content hfile hlast =>
    cases h
    exact hfile
  | case9 => cases h
  | case10 names name rest hlength entries hdirectory ih => exact ih h

/-- The names of the place that a path leads to lead to its node. -/
theorem at?_of_follow (h : follow top linksLeft names steps = .ok place) :
    top.at? place.names = some place.node := by
  induction linksLeft generalizing names steps place with
  | zero =>
    refine at?_of_followWith ?_ h
    rintro names steps place ⟨⟩
  | succ linksLeft ih => exact at?_of_followWith (fun names steps place => ih) h

/-- Steps that stay in place lead nowhere else. -/
theorem followWith_of_here (htrailing : ∀ step ∈ trailing, step = .here) :
    followWith top linksLeft viaLink names trailing =
      followWith top linksLeft viaLink names [] := by
  induction trailing with
  | nil => rfl
  | cons step trailing ih =>
    obtain ⟨rfl, hrest⟩ := List.forall_mem_cons.1 htrailing
    exact ih hrest

/-- Steps that stay in place lead to what stands there. -/
theorem follow_of_here {node : Node} (hnode : top.at? names = some node)
    (hsteps : ∀ step ∈ steps, step = .here) :
    follow top linksLeft names steps = .ok ⟨names, node, linksLeft⟩ := by
  cases linksLeft <;> rw [follow, followWith_of_here hsteps, followWith, hnode]

/-- What a path leads to that stays where it is at its end, it leads to without that as well. -/
theorem followWith_of_append (htrailing : ∀ step ∈ trailing, step = .here)
    (hvia : ∀ names steps, viaLink names (steps ++ trailing) = .ok place →
      viaLink names steps = .ok place)
    (h : followWith top linksLeft viaLink names (steps ++ trailing) = .ok place) :
    followWith top linksLeft viaLink names steps = .ok place := by
  induction steps generalizing names with
  | nil => rwa [List.nil_append, followWith_of_here htrailing] at h
  | cons step steps ih =>
    cases step with
    | here => exact ih h
    | up => exact ih h
    | name name =>
      rw [List.cons_append, followWith] at h
      rw [followWith]
      by_cases hlength : maxNameBytes < name.length
      · rw [if_pos hlength] at h
        cases h
      rw [if_neg hlength] at h ⊢
      cases hfound : top.at? (names ++ [name]) with
      | none =>
        rw [hfound] at h
        cases h
      | some found =>
        rw [hfound] at h
        cases found with
        | file content =>
          by_cases hlast : (steps ++ trailing).isEmpty = true
          · obtain ⟨rfl, rfl⟩ := List.append_eq_nil_iff.1 (List.isEmpty_iff.1 hlast)
            exact h
          · simp [hlast] at h
        | link target =>
          apply hvia
          rwa [List.append_assoc]
        | directory entries => exact ih h

/-- Staying at the end of a path changes nothing. -/
theorem follow_of_append (htrailing : ∀ step ∈ trailing, step = .here)
    (h : follow top linksLeft names (steps ++ trailing) = .ok place) :
    follow top linksLeft names steps = .ok place := by
  induction linksLeft generalizing names steps with
  | zero =>
    refine followWith_of_append htrailing ?_ h
    rintro names steps ⟨⟩
  | succ linksLeft ih => exact followWith_of_append htrailing (fun names steps => ih) h

/-- Steps behind a path that leads to a directory go on from there. -/
theorem followWith_append_eq {more : List Step} {entries : List (Bytes × Node)}
    (hplace : place.node = .directory entries)
    (hsame : ∀ names, followWith top linksLeft viaLink names more = follow top linksLeft names more)
    (hvia : ∀ names steps, viaLink names steps = .ok place →
      viaLink names (steps ++ more) = follow top place.linksLeft place.names more)
    (h : followWith top linksLeft viaLink names steps = .ok place) :
    followWith top linksLeft viaLink names (steps ++ more) =
      follow top place.linksLeft place.names more := by
  fun_induction followWith top linksLeft viaLink names steps with
  | case1 names node hnode =>
    cases h
    exact hsame names
  | case2 => cases h
  | case3 names rest ih => exact ih h
  | case4 names rest ih => exact ih h
  | case5 => cases h
  | case6 => cases h
  | case7 names name rest hlength target hlink =>
    rw [List.cons_append, followWith, if_neg hlength, hlink, ← hvia _ _ h, List.append_assoc]
  | case8 names name rest hlength content hfile hlast =>
    cases h
    cases hplace
  | case9 => cases h
  | case10 names name rest hlength entries hdirectory ih =>
    rw [List.cons_append, followWith, if_neg hlength, hdirectory]
    exact ih h

/-- Steps that lead to a directory can be followed before the rest. -/
theorem follow_append_eq {more : List Step} {entries : List (Bytes × Node)}
    (hplace : place.node = .directory entries) (h : follow top linksLeft names steps = .ok place) :
    follow top linksLeft names (steps ++ more) = follow top place.linksLeft place.names more := by
  induction linksLeft generalizing names steps with
  | zero =>
    refine followWith_append_eq hplace (fun _ => rfl) ?_ h
    rintro names steps ⟨⟩
  | succ linksLeft ih =>
    exact followWith_append_eq hplace (fun _ => rfl) (fun names steps => ih) h

/-- A name leads to the directory that it is the name of, unless it is too long. -/
theorem follow_name {entries below : List (Bytes × Node)} {name : Bytes}
    (hnames : top.at? names = some (.directory entries))
    (hentry : entries.lookup name = some (.directory below)) :
    follow top linksLeft names [.name name] =
      if maxNameBytes < name.length then .error .nameTooLong
      else .ok ⟨names ++ [name], .directory below, linksLeft⟩ := by
  have hfound : top.at? (names ++ [name]) = some (.directory below) := by
    rw [Node.at?_append, hnames]
    simp [Node.at?, hentry]
  cases linksLeft <;> simp only [follow, followWith, hfound]

/-- A name leads through the link that it is the name of. -/
theorem follow_name_of_link {entries : List (Bytes × Node)} {name : Bytes} {target : Path}
    (hnames : top.at? names = some (.directory entries))
    (hentry : entries.lookup name = some (.link target)) (hname : name.length ≤ maxNameBytes) :
    follow top linksLeft names [.name name] = followLink top linksLeft names target := by
  have hfound : top.at? (names ++ [name]) = some (.link target) := by
    rw [Node.at?_append, hnames]
    simp [Node.at?, hentry]
  cases linksLeft with
  | zero => simp only [follow, followWith, if_neg (Nat.not_lt.2 hname), hfound, followLink]
  | succ linksLeft =>
    simp only [follow, followWith, if_neg (Nat.not_lt.2 hname), hfound, followLink,
      List.append_nil]

/-- Steps leave no more links than there were, if the ways through links do not. -/
theorem linksLeft_le_of_followWith {bound : Nat} (hbound : linksLeft ≤ bound)
    (hvia : ∀ names steps place, viaLink names steps = .ok place → place.linksLeft ≤ bound)
    (h : followWith top linksLeft viaLink names steps = .ok place) : place.linksLeft ≤ bound := by
  fun_induction followWith top linksLeft viaLink names steps with
  | case1 names node hnode =>
    cases h
    exact hbound
  | case2 => cases h
  | case3 names rest ih => exact ih h
  | case4 names rest ih => exact ih h
  | case5 => cases h
  | case6 => cases h
  | case7 => exact hvia _ _ _ h
  | case8 names name rest hlength content hfile hlast =>
    cases h
    exact hbound
  | case9 => cases h
  | case10 names name rest hlength entries hdirectory ih => exact ih h

/-- Following a path leaves no more links than there were. -/
theorem linksLeft_le_of_follow (h : follow top linksLeft names steps = .ok place) :
    place.linksLeft ≤ linksLeft := by
  induction linksLeft generalizing names steps place with
  | zero =>
    refine linksLeft_le_of_followWith le_rfl ?_ h
    rintro names steps place ⟨⟩
  | succ linksLeft ih =>
    exact linksLeft_le_of_followWith le_rfl (fun names steps place h => (ih h).trans (by omega)) h

/-- Following a link leaves fewer links. -/
theorem linksLeft_lt_of_followLink {target : Path}
    (h : followLink top linksLeft names target = .ok place) : place.linksLeft < linksLeft := by
  cases linksLeft with
  | zero => cases h
  | succ linksLeft => exact Nat.lt_succ_of_le (linksLeft_le_of_follow h)

end Follow

/-! ## Paths of entries -/

namespace FileSystem

section Join

variable {files : FileSystem} {root : Path} {place : Place} {entries below : List (Bytes × Node)}
  {name : Bytes}

/-- A path is followed from the same place, whatever is joined to it. -/
theorem startOf_join (hroot : root ≠ []) : files.startOf (root.join name) = files.startOf root := by
  rw [startOf, startOf, Path.isAbsolute_join hroot]

/-- A path leads where the pieces between its slashes lead. -/
theorem follow_of_resolve (h : files.resolve root = .ok place) :
    root ≠ [] ∧ follow files.top maxLinks (files.startOf root) root.pieceSteps = .ok place := by
  unfold resolve at h
  split_ifs at h with hempty hlong
  obtain ⟨trailing, hsteps, htrailing⟩ := root.exists_steps_eq
  rw [hsteps] at h
  exact ⟨hempty, follow_of_append htrailing h⟩

/-- The path of an entry is followed by going to its name from where the directory is. -/
theorem resolve_join_eq (hroot : files.resolve root = .ok place)
    (hplace : place.node = .directory entries) (hname : IsName name) :
    files.resolve (root.join name) =
      if maxPathBytes < (root.join name).length then .error .nameTooLong
      else follow files.top place.linksLeft place.names [.name name] := by
  obtain ⟨hne, hfollow⟩ := follow_of_resolve hroot
  have hjoin : root.join name ≠ [] := by
    intro h
    have := Path.fileName?_join hne hname
    rw [h] at this
    cases this
  rw [resolve, if_neg hjoin, Path.steps_join hne hname, startOf_join hne,
    follow_append_eq hplace hfollow]

/-- A path leads to what stands at the names of the place. -/
theorem at?_of_resolve (hroot : files.resolve root = .ok place) :
    files.top.at? place.names = some place.node :=
  at?_of_follow (follow_of_resolve hroot).2

/-- The path of an entry that is a directory leads to it, if neither the path nor the name is too
long. -/
theorem resolve_join (hroot : files.resolve root = .ok place)
    (hplace : place.node = .directory entries) (hname : IsName name)
    (hentry : entries.lookup name = some (.directory below)) :
    files.resolve (root.join name) =
      if maxPathBytes < (root.join name).length ∨ maxNameBytes < name.length then
        .error .nameTooLong
      else .ok ⟨place.names ++ [name], .directory below, place.linksLeft⟩ := by
  have hnames : files.top.at? place.names = some (.directory entries) := by
    rw [at?_of_resolve hroot, hplace]
  rw [resolve_join_eq hroot hplace hname, follow_name hnames hentry]
  by_cases hlong : maxPathBytes < (root.join name).length <;> simp [hlong]

/-- The path of an entry that is a link leads to where the link does, if the path is not too long.
-/
theorem resolve_join_of_link {target : Path} (hroot : files.resolve root = .ok place)
    (hplace : place.node = .directory entries) (hname : IsName name)
    (hlength : name.length ≤ maxNameBytes)
    (hentry : entries.lookup name = some (.link target)) :
    files.resolve (root.join name) =
      if maxPathBytes < (root.join name).length then .error .nameTooLong
      else followLink files.top place.linksLeft place.names target := by
  have hnames : files.top.at? place.names = some (.directory entries) := by
    rw [at?_of_resolve hroot, hplace]
  rw [resolve_join_eq hroot hplace hname, follow_name_of_link hnames hentry hlength]

/-- A directory that is reached by its name is no link. -/
theorem isLink_join (hroot : files.resolve root = .ok place)
    (hplace : place.node = .directory entries) (hname : IsName name)
    (hentry : entries.lookup name = some (.directory below)) :
    files.isLink (root.join name) = false := by
  obtain ⟨hne, hfollow⟩ := follow_of_resolve hroot
  have hfound : files.top.at? (place.names ++ [name]) = some (.directory below) := by
    rw [Node.at?_append, at?_of_follow hfollow, hplace]
    simp [Node.at?, hentry]
  simp [isLink, Path.steps_join hne hname, startOf_join hne, hfollow, hfound]

/-- The name of a directory that is reached by its name is this name. -/
theorem directoryName_join (hroot : root ≠ []) (hname : IsName name) (place : Place) :
    directoryName (root.join name) place = name := by
  rw [directoryName, Path.fileName?_join hroot hname]
  rfl

end Join

end FileSystem

end EventFinder
