/-!
# Splitting and joining

What the library needs to know about splitting a list at a separator, beyond the lemmas that
`List.splitOn` comes with: there is one piece more than there are separators (`length_splitOn`), no
piece holds the separator (`notMem_of_mem_splitOn`), and joined pieces are found again also where
the separator that they are joined with goes on behind the element that the list is split at
(`splitOn_intercalate_cons`).
-/

set_option autoImplicit false

namespace EventFinder

variable {α : Type} [BEq α] {separator : α}

/-- There is one piece more than there are separators. -/
theorem length_splitOn (xs : List α) :
    (xs.splitOn separator).length = xs.count separator + 1 := by
  induction xs with
  | nil => simp
  | cons x xs ih =>
    rw [List.splitOn_cons_eq_if_modifyHead, List.count_cons]
    split <;> simp [ih]

variable [LawfulBEq α]

/-- Every separator ends a piece, so none stands inside one. -/
theorem notMem_of_mem_splitOn {xs piece : List α} (h : piece ∈ xs.splitOn separator) :
    separator ∉ piece := by
  induction xs generalizing piece with
  | nil => simp_all
  | cons x xs ih =>
    obtain ⟨first, rest, hpieces⟩ := List.exists_cons_of_ne_nil (List.splitOn_ne_nil separator xs)
    rw [List.splitOn_cons_eq_if_modifyHead] at h
    split at h
    · rcases List.mem_cons.1 h with rfl | h
      · simp
      · exact ih h
    · rename_i hx
      rw [hpieces, List.modifyHead_cons] at h
      rcases List.mem_cons.1 h with rfl | h
      · simp only [List.mem_cons, not_or]
        exact ⟨fun heq => hx (by simp [heq]), ih (by simp [hpieces])⟩
      · exact ih (by simp [hpieces, h])

/-- Splitting finds joined pieces again, also where the separator that they are joined with goes on
behind the element that the list is split at. -/
theorem splitOn_intercalate_cons (more : List α) {first : List α} {rest : List (List α)}
    (hmore : separator ∉ more) (hfirst : separator ∉ first)
    (hrest : ∀ part ∈ rest, separator ∉ part) :
    ((separator :: more).intercalate (first :: rest)).splitOn separator =
      first :: rest.map (more ++ ·) := by
  induction rest generalizing first with
  | nil => simpa using List.splitOn_eq_singleton hfirst
  | cons next rest ih =>
    have hnext : separator ∉ more ++ next := by simpa [hmore] using hrest next (by simp)
    -- The rest of the separator counts as the beginning of the next piece.
    have hjoined : (separator :: more).intercalate (first :: next :: rest) =
        first ++ separator :: (separator :: more).intercalate ((more ++ next) :: rest) := by
      cases rest <;> simp
    rw [hjoined, List.splitOn_append_cons_self_of_not_mem hfirst,
      ih hnext fun part hpart => hrest part (List.mem_cons_of_mem _ hpart)]
    rfl

end EventFinder
