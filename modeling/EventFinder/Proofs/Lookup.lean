/-!
# Looking keys up

Lists of pairs serve as tables: the settings of a section under their keys and the entries of a
directory under their names. `List.lookup` finds the first pair with a key. Here is what the library
needs besides: a key is found unless it is missing among the keys
(`lookup_eq_none_iff_notMem_keys`), what is found stands in the list (`mem_of_lookup_eq_some`), and
where no key stands twice, what stands in the list is found (`lookup_eq_some_of_mem`).
-/

set_option autoImplicit false

namespace EventFinder

variable {κ α : Type} [BEq κ] [LawfulBEq κ] {key : κ} {value : α} {table : List (κ × α)}

/-- The first pair settles its own key and leaves all others to the rest of the table. -/
theorem lookup_cons_eq_ite [DecidableEq κ] (key other : κ) (value : α) (rest : List (κ × α)) :
    ((key, value) :: rest).lookup other =
      if other = key then some value else rest.lookup other := by
  rw [List.lookup_cons]
  split
  · rename_i h
    rw [if_pos (beq_iff_eq.1 h)]
  · rename_i h
    rw [if_neg (beq_eq_false_iff_ne.1 h)]

/-- Nothing is found exactly for what is no key of the table. -/
theorem lookup_eq_none_iff_notMem_keys : table.lookup key = none ↔ key ∉ table.map Prod.fst := by
  rw [List.lookup_eq_none_iff, List.mem_map]
  constructor
  · rintro h ⟨pair, hpair, rfl⟩
    simpa using h pair hpair
  · intro h pair hpair
    simpa using fun heq : key = pair.1 => h ⟨pair, hpair, heq.symm⟩

/-- What is found under a key stands in the table under that key. -/
theorem mem_of_lookup_eq_some (h : table.lookup key = some value) : (key, value) ∈ table := by
  obtain ⟨before, after, rfl, -⟩ := List.lookup_eq_some_iff.1 h
  exact List.mem_append_right _ List.mem_cons_self

/-- In a table without repeated keys every pair is found, as no pair in front has its key. -/
theorem lookup_eq_some_of_mem (hkeys : (table.map Prod.fst).Nodup) (h : (key, value) ∈ table) :
    table.lookup key = some value := by
  obtain ⟨before, after, rfl⟩ := List.append_of_mem h
  rw [List.map_append, List.map_cons, List.nodup_append] at hkeys
  refine List.lookup_eq_some_iff.2 ⟨before, after, rfl, fun pair hpair => ?_⟩
  have hne : pair.1 ≠ key := hkeys.2.2 _ (List.mem_map_of_mem hpair) _ List.mem_cons_self
  simpa using Ne.symm hne

end EventFinder
