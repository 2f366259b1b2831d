import Mathlib.Data.String.Basic
import SelfPlay.Options.Dict

/-!
# Setting and finding options

An option that is set is found with its value, and all others as before. Setting many is one
dictionary laid over another: what the upper one holds is found there, all else below.
-/

namespace SelfPlay

namespace OptionsDict

variable {dict : OptionsDict} {name : String}

/-- No name is entered twice, and each stands where it is looked for. -/
def IsAscending (dict : OptionsDict) : Prop :=
  dict.entries.Pairwise fun entry other => entry.1 < other.1

instance (dict : OptionsDict) : Decidable dict.IsAscending :=
  inferInstanceAs (Decidable (List.Pairwise _ _))

theorem isAscending_empty : empty.IsAscending := List.Pairwise.nil

theorem IsAscending.nodup (h : dict.IsAscending) : (dict.entries.map (·.1)).Nodup := by
  rw [List.Nodup, List.pairwise_map]
  exact h.imp fun hlt => ne_of_lt hlt

/-! ## One option -/

theorem find?_mk_cons (entry : String × String) (rest : List (String × String)) (name : String) :
    find? ⟨entry :: rest⟩ name = if entry.1 = name then some entry.2 else find? ⟨rest⟩ name := by
  unfold find?
  rw [List.find?_cons]
  by_cases h : entry.1 = name
  · rw [decide_eq_true h, if_pos h]
    rfl
  · rw [decide_eq_false h, if_neg h]

theorem find?_insertSorted (entries : List (String × String)) (name value other : String) :
    find? ⟨insertSorted name value entries⟩ other =
      if name = other then some value else find? ⟨entries⟩ other := by
  induction entries with
  | nil => exact find?_mk_cons ..
  | cons entry rest ih =>
    rw [insertSorted]
    split
    · exact find?_mk_cons ..
    · split
      · rename_i hname
        rw [find?_mk_cons, find?_mk_cons, ← hname]
        split <;> rfl
      · rename_i hname
        rw [find?_mk_cons, find?_mk_cons, ih]
        by_cases hentry : entry.1 = other
        · rw [if_pos hentry, if_pos hentry, if_neg (fun h => hname (h.trans hentry.symm))]
        · rw [if_neg hentry, if_neg hentry]

/-- What is set is found, and nothing else changes. -/
theorem find?_set (dict : OptionsDict) (name value other : String) :
    (dict.set name value).find? other = if name = other then some value else dict.find? other :=
  find?_insertSorted ..

theorem mem_insertSorted {entries : List (String × String)} {value : String}
    {entry : String × String} (h : entry ∈ insertSorted name value entries) :
    entry = (name, value) ∨ entry ∈ entries := by
  induction entries with
  | nil => exact .inl (List.mem_singleton.mp h)
  | cons first rest ih =>
    rw [insertSorted] at h
    split at h
    · exact List.mem_cons.mp h
    · split at h
      · exact (List.mem_cons.mp h).imp_right (List.mem_cons_of_mem _)
      · rcases List.mem_cons.mp h with rfl | hrest
        · exact .inr List.mem_cons_self
        · exact (ih hrest).imp_right (List.mem_cons_of_mem _)

theorem IsAscending.set (h : dict.IsAscending) (name value : String) :
    (dict.set name value).IsAscending := by
  obtain ⟨entries⟩ := dict
  unfold IsAscending OptionsDict.set at *
  simp only at *
  induction entries with
  | nil => exact List.pairwise_singleton ..
  | cons entry rest ih =>
    obtain ⟨hfirst, hrest⟩ := List.pairwise_cons.mp h
    rw [insertSorted]
    split
    · rename_i hlt
      refine List.pairwise_cons.mpr ⟨fun other hother => ?_, h⟩
      rcases List.mem_cons.mp hother with rfl | hmem
      · exact hlt
      · exact String.lt_trans hlt (hfirst other hmem)
    · split
      · rename_i hname
        exact List.pairwise_cons.mpr ⟨fun other hmem => hname ▸ hfirst other hmem, hrest⟩
      · rename_i hnlt hname
        refine List.pairwise_cons.mpr ⟨fun other hother => ?_, ih hrest⟩
        rcases mem_insertSorted hother with rfl | hmem
        · exact lt_of_le_of_ne (not_lt.mp hnlt) (Ne.symm hname)
        · exact hfirst other hmem

/-! ## Many options -/

theorem IsAscending.setAll (h : dict.IsAscending) (entries : List (String × String)) :
    (dict.setAll entries).IsAscending := by
  unfold OptionsDict.setAll
  induction entries generalizing dict with
  | nil => exact h
  | cons entry rest ih => exact ih (h.set entry.1 entry.2)

theorem find?_eq_none_of_not_mem {entries : List (String × String)}
    (h : name ∉ entries.map (·.1)) : find? ⟨entries⟩ name = none := by
  unfold find?
  rw [List.find?_eq_none.mpr, Option.map_none]
  intro entry hentry
  rw [decide_eq_true_eq]
  rintro rfl
  exact h (List.mem_map_of_mem hentry)

theorem find?_of_mem {entries : List (String × String)} (distinct : (entries.map (·.1)).Nodup)
    {entry : String × String} (h : entry ∈ entries) : find? ⟨entries⟩ entry.1 = some entry.2 := by
  induction entries with
  | nil => cases h
  | cons first rest ih =>
    obtain ⟨hfresh, hrest⟩ := List.nodup_cons.mp distinct
    rw [find?_mk_cons]
    rcases List.mem_cons.mp h with rfl | hmem
    · rw [if_pos rfl]
    · have hne : first.1 ≠ entry.1 := fun heq =>
        hfresh (List.mem_map.mpr ⟨entry, hmem, heq.symm⟩)
      rw [if_neg hne, ih hrest hmem]

/-- Options are laid over those there are. -/
theorem find?_setAll (dict : OptionsDict) {entries : List (String × String)}
    (distinct : (entries.map (·.1)).Nodup) (name : String) :
    (dict.setAll entries).find? name = (find? ⟨entries⟩ name).or (dict.find? name) := by
  unfold setAll
  induction entries generalizing dict with
  | nil => rfl
  | cons entry rest ih =>
    obtain ⟨hfresh, hrest⟩ := List.nodup_cons.mp distinct
    rw [List.foldl_cons, ih _ hrest, find?_mk_cons, find?_set]
    by_cases hname : entry.1 = name
    · subst hname
      rw [find?_eq_none_of_not_mem hfresh, if_pos rfl, if_pos rfl]
      rfl
    · rw [if_neg hname, if_neg hname]

/-! ## Reading -/

theorem readOr_eq_ok {α : Type} {parse : List Char → Option α} {raw : String} {value : α}
    (hraw : dict.find? name = some raw) (hparse : parse (Text.trim raw.toList) = some value)
    (default : α) : dict.readOr parse name default = .ok value := by
  unfold readOr read?
  simp only [hraw, hparse]
  rfl

end OptionsDict

end SelfPlay
