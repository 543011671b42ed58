import Mathlib.Data.List.AList
import Mathlib.Data.Finset.Card

/-!
# Counting what a dictionary holds

A dictionary is an association list without repeated keys. How many entries it has, and how many of them are `true`, is
the size of any finite set that has the same members.
-/

namespace Dict

variable {α : Type*} {β γ : Type*} [DecidableEq α]

theorem length_entries {d : AList fun _ : α => β} {s : Finset α} (h : ∀ a, a ∈ d ↔ a ∈ s) :
    d.entries.length = s.card := by
  have hkeys : d.keys.toFinset = s := Finset.ext fun a => by rw [List.mem_toFinset, ← h a, AList.mem_keys]
  rw [← hkeys, List.toFinset_card_of_nodup d.keys_nodup]
  exact (List.length_map Sigma.fst).symm

/-- The sum of the values, each of them `0` or `1`. -/
theorem countP_entries {d : AList fun _ : α => Bool} {s : Finset α} (h : ∀ a, d.lookup a = some true ↔ a ∈ s) :
    d.entries.countP (·.2) = s.card := by
  have hnodup : ((d.entries.filter (·.2)).map Sigma.fst).Nodup :=
    d.keys_nodup.sublist (List.filter_sublist.map Sigma.fst)
  have hset : ((d.entries.filter (·.2)).map Sigma.fst).toFinset = s := by
    ext a
    rw [List.mem_toFinset, ← h a]
    constructor
    · intro ha
      obtain ⟨⟨b, v⟩, he, rfl⟩ := List.mem_map.1 ha
      obtain ⟨he, hv⟩ := List.mem_filter.1 he
      cases hv
      exact AList.mem_lookup_iff.2 he
    · intro ha
      exact List.mem_map.2 ⟨⟨a, true⟩, List.mem_filter.2 ⟨AList.mem_lookup_iff.1 ha, rfl⟩, rfl⟩
  rw [← hset, List.toFinset_card_of_nodup hnodup, List.length_map, List.countP_eq_length_filter]

/-- Looking a key up in a list of pairs made from the entries. -/
theorem lookup_map_entries [BEq α] [LawfulBEq α] (g : β → γ) (d : AList fun _ : α => β) (a : α) :
    (d.entries.map fun e => (e.1, g e.2)).lookup a = (d.lookup a).map g := by
  rw [AList.lookup]
  induction d.entries with
  | nil => rfl
  | cons e es ih =>
    obtain ⟨b, v⟩ := e
    rw [List.map_cons, List.lookup_cons]
    by_cases hab : a = b
    · subst hab
      simp
    · simp [beq_false_of_ne hab, ih, List.dlookup_cons_ne, hab]

end Dict
