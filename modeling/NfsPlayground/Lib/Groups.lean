import Mathlib.Data.List.Sort
import Mathlib.Data.List.Perm.Basic
import Mathlib.Data.List.Perm.Subperm
import Mathlib.Data.List.Nodup

/-!
# Grouping by a key

`groupBy` collects the values of a list of pairs under their keys, the keys in the order they first come up; nothing
is lost and nothing comes twice (`perm_groupBy`). `fill` breaks a list of words into lines of a width.
-/

namespace Groups

open scoped List

variable {κ α : Type*} [DecidableEq κ]

/-- `d[key].append(value)` on a dictionary whose entries begin as empty lists. -/
def add (key : κ) (value : α) : List (κ × List α) → List (κ × List α)
  | [] => [(key, [value])]
  | (k, vs) :: gs => if k = key then (k, vs ++ [value]) :: gs else (k, vs) :: add key value gs

def groupBy (l : List (α × κ)) : List (κ × List α) := l.foldl (fun gs x => add x.2 x.1 gs) []

theorem perm_add (key : κ) (value : α) : ∀ gs : List (κ × List α),
    (add key value gs).flatMap Prod.snd ~ value :: gs.flatMap Prod.snd
  | [] => .refl _
  | (k, vs) :: gs => by
    rw [add]
    split
    · rw [List.flatMap_cons, List.flatMap_cons, List.append_assoc]
      exact List.perm_middle
    · rw [List.flatMap_cons, List.flatMap_cons]
      exact ((perm_add key value gs).append_left vs).trans List.perm_middle

/-- The groups hold the values of the list, each as often as the list does. -/
theorem perm_groupBy (l : List (α × κ)) : (groupBy l).flatMap Prod.snd ~ l.map Prod.fst := by
  have hfold : ∀ (l : List (α × κ)) (gs : List (κ × List α)),
      (l.foldl (fun gs x => add x.2 x.1 gs) gs).flatMap Prod.snd ~ l.map Prod.fst ++ gs.flatMap Prod.snd := by
    intro l
    induction l with
    | nil => exact fun gs => .refl _
    | cons x l ih =>
      intro gs
      refine (ih (add x.2 x.1 gs)).trans (((perm_add x.2 x.1 gs).append_left (l.map Prod.fst)).trans ?_)
      exact List.perm_middle
  simpa [groupBy] using hfold l []

theorem mem_add_key {key : κ} {value : α} : ∀ {gs : List (κ × List α)} {g : κ × List α}, g ∈ add key value gs →
    g.1 = key ∨ ∃ h ∈ gs, h.1 = g.1
  | [], g, hg => Or.inl (by rw [List.mem_singleton.1 hg])
  | (k, vs) :: gs, g, hg => by
    rw [add] at hg
    split at hg
    · rcases List.mem_cons.1 hg with rfl | hg
      · exact Or.inr ⟨(k, vs), List.mem_cons_self, rfl⟩
      · exact Or.inr ⟨g, List.mem_cons_of_mem _ hg, rfl⟩
    · rcases List.mem_cons.1 hg with rfl | hg
      · exact Or.inr ⟨(k, vs), List.mem_cons_self, rfl⟩
      · rcases mem_add_key hg with hkey | ⟨h, hh, heq⟩
        · exact Or.inl hkey
        · exact Or.inr ⟨h, List.mem_cons_of_mem _ hh, heq⟩

/-- The keys are those of the list. -/
theorem key_of_mem_groupBy {l : List (α × κ)} {g : κ × List α} (hg : g ∈ groupBy l) : ∃ x ∈ l, x.2 = g.1 := by
  have hfold : ∀ (l : List (α × κ)) (gs : List (κ × List α)), g ∈ l.foldl (fun gs x => add x.2 x.1 gs) gs →
      (∃ x ∈ l, x.2 = g.1) ∨ ∃ h ∈ gs, h.1 = g.1 := by
    intro l
    induction l with
    | nil => exact fun gs hg => Or.inr ⟨g, hg, rfl⟩
    | cons x l ih =>
      intro gs hg
      rcases ih _ hg with ⟨y, hy, heq⟩ | ⟨h, hh, heq⟩
      · exact Or.inl ⟨y, List.mem_cons_of_mem _ hy, heq⟩
      · rcases mem_add_key hh with hkey | ⟨h', hh', heq'⟩
        · exact Or.inl ⟨x, List.mem_cons_self, by rw [← heq, hkey]⟩
        · exact Or.inr ⟨h', hh', heq'.trans heq⟩
  rcases hfold l [] hg with h | ⟨h, hh, -⟩
  · exact h
  · exact absurd hh List.not_mem_nil

/-! ## Lines of words -/

variable {β : Type*}

/-- Words joined by single spaces, as many to a line as fit into the width: `line` is the one that is being filled, and
`used` its length. -/
def fill (width : Nat) (line : List (List β)) (used : Nat) : List (List β) → List (List (List β))
  | [] => if line = [] then [] else [line]
  | w :: ws =>
    if line = [] then fill width [w] w.length ws
    else if used + 1 + w.length ≤ width then fill width (line ++ [w]) (used + 1 + w.length) ws
    else line :: fill width [w] w.length ws

/-- The words of the lines are the words. -/
theorem flatten_fill (width : Nat) : ∀ (ws line : List (List β)) (used : Nat),
    (fill width line used ws).flatten = line ++ ws
  | [], line, used => by
    rw [fill]
    split <;> simp_all
  | w :: ws, line, used => by
    rw [fill]
    split
    · rename_i hline
      rw [flatten_fill width ws, hline]
      rfl
    · split
      · rw [flatten_fill width ws, List.append_assoc]
        rfl
      · rw [List.flatten_cons, flatten_fill width ws]
        rfl

/-! ## Two listings -/

section

variable [BEq α] [LawfulBEq α]

/-- The members of one list and those of another that it lacks are as many as the other has exactly when the first has
no members of its own. -/
theorem length_add_rest_iff {l m : List α} (hl : l.Nodup) (hm : m.Nodup) :
    l.length + (m.filter (· ∉ l)).length = m.length ↔ ∀ x ∈ l, x ∈ m := by
  have hsplit : (m.filter (· ∈ l)).length + (m.filter (· ∉ l)).length = m.length := by
    have h := List.length_eq_countP_add_countP (fun x => decide (x ∈ l)) (l := m)
    rw [h, List.countP_eq_length_filter, List.countP_eq_length_filter]
    simp
  have hcommon : m.filter (· ∈ l) ~ l.filter (· ∈ m) := by
    refine (List.perm_ext_iff_of_nodup (hm.filter _) (hl.filter _)).2 fun x => ?_
    simp [and_comm]
  rw [← hsplit, Nat.add_right_cancel_iff, hcommon.length_eq]
  constructor
  · intro hlen x hx
    have hall := List.length_filter_eq_length_iff.1 hlen.symm x hx
    exact of_decide_eq_true hall
  · intro hall
    exact (List.length_filter_eq_length_iff.2 fun x hx => decide_eq_true (hall x hx)).symm

end

end Groups
