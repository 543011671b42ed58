import Mathlib.Data.List.Chain
import Mathlib.Data.List.Infix

/-!
# Where a word stands in joined texts

Texts that all begin with the same character are joined with a separator. A word that neither begins nor ends with the
separator, and never has the separator right before that character, stands in the joined text exactly where it stands
in one of them (`infix_intercalate_iff`).
-/

namespace Joined

variable {α : Type} {s d : α} {w : List α} {ls : List (List α)}

/-- A word that no joint of two texts can be part of. -/
structure Unbroken (s d : α) (w : List α) : Prop where
  ne_nil : w ≠ []
  head : s ∉ w.head?
  last : s ∉ w.getLast?
  chain : w.IsChain fun a b => a = s → b ≠ d

/-- An unbroken word stands on one side of a joint. -/
theorem Unbroken.cut (hw : Unbroken s d w) {x y l t : List α} (ht : t.head? = some d) (h : x ++ w ++ y = l ++ s :: t) :
    (∃ y', l = x ++ w ++ y' ∧ y = y' ++ s :: t) ∨ ∃ x', x = l ++ s :: x' ∧ x' ++ w ++ y = t := by
  obtain ⟨u, rfl⟩ := List.head?_eq_some_iff.1 ht
  rw [List.append_assoc] at h
  rcases List.append_eq_append_iff.1 h with ⟨a, rfl, ha⟩ | ⟨c, rfl, hc⟩
  · rcases List.append_eq_append_iff.1 ha with ⟨e, rfl, he⟩ | ⟨e, rfl, he⟩
    · exact Or.inl ⟨e, (List.append_assoc x w e).symm, he⟩
    · cases e with
      | nil => exact Or.inl ⟨[], by simp, he.symm⟩
      | cons b e =>
        rw [List.cons_append, List.cons.injEq] at he
        obtain ⟨rfl, he⟩ := he
        cases e with
        | nil => exact absurd (by simp) hw.last
        | cons b e =>
          rw [List.cons_append, List.cons.injEq] at he
          obtain ⟨rfl, he⟩ := he
          have htail := (List.isChain_append.1 hw.chain).2.1
          exact absurd rfl ((List.isChain_cons_cons.1 htail).1 rfl)
  · cases c with
    | nil =>
      obtain ⟨e, w', rfl⟩ := List.exists_cons_of_ne_nil hw.ne_nil
      rw [List.nil_append, List.cons_append, List.cons.injEq] at hc
      exact absurd (congrArg some hc.1.symm) hw.head
    | cons e c =>
      rw [List.cons_append, List.cons.injEq] at hc
      obtain ⟨rfl, hc⟩ := hc
      exact Or.inr ⟨c, rfl, by rw [List.append_assoc, hc]⟩

theorem intercalate_cons_cons (l m : List α) (ls : List (List α)) :
    [s].intercalate (l :: m :: ls) = l ++ s :: [s].intercalate (m :: ls) := by
  rw [List.intercalate_cons_cons, List.append_assoc, List.singleton_append]

theorem prefix_intercalate (l : List α) (ls : List (List α)) : l <+: [s].intercalate (l :: ls) := by
  cases ls with
  | nil => rw [List.intercalate_singleton]
  | cons m ls => exact ⟨_, (intercalate_cons_cons l m ls).symm⟩

/-- The joined text begins as its texts do. -/
theorem head_intercalate {l : List α} (hl : l.head? = some d) (ls : List (List α)) :
    ([s].intercalate (l :: ls)).head? = some d := by
  obtain ⟨v, hv⟩ := prefix_intercalate (s := s) l ls
  rw [← hv, List.head?_append, hl, Option.some_or]

theorem suffix_intercalate (l : List α) (hne : ls ≠ []) : s :: [s].intercalate ls <:+ [s].intercalate (l :: ls) := by
  obtain ⟨m, ls, rfl⟩ := List.exists_cons_of_ne_nil hne
  exact ⟨l, (intercalate_cons_cons l m ls).symm⟩

theorem infix_intercalate {l : List α} (h : l ∈ ls) : l <:+: [s].intercalate ls := by
  induction ls with
  | nil => cases h
  | cons m ls ih =>
    rcases List.mem_cons.1 h with rfl | h
    · exact (prefix_intercalate l ls).isInfix
    · have hsuffix := suffix_intercalate (s := s) m (List.ne_nil_of_mem h)
      exact ((ih h).trans (List.suffix_cons s _).isInfix).trans hsuffix.isInfix

theorem infix_intercalate_iff (hw : Unbroken s d w) (hls : ∀ l ∈ ls, l.head? = some d) :
    w <:+: [s].intercalate ls ↔ ∃ l ∈ ls, w <:+: l := by
  refine ⟨fun h => ?_, fun ⟨l, hl, h⟩ => h.trans (infix_intercalate hl)⟩
  induction ls with
  | nil => exact absurd (List.infix_nil.1 h) hw.ne_nil
  | cons l ls ih =>
    cases ls with
    | nil => exact ⟨l, by simp, by rwa [List.intercalate_singleton] at h⟩
    | cons m ls =>
      have hrest : ∀ k ∈ m :: ls, k.head? = some d := fun k hk => hls k (List.mem_cons_of_mem _ hk)
      obtain ⟨x, y, hxy⟩ := h
      rw [intercalate_cons_cons] at hxy
      rcases hw.cut (head_intercalate (hrest m (by simp)) ls) hxy with ⟨y', rfl, -⟩ | ⟨x', -, hx⟩
      · exact ⟨_, by simp, ⟨x, y', rfl⟩⟩
      · obtain ⟨k, hk, h⟩ := ih hrest ⟨x', y, hx⟩
        exact ⟨k, List.mem_cons_of_mem _ hk, h⟩

end Joined
