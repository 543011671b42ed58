import NfsPlayground.Lib.Pieces

/-!
# Deleting ranges of lines

`sed '/begin/,/end/d'`: a line that matches `begin` opens a range, the first line after it that matches `end` closes
it, and a range that nothing closes runs to the end of the text. A line is written back with the newline it was read
with, so that a last line without one stays so.
-/

namespace Lines

section

variable (opens closes : Text → Bool)

/-- What is left of the lines; the flag says whether a range is open. -/
def deleteRanges : Bool → List Text → List Text
  | _, [] => []
  | false, l :: ls => if opens (chomp l) then deleteRanges true ls else l :: deleteRanges false ls
  | true, l :: ls => deleteRanges (!closes (chomp l)) ls

/-- `sed -i '/begin/,/end/d'` -/
def sedDelete (t : Text) : Text := (deleteRanges opens closes false (pieces t)).flatten

/-- Every line lies in a range. -/
def Covered : Bool → List Text → Prop
  | _, [] => True
  | false, l :: ls => opens l = true ∧ Covered true ls
  | true, l :: ls => Covered (!closes l) ls

end

/-! ## Ranges -/

section

variable {opens closes : Text → Bool}

/-- Lines that open no range stay. -/
theorem deleteRanges_append : ∀ {ls : List Text} (ms : List Text), (∀ l ∈ ls, opens (chomp l) = false) →
    deleteRanges opens closes false (ls ++ ms) = ls ++ deleteRanges opens closes false ms
  | [], _, _ => rfl
  | l :: ls, ms, h => by
    have hl : opens (chomp l) = false := h l List.mem_cons_self
    rw [List.cons_append, deleteRanges, hl, if_neg Bool.false_ne_true,
      deleteRanges_append ms fun m hm => h m (List.mem_cons_of_mem _ hm), List.cons_append]

/-- Nothing is left exactly when every line lies in a range. -/
theorem deleteRanges_eq_nil_iff : ∀ (inside : Bool) (ls : List Text),
    deleteRanges opens closes inside ls = [] ↔ Covered opens closes inside (ls.map chomp)
  | _, [] => by simp [deleteRanges, Covered]
  | true, l :: ls => deleteRanges_eq_nil_iff (!closes (chomp l)) ls
  | false, l :: ls => by
    rw [deleteRanges, List.map_cons, Covered]
    cases hl : opens (chomp l) with
    | false => simp
    | true => simpa using deleteRanges_eq_nil_iff true ls

/-- A range that only the last line closes covers all of them. -/
theorem covered_of_last : ∀ {ls : List Text} {l : Text}, (∀ m ∈ ls, closes m = false) →
    Covered opens closes true (ls ++ [l])
  | [], _, _ => trivial
  | m :: ls, l, h => by
    rw [List.cons_append, Covered, h m List.mem_cons_self]
    exact covered_of_last fun k hk => h k (List.mem_cons_of_mem _ hk)

theorem mem_deleteRanges : ∀ (inside : Bool) {ls : List Text} {l : Text}, l ∈ deleteRanges opens closes inside ls →
    l ∈ ls
  | true, m :: ls, l, h => List.mem_cons_of_mem _ (mem_deleteRanges (!closes (chomp m)) h)
  | false, m :: ls, l, h => by
    rw [deleteRanges] at h
    split at h
    · exact List.mem_cons_of_mem _ (mem_deleteRanges true h)
    · rcases List.mem_cons.1 h with rfl | h
      · exact List.mem_cons_self
      · exact List.mem_cons_of_mem _ (mem_deleteRanges false h)

/-- A text in which no line opens a range stays, whatever closed text is put behind it. -/
theorem sedDelete_append {t u : Text} (ht : Closed t) (hno : ∀ l ∈ lines t, opens l = false) :
    sedDelete opens closes (t ++ u) = t ++ sedDelete opens closes u := by
  have hpieces : ∀ l ∈ pieces t, opens (chomp l) = false := fun l hl =>
    hno _ (by rw [← map_chomp_pieces]; exact List.mem_map_of_mem hl)
  rw [sedDelete, pieces_append u ht, deleteRanges_append _ hpieces, List.flatten_append, flatten_pieces]
  rfl

theorem sedDelete_of_quiet {t : Text} (hno : ∀ l ∈ lines t, opens l = false) : sedDelete opens closes t = t := by
  have hpieces : ∀ l ∈ pieces t, opens (chomp l) = false := fun l hl =>
    hno _ (by rw [← map_chomp_pieces]; exact List.mem_map_of_mem hl)
  have h : deleteRanges opens closes false (pieces t ++ []) = pieces t ++ deleteRanges opens closes false [] :=
    deleteRanges_append [] hpieces
  rw [sedDelete, ← List.append_nil (pieces t), h, List.flatten_append, flatten_pieces]
  exact List.append_nil t

/-- What is left of a text behind a line that opens a range. -/
def rest (opens closes : Text → Bool) (v : Text) : Text := (deleteRanges opens closes true (pieces v)).flatten

/-- Behind a text in which no line opens a range, a line that opens one takes itself away. -/
theorem sedDelete_open {u l : Text} (hu : Closed u) (hno : ∀ m ∈ lines u, opens m = false) (hl : '\n' ∉ l)
    (hopens : opens l = true) (v : Text) :
    sedDelete opens closes (u ++ (l ++ '\n' :: v)) = u ++ rest opens closes v := by
  have hline : sedDelete opens closes (l ++ '\n' :: v) = rest opens closes v := by
    rw [sedDelete, pieces_break hl, deleteRanges, chomp_line, if_pos hopens]
    rfl
  rw [sedDelete_append hu hno, hline]

theorem closed_flatten : ∀ {ls : List Text}, (∀ l ∈ ls, Closed l) → Closed ls.flatten
  | [], _ => closed_nil
  | l :: _, h => (h l List.mem_cons_self).append (closed_flatten fun m hm => h m (List.mem_cons_of_mem _ hm))

theorem closed_rest {v : Text} (hv : Closed v) : Closed (rest opens closes v) :=
  closed_flatten fun _ hp => (closed_of_mem_pieces hv (mem_deleteRanges true hp)).2

/-- Nothing is left behind the opening line exactly when every line of the rest lies in a range. -/
theorem rest_eq_nil_iff {v : Text} (hv : Closed v) :
    rest opens closes v = [] ↔ Covered opens closes true (lines v) := by
  rw [← map_chomp_pieces, ← deleteRanges_eq_nil_iff, rest, List.flatten_eq_nil_iff]
  constructor
  · intro h
    refine List.eq_nil_iff_forall_not_mem.2 fun p hp => ?_
    exact (closed_of_mem_pieces hv (mem_deleteRanges true hp)).1 (h p hp)
  · intro h p hp
    rw [h] at hp
    exact absurd hp List.not_mem_nil

end

end Lines
