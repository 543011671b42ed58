import NfsPlayground.Lib.PosixGrows

/-!
# Ranges of a file

What is written within a file is read back from where it was written, and what was read from elsewhere still is.
-/

namespace Posix.Fs

variable {N : Type} {fs : Fs N} {bytes new : List UInt8} {k off len a n : Nat} {addr : Int}

theorem getElem?_patch (h : off + new.length ≤ bytes.length) (i : Nat) :
    (patch bytes off new)[i]? = if off ≤ i ∧ i < off + new.length then new[i - off]? else bytes[i]? := by
  have hoff : off ≤ bytes.length := Nat.le_trans (Nat.le_add_right _ _) h
  have htake : (bytes.take off).length = off := List.length_take_of_le hoff
  rw [patch_within hoff, List.append_assoc]
  by_cases hlt : i < off
  · rw [List.getElem?_append_left (by omega), List.getElem?_take_of_lt hlt, if_neg (by omega)]
  · rw [List.getElem?_append_right (by omega), htake]
    by_cases hin : i < off + new.length
    · rw [List.getElem?_append_left (by omega), if_pos ⟨by omega, hin⟩]
    · rw [List.getElem?_append_right (by omega), List.getElem?_drop, if_neg (by omega)]
      congr 1
      omega

theorem length_patch_within (h : off + new.length ≤ bytes.length) : (patch bytes off new).length = bytes.length := by
  rw [length_patch (Nat.le_trans (Nat.le_add_right _ _) h), Nat.max_eq_left h]

/-- What was written is there. -/
theorem slice_patch (h : off + new.length ≤ bytes.length) : ((patch bytes off new).drop off).take new.length = new := by
  refine List.ext_getElem? fun i => ?_
  rw [List.getElem?_take]
  split
  · rw [List.getElem?_drop, getElem?_patch h, if_pos ⟨by omega, by omega⟩, Nat.add_sub_cancel_left]
  · rw [List.getElem?_eq_none (by omega)]

/-- Elsewhere nothing has changed. -/
theorem slice_patch_apart (h : off + new.length ≤ bytes.length) (hapart : a + n ≤ off ∨ off + new.length ≤ a) :
    ((patch bytes off new).drop a).take n = (bytes.drop a).take n := by
  refine List.ext_getElem? fun i => ?_
  rw [List.getElem?_take, List.getElem?_take]
  split
  · rw [List.getElem?_drop, List.getElem?_drop, getElem?_patch h, if_neg (by omega)]
  · rfl

/-- One byte spreads over another. -/
theorem patch_replicate {b c : UInt8} :
    patch (List.replicate off b ++ List.replicate n c) off (List.replicate len b) =
      List.replicate (off + len) b ++ List.replicate (n - len) c := by
  have hoff : (List.replicate off b).length = off := List.length_replicate
  rw [patch_within (by simp), List.take_left' hoff, List.length_replicate, List.replicate_append_replicate,
    List.drop_append, hoff, List.drop_eq_nil_of_le (by omega), List.nil_append, List.drop_replicate,
    Nat.add_sub_cancel_left]

theorem truncate_empty (hk : k < fs.next) (hdata : fs.data k = []) (len : Nat) :
    fs.truncate k len = (0, fs.setData k (List.replicate len 0)) := by
  unfold truncate
  rw [if_pos hk, hdata, List.nil_append, List.length_nil, Nat.sub_zero, List.take_of_length_le (by simp)]

theorem store_within (h : fs.mapped addr = some k) (hle : off + new.length ≤ (fs.data k).length) :
    fs.store addr off new = (0, fs.setData k (patch (fs.data k) off new)) := by
  have hpage : off + new.length ≤ fs.pageEnd k := by
    rw [pageEnd]
    omega
  unfold store
  rw [h]
  dsimp only
  rw [if_pos hpage, List.take_of_length_le (Nat.le_of_eq (length_patch_within hle))]

end Posix.Fs
