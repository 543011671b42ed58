import NfsPlayground.Lib.Bytes
import Mathlib.Data.Nat.Bitwise
import Mathlib.Tactic.IntervalCases

/-!
# generic/141, 406 and 708: patterns that tell where a byte comes from

Each test folds an offset into a byte by xor of its low part with a higher one, and compares what it reads with that.
Which displacement is seen depends on the shift: 406 does not see one that stays in its block of 64 KiB, 708 sees every
displacement of a page, and 141 that of its window to any other offset (`misplaced_visible_iff`).
-/

namespace NfsPlayground.Files

open Bytes

/-! ## Comparing with a pattern -/

inductive Verdict
  | passed
  | short (off n : Nat)
  | differs (off : Nat) (byte : UInt8)
  deriving DecidableEq

/-- The chunks at the offsets are read and compared one after the other, up to the first byte that differs. -/
def verify (byte : Nat → UInt8) (chunk : Nat) (read : Nat → List UInt8) : List Nat → Verdict
  | [] => .passed
  | off :: offs =>
    let buf := read off
    if buf.length = chunk then
      match (List.range chunk).find? fun i => buf.getD i 0 ≠ byte (off + i) with
      | some i => .differs (off + i) (buf.getD i 0)
      | none => verify byte chunk read offs
    else .short off buf.length

/-- The offsets of a loop over the chunks of `size` bytes. -/
def offsets (size chunk : Nat) : List Nat := (List.range (size / chunk)).map (· * chunk)

def xfs_read_range (f : File) (len off : Nat) : List UInt8 := (f.drop off).take len

variable {byte : Nat → UInt8} {chunk size : Nat} {read : Nat → List UInt8}

theorem verify_passed_iff {offs : List Nat} (hlen : ∀ off ∈ offs, (read off).length = chunk) :
    verify byte chunk read offs = .passed ↔ ∀ off ∈ offs, ∀ i < chunk, (read off).getD i 0 = byte (off + i) := by
  induction offs with
  | nil => simp [verify]
  | cons off offs ih =>
    rw [List.forall_mem_cons] at hlen
    rw [verify, if_pos hlen.1, List.forall_mem_cons, ← ih hlen.2]
    split
    · rename_i i hfind
      have hi := List.mem_range.1 (List.mem_of_find?_eq_some hfind)
      have hne := List.find?_some hfind
      simp only [decide_not, Bool.not_eq_true', decide_eq_false_iff_not] at hne
      exact iff_of_false (by simp) fun h => hne (h.1 i hi)
    · rename_i hfind
      have hall : ∀ i < chunk, (read off).getD i 0 = byte (off + i) := by
        intro i hi
        simpa using List.find?_eq_none.1 hfind i (List.mem_range.2 hi)
      exact (and_iff_right hall).symm

/-- The offsets in a file, by their chunk and their place in it. -/
theorem forall_offsets_iff (hchunk : 0 < chunk) (hdvd : chunk ∣ size) {P : Nat → Prop} :
    (∀ off ∈ offsets size chunk, ∀ i < chunk, P (off + i)) ↔ ∀ i < size, P i := by
  obtain ⟨n, rfl⟩ := hdvd
  have hn : chunk * n / chunk = n := Nat.mul_div_cancel_left n hchunk
  simp only [offsets, hn, List.forall_mem_map, List.mem_range]
  constructor
  · intro h i hi
    have hdiv : i / chunk < n := Nat.div_lt_of_lt_mul hi
    have heq : i / chunk * chunk + i % chunk = i := Nat.div_add_mod' i chunk
    rw [← heq]
    exact h _ hdiv _ (Nat.mod_lt i hchunk)
  · intro h k hk i hi
    apply h
    calc k * chunk + i < k * chunk + chunk := by omega
      _ = chunk * (k + 1) := by rw [Nat.mul_comm, Nat.mul_succ]
      _ ≤ chunk * n := Nat.mul_le_mul_left chunk hk

/-! ## The patterns -/

/-- The low byte of an offset and, `shift` bits above it, another one. -/
def fold (shift off : Nat) : UInt8 := UInt8.ofNat (off >>> shift) ^^^ UInt8.ofNat off

/-- Offsets with one low byte are told apart by their high part. -/
theorem fold_eq_iff {shift a b : Nat} (hlow : a % 256 = b % 256) (ha : a >>> shift < 256) (hb : b >>> shift < 256) :
    fold shift a = fold shift b ↔ a >>> shift = b >>> shift := by
  have heq : UInt8.ofNat a = UInt8.ofNat b := UInt8.toNat_inj.1 (by simpa using hlow)
  rw [fold, fold, heq, UInt8.xor_left_inj]
  constructor
  · intro h
    have hnat := congrArg UInt8.toNat h
    rwa [UInt8.toNat_ofNat_of_lt' ha, UInt8.toNat_ofNat_of_lt' hb] at hnat
  · exact congrArg UInt8.ofNat

/-- A file whose position `k` holds the piece `m k` of what was written. -/
def placed (byte : Nat → UInt8) (size w : Nat) (m : Nat → Nat) : File :=
  (List.range size).map fun i => byte (m (i / w) * w + i % w)

theorem verify_placed_iff {w : Nat} (m : Nat → Nat) (hchunk : 0 < chunk) (hdvd : chunk ∣ size) (hw : 0 < w)
    (hwdvd : w ∣ size) :
    verify byte chunk (xfs_read_range (placed byte size w m) chunk) (offsets size chunk) = .passed ↔
      ∀ k < size / w, ∀ j < w, byte (m k * w + j) = byte (k * w + j) := by
  have hin : ∀ off ∈ offsets size chunk, off + chunk ≤ size := by
    intro off hoff
    have hlast := (forall_offsets_iff hchunk hdvd (P := (· < size))).2 (fun i hi => hi) off hoff (chunk - 1) (by omega)
    omega
  rw [verify_passed_iff fun off hoff => ?_]
  · have hread : (∀ off ∈ offsets size chunk, ∀ i < chunk,
        (xfs_read_range (placed byte size w m) chunk off).getD i 0 = byte (off + i)) ↔
        ∀ off ∈ offsets size chunk, ∀ i < chunk, byte (m ((off + i) / w) * w + (off + i) % w) = byte (off + i) := by
      refine forall₂_congr fun off hoff => forall₂_congr fun i hi => ?_
      have hlt : off + i < size := by have := hin off hoff; omega
      simp [xfs_read_range, placed, hi, hlt]
    rw [hread, forall_offsets_iff hchunk hdvd (P := fun i => byte (m (i / w) * w + i % w) = byte i),
      ← forall_offsets_iff hw hwdvd]
    simp only [offsets, List.forall_mem_map, List.mem_range]
    refine forall₂_congr fun k hk => forall₂_congr fun j hj => ?_
    rw [Nat.mul_comm k w, Nat.mul_add_div hw, Nat.mul_add_mod, Nat.div_eq_of_lt hj, Nat.mod_eq_of_lt hj, Nat.add_zero]
  · have hle := hin off hoff
    simp [xfs_read_range, placed]
    omega

/-! ## generic/406 -/

def G406_SIZE : Nat := 2 * 1024 * 1024
def G406_CHUNK : Nat := 65536

def g406_byte : Nat → UInt8 := fold 16

def g406_verify (f : File) : Verdict :=
  verify g406_byte G406_CHUNK (xfs_read_range f G406_CHUNK) (offsets G406_SIZE G406_CHUNK)

/-- Whole pieces are in whole blocks, or the other way round. -/
theorem shift_piece {e j : Nat} (hlow : 12 ≤ e) (hhigh : e ≤ 20) (hj : j < 2 ^ e) (k : Nat) :
    (k * 2 ^ e + j) >>> 16 = (k * 2 ^ e) >>> 16 + j >>> 16 := by
  simp only [Nat.shiftRight_eq_div_pow]
  interval_cases e <;> omega

/-- 406 compares the blocks of 64 KiB that the pieces come from. -/
theorem g406_passed_iff {e : Nat} (hlow : 12 ≤ e) (hhigh : e ≤ 20) {m : Nat → Nat}
    (hm : ∀ k < G406_SIZE / 2 ^ e, m k < G406_SIZE / 2 ^ e) :
    g406_verify (placed g406_byte G406_SIZE (2 ^ e) m) = .passed ↔
      ∀ k < G406_SIZE / 2 ^ e, m k * 2 ^ e / G406_CHUNK = k * 2 ^ e / G406_CHUNK := by
  have hpos : 0 < 2 ^ e := Nat.two_pow_pos e
  have hdvd : 2 ^ e ∣ G406_SIZE := (Nat.pow_dvd_pow 2 (show e ≤ 21 by omega)).trans (by decide)
  have hlt : ∀ k < G406_SIZE / 2 ^ e, ∀ j < 2 ^ e, (k * 2 ^ e + j) >>> 16 < 256 := by
    intro k hk j hj
    have hend : (k + 1) * 2 ^ e ≤ G406_SIZE := (Nat.le_div_iff_mul_le hpos).1 hk
    rw [Nat.succ_mul] at hend
    simp only [G406_SIZE] at hend
    rw [Nat.shiftRight_eq_div_pow]
    omega
  have hmod : ∀ k j, (k * 2 ^ e + j) % 256 = j % 256 := by
    intro k j
    have h256 : 256 ∣ k * 2 ^ e := (Nat.pow_dvd_pow 2 (show 8 ≤ e by omega)).mul_left k
    omega
  unfold g406_verify
  rw [verify_placed_iff m (by decide) (by decide) hpos hdvd]
  refine forall₂_congr fun k hk => ?_
  have hbyte : ∀ j < 2 ^ e, g406_byte (m k * 2 ^ e + j) = g406_byte (k * 2 ^ e + j) ↔
      (m k * 2 ^ e) >>> 16 = (k * 2 ^ e) >>> 16 := by
    intro j hj
    rw [g406_byte, fold_eq_iff ((hmod _ j).trans (hmod k j).symm) (hlt _ (hm k hk) j hj) (hlt k hk j hj),
      shift_piece hlow hhigh hj, shift_piece hlow hhigh hj, Nat.add_right_cancel_iff]
  rw [Nat.shiftRight_eq_div_pow, Nat.shiftRight_eq_div_pow] at hbyte
  exact ⟨fun h => (hbyte 0 hpos).1 (h 0 hpos), fun h j hj => (hbyte j hj).2 h⟩

/-! ## generic/708 -/

def G708_SIZE : Nat := 256 * 1024
def G708_CHUNK : Nat := 4096

def g708_byte : Nat → UInt8 := fold 12

def g708_verify (f : File) : Verdict :=
  verify g708_byte G708_CHUNK (xfs_read_range f G708_CHUNK) (offsets G708_SIZE G708_CHUNK)

/-- 708 sees every page that is not its own. -/
theorem g708_passed_iff {m : Nat → Nat} (hm : ∀ k < G708_SIZE / 4096, m k < G708_SIZE / 4096) :
    g708_verify (placed g708_byte G708_SIZE 4096 m) = .passed ↔ ∀ k < G708_SIZE / 4096, m k = k := by
  unfold g708_verify
  rw [verify_placed_iff m (by decide) (by decide) (by decide) (by decide)]
  refine forall₂_congr fun k hk => ?_
  have hmk := hm k hk
  simp only [G708_SIZE] at hk hmk
  have hbyte : ∀ j < 4096, g708_byte (m k * 4096 + j) = g708_byte (k * 4096 + j) ↔ m k = k := by
    intro j hj
    rw [g708_byte, fold_eq_iff (by omega) (by rw [Nat.shiftRight_eq_div_pow]; omega)
      (by rw [Nat.shiftRight_eq_div_pow]; omega), Nat.shiftRight_eq_div_pow, Nat.shiftRight_eq_div_pow]
    omega
  exact ⟨fun h => (hbyte 0 (by decide)).1 (h 0 (by decide)), fun h j hj => (hbyte j hj).2 h⟩

/-! ## generic/141 -/

def G141_SIZE : Nat := 1024 * 1024
def G141_MAPOFF : Nat := 64 * 1024
def G141_MAPLEN : Nat := 64 * 1024
def G141_CHUNK : Nat := 4096

def g141_byte (off : Nat) : UInt8 := UInt8.ofNat (off / G141_CHUNK) ^^^ UInt8.ofNat off

/-- The file that is mapped, written a chunk at a time. -/
def g141_file : File :=
  (List.range (G141_SIZE / G141_CHUNK)).foldl (fun f k =>
    f.write (k * G141_CHUNK) ((List.range G141_CHUNK).map fun i => g141_byte (k * G141_CHUNK + i))) []

/-- The window of a mapping that serves the file from `o` on. -/
def window (f : File) (o pos : Nat) : List UInt8 := (List.range G141_CHUNK).map fun i => f.byte (o + pos + i)

/-- The mapping is read back to front. -/
def g141_read (mapping : Nat → List UInt8) : Verdict :=
  verify (fun pos => g141_byte (G141_MAPOFF + pos)) G141_CHUNK mapping (offsets G141_MAPLEN G141_CHUNK).reverse

theorem g141_file_byte {i : Nat} (hi : i < G141_SIZE) : g141_file.byte i = g141_byte i := by
  have hloop : ∀ n i, i < n * G141_CHUNK → File.byte ((List.range n).foldl (fun (f : File) k =>
      f.write (k * G141_CHUNK) ((List.range G141_CHUNK).map fun i => g141_byte (k * G141_CHUNK + i))) []) i =
        g141_byte i := by
    intro n
    induction n with
    | zero => simp
    | succ n ih =>
      intro i hi
      have hne : ((List.range G141_CHUNK).map fun i => g141_byte (n * G141_CHUNK + i)) ≠ [] := by simp [G141_CHUNK]
      rw [List.range_succ, List.foldl_append, List.foldl_cons, List.foldl_nil, File.byte_write hne]
      by_cases hin : n * G141_CHUNK ≤ i
      · have hlt : i - n * G141_CHUNK < G141_CHUNK := by simp only [G141_CHUNK] at *; omega
        have heq : n * G141_CHUNK + (i - n * G141_CHUNK) = i := by omega
        have hin' : n * G141_CHUNK ≤ i ∧ i < n * G141_CHUNK + G141_CHUNK := by omega
        simp [hlt, heq, hin']
      · rw [if_neg (by omega)]
        exact ih i (by omega)
  exact hloop _ i hi

theorem toNat_g141_byte {off : Nat} (h : off < G141_SIZE) :
    (g141_byte off).toNat = (off / 4096) ^^^ (off % 256) := by
  have hdiv : off / G141_CHUNK < 256 := by
    simp only [G141_SIZE, G141_CHUNK] at *
    omega
  rw [g141_byte, UInt8.toNat_xor, UInt8.toNat_ofNat_of_lt' hdiv, UInt8.toNat_ofNat', G141_CHUNK]

/-- The last byte of a window that begins inside a page is on the next one. -/
theorem next_page {o : Nat} (h : o % 256 ≠ 0) : (o + 4095) / 4096 = o / 4096 + 1 := by omega

/-- No other window has the bytes of this one: three of them tell the page, the place in it and its parity. -/
theorem g141_window_differs {o : Nat} (hne : o ≠ G141_MAPOFF) (hle : o + G141_MAPLEN ≤ G141_SIZE) :
    ∃ d < G141_MAPLEN, g141_byte (o + d) ≠ g141_byte (G141_MAPOFF + d) := by
  by_contra hnot
  have hsame : ∀ d < 65536, (o + d) / 4096 ^^^ (o + d) % 256 = (65536 + d) / 4096 ^^^ (65536 + d) % 256 := by
    intro d hd
    simp only [G141_MAPOFF, G141_MAPLEN, G141_SIZE] at *
    have heq : g141_byte (o + d) = g141_byte (65536 + d) := by
      by_contra hdiff
      exact hnot ⟨d, hd, hdiff⟩
    have hnat := congrArg UInt8.toNat heq
    rwa [toNat_g141_byte (by simp only [G141_SIZE]; omega), toNat_g141_byte (by simp only [G141_SIZE]; omega)] at hnat
  have hfirst : o / 4096 ^^^ o % 256 = 16 := hsame 0 (by decide)
  have hpage : (o + 3840) / 4096 ^^^ (o + 3840) % 256 = 16 := hsame 3840 (by decide)
  have hlast : (o + 4095) / 4096 ^^^ (o + 4095) % 256 = 239 := hsame 4095 (by decide)
  -- fifteen blocks of 256 bytes on, the page is the same
  have hplace : o % 4096 < 256 := by
    rw [show (o + 3840) % 256 = o % 256 by omega, ← hfirst, Nat.xor_left_inj] at hpage
    omega
  have heven := congrArg (· % 2) hfirst
  have hodd := congrArg (· % 2) hlast
  simp only [Nat.xor_mod_two_eq] at heven hodd
  by_cases hzero : o % 256 = 0
  · rw [hzero, Nat.xor_zero] at hfirst
    simp only [G141_MAPOFF] at hne
    omega
  · have hdown : (o + 4095) % 256 = o % 256 - 1 := by omega
    rw [next_page hzero, hdown] at hodd
    omega

theorem g141_read_window {o : Nat} (hle : o + G141_MAPLEN ≤ G141_SIZE) : g141_read (window g141_file o) = .passed ↔
    ∀ d < G141_MAPLEN, g141_byte (o + d) = g141_byte (G141_MAPOFF + d) := by
  unfold g141_read
  rw [verify_passed_iff fun off _ => by simp [window]]
  simp only [List.mem_reverse]
  rw [← forall_offsets_iff (show 0 < G141_CHUNK by decide) (show G141_CHUNK ∣ G141_MAPLEN by decide)]
  refine forall₂_congr fun pos hpos => forall₂_congr fun i hi => ?_
  have hlt : pos + i < G141_MAPLEN := by
    refine (forall_offsets_iff (show 0 < G141_CHUNK by decide) (show G141_CHUNK ∣ G141_MAPLEN by decide)
      (P := (· < G141_MAPLEN))).2 (fun d hd => hd) pos hpos i hi
  have hwindow : (window g141_file o pos).getD i 0 = g141_byte (o + pos + i) := by
    simpa [window, hi] using g141_file_byte (i := o + pos + i) (by omega)
  rw [hwindow, Nat.add_assoc]

/-! ## Misplaced pieces -/

/-- Some piece is not at its own position. -/
def Misplaced (m : Nat → Nat) (n : Nat) : Prop := ∃ k < n, m k ≠ k

/-- 406 sees misplaced pieces exactly if one has left its block of 64 KiB; 708 and 141 see all they are shown. -/
theorem misplaced_visible_iff {e : Nat} (hlow : 4096 ≤ 2 ^ e) (hhigh : 2 ^ e ≤ G406_SIZE / 2) {m : Nat → Nat}
    (hm : ∀ k < G406_SIZE / 2 ^ e, m k < G406_SIZE / 2 ^ e) :
    ((Misplaced m (G406_SIZE / 2 ^ e) → g406_verify (placed g406_byte G406_SIZE (2 ^ e) m) ≠ .passed) ↔
      ¬ Misplaced m (G406_SIZE / 2 ^ e) ∨
        ∃ k < G406_SIZE / 2 ^ e, m k * 2 ^ e / G406_CHUNK ≠ k * 2 ^ e / G406_CHUNK) ∧
    (∀ m : Nat → Nat, (∀ k < G708_SIZE / 4096, m k < G708_SIZE / 4096) → Misplaced m (G708_SIZE / 4096) →
      g708_verify (placed g708_byte G708_SIZE 4096 m) ≠ .passed) ∧
    ∀ o, o ≠ G141_MAPOFF → o + G141_MAPLEN ≤ G141_SIZE → g141_read (window g141_file o) ≠ .passed := by
  refine ⟨?_, fun m hm hmoved hpassed => ?_, fun o hne hle hpassed => ?_⟩
  · have he : 12 ≤ e := (Nat.pow_le_pow_iff_right (by decide : 1 < 2)).1 hlow
    have he' : e ≤ 20 := (Nat.pow_le_pow_iff_right (by decide : 1 < 2)).1 hhigh
    rw [Ne, g406_passed_iff he he' hm, imp_iff_not_or]
    simp only [not_forall, exists_prop, ne_eq]
  · obtain ⟨k, hk, hne⟩ := hmoved
    exact hne ((g708_passed_iff hm).1 hpassed k hk)
  · obtain ⟨d, hd, hdiff⟩ := g141_window_differs hne hle
    exact hdiff ((g141_read_window hle).1 hpassed d hd)

/-- Two pages of one block change places. -/
def swap (k : Nat) : Nat := if k = 0 then 1 else if k = 1 then 0 else k

theorem swap_lt {n : Nat} (hn : 2 ≤ n) : ∀ k < n, swap k < n := by
  intro k hk
  unfold swap
  split_ifs <;> omega

theorem swap_block (k : Nat) : swap k * 2 ^ 12 / G406_CHUNK = k * 2 ^ 12 / G406_CHUNK := by
  unfold swap
  split_ifs with h0 h1
  · subst h0
    rfl
  · subst h1
    rfl
  · rfl

/-- With a wsize of 4096 the first two pieces may change places. -/
theorem swap_passes : Misplaced swap (G406_SIZE / 2 ^ 12) ∧
    g406_verify (placed g406_byte G406_SIZE (2 ^ 12) swap) = .passed :=
  ⟨⟨0, by decide, by decide⟩,
    (g406_passed_iff (by decide) (by decide) (swap_lt (by decide))).2 fun k _ => swap_block k⟩

/-- The first block and the second change places. -/
theorem misplaced_visible_iff_blocks :
    g406_verify (placed g406_byte G406_SIZE (2 ^ 16) swap) ≠ .passed ∧
      g708_verify (placed g708_byte G708_SIZE 4096 swap) ≠ .passed ∧
      g141_read (window g141_file (G141_MAPOFF + 1)) ≠ .passed := by
  obtain ⟨h406, h708, h141⟩ :=
    misplaced_visible_iff (show 4096 ≤ 2 ^ 16 by decide) (by decide) (swap_lt (show 2 ≤ G406_SIZE / 2 ^ 16 by decide))
  exact ⟨h406.2 (Or.inr ⟨0, by decide, by decide⟩) ⟨0, by decide, by decide⟩,
    h708 swap (swap_lt (by decide)) ⟨0, by decide, by decide⟩, h141 _ (by decide) (by decide)⟩

end NfsPlayground.Files
