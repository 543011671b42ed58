import Mathlib.Data.List.Basic
import Mathlib.Tactic.SplitIfs

/-!
# Byte files and byte buffers

- A `File` is the content of a POSIX file, with the four operations of a random-access exerciser; each has a lemma on
  the size and one on the bytes, read as `byte`, which is `0` past the end.
- A `Buf n` is a C buffer of `n` bytes; an access outside it is `none`.
-/

namespace Bytes

/-! ## Files -/

abbrev File := List UInt8

namespace File

variable (f : File)

/-- The byte at an offset, `0` past the end. -/
def byte (i : Nat) : UInt8 := f.getD i 0

/-- The file, extended with zeros to the size `n` if it is shorter. -/
def extend (n : Nat) : File := f ++ List.replicate (n - f.length) 0

/-- A write of no bytes does nothing, also past the end. -/
def write (off : Nat) (data : List UInt8) : File :=
  if data = [] then f else (f.extend off).take off ++ data ++ f.drop (off + data.length)

def truncate (size : Nat) : File := (f.extend size).take size

/-- Punches a hole, without change of the size. -/
def punch (off len : Nat) : File := f.mapIdx fun i b => if off ≤ i ∧ i < off + len then 0 else b

variable {f}

theorem byte_past {i : Nat} (h : f.length ≤ i) : f.byte i = 0 := by
  simp [byte, h]

theorem byte_extend (n i : Nat) : (f.extend n).byte i = f.byte i := by
  unfold byte extend
  by_cases h : i < f.length
  · simp [List.getElem?_append_left h]
  · have hle : f.length ≤ i := Nat.le_of_not_lt h
    simp only [List.getD_eq_getElem?_getD, List.getElem?_append_right hle, List.getElem?_replicate,
      List.getElem?_eq_none hle]
    split <;> rfl

@[simp] theorem length_extend (n : Nat) : (f.extend n).length = max f.length n := by
  simp only [extend, List.length_append, List.length_replicate]
  omega

theorem byte_take (n i : Nat) : byte (f.take n) i = if i < n then f.byte i else 0 := by
  unfold byte
  rw [List.getD_eq_getElem?_getD, List.getElem?_take]
  split_ifs with h
  · rw [List.getD_eq_getElem?_getD]
  · rfl

@[simp] theorem length_truncate (size : Nat) : (f.truncate size).length = size := by
  simp only [truncate, List.length_take, length_extend]
  omega

theorem byte_truncate (size i : Nat) : (f.truncate size).byte i = if i < size then f.byte i else 0 := by
  rw [truncate, byte_take, byte_extend]

@[simp] theorem length_punch (off len : Nat) : (f.punch off len).length = f.length := by simp [punch]

theorem byte_punch (off len i : Nat) :
    (f.punch off len).byte i = if off ≤ i ∧ i < off + len then 0 else f.byte i := by
  unfold byte punch
  by_cases h : i < f.length
  · simp [h]
  · have hle : f.length ≤ i := Nat.le_of_not_lt h
    simp [hle]

theorem length_write {data : List UInt8} (hd : data ≠ []) (off : Nat) :
    (f.write off data).length = max f.length (off + data.length) := by
  have := List.length_pos_iff.2 hd
  simp only [write, if_neg hd, List.length_append, List.length_take, length_extend, List.length_drop]
  omega

/-- The bytes of a write: the data, around it what was there, and zeros in the hole it leaves. -/
theorem byte_write {data : List UInt8} (hd : data ≠ []) (off i : Nat) :
    (f.write off data).byte i = if off ≤ i ∧ i < off + data.length then data.getD (i - off) 0 else f.byte i := by
  have hlen : ((f.extend off).take off).length = off := length_truncate off
  simp only [write, if_neg hd, byte, List.getD_eq_getElem?_getD, List.append_assoc]
  rcases Nat.lt_or_ge i off with h | h
  · rw [List.getElem?_append_left (by omega), if_neg (by omega)]
    have := byte_extend (f := f) off i
    simp only [byte, List.getD_eq_getElem?_getD] at this
    rw [List.getElem?_take, if_pos h, this]
  rw [List.getElem?_append_right (by omega), hlen]
  rcases Nat.lt_or_ge i (off + data.length) with h' | h'
  · rw [List.getElem?_append_left (by omega), if_pos ⟨h, h'⟩]
  · rw [List.getElem?_append_right (by omega), List.getElem?_drop, if_neg (by omega)]
    congr 2
    omega

/-- What has been written is read back. -/
theorem read_write (data : List UInt8) (off : Nat) : ((f.write off data).drop off).take data.length = data := by
  by_cases hd : data = []
  · simp [hd]
  · have hlen : ((f.extend off).take off).length = off := length_truncate off
    rw [write, if_neg hd, List.append_assoc, List.drop_left' hlen, List.take_left' rfl]

/-- Two files of one length with the same bytes. -/
theorem eq_of_byte {g : File} (hlen : f.length = g.length) (h : ∀ i, f.byte i = g.byte i) : f = g := by
  refine List.ext_getElem hlen fun i hi hi' => ?_
  have hbyte := h i
  simpa [byte, hi, hi'] using hbyte

end File

/-! ## Buffers -/

abbrev Buf (n : Nat) := Vector UInt8 n

namespace Buf

variable {n : Nat} (v : Buf n)

/-- Stores `data i` at `v[at + i]` for `i < len`. -/
def store (start len : Nat) (data : Nat → UInt8) : Option (Buf n) :=
  if start + len ≤ n then
    some (Vector.ofFn fun i => if start ≤ i.val ∧ i.val < start + len then data (i.val - start) else v[i])
  else none

def memset (start len : Nat) (b : UInt8) : Option (Buf n) := store v start len fun _ => b

/-- The byte at an index inside the buffer. -/
def byte (i : Nat) : UInt8 := v[i]?.getD 0

variable {v}

theorem getElem?_eq_byte {i : Nat} (h : i < n) : v[i]? = some (byte v i) := by
  simp [byte, h]

/-- A store inside the buffer changes the range it names. -/
theorem store_eq (v : Buf n) (start len : Nat) (h : start + len ≤ n) (data : Nat → UInt8) :
    ∃ w, store v start len data = some w ∧
      ∀ i < n, byte w i = if start ≤ i ∧ i < start + len then data (i - start) else byte v i := by
  refine ⟨_, if_pos h, fun i hi => ?_⟩
  simp only [byte, Vector.getElem?_ofFn, hi, dite_true, Option.getD_some]
  split <;> simp [hi]

end Buf

end Bytes
