import NfsPlayground.Lib.Bytes
import Mathlib.Data.List.Induction

/-!
# generic/014: the truncate epilogue after the churn

The churn writes stamped blocks and truncates; the epilogue cuts the file, grows it back and wants zeros. A file system
that brings the cut bytes back is caught exactly if the churn has left a byte that is not zero in the range the
epilogue reads (`stale_iff`), which depends on the draws: the epilogue writes no block of its own.
-/

namespace NfsPlayground.Files.G014

open Bytes

def G014_BS : Nat := 512
def G014_FILESIZE : Nat := 1024 * 1024
def G014_COUNT : Nat := 2000

/-! ## The test -/

/-- A file system with one file. -/
structure Storage (S : Type) where
  write : S → Nat → List UInt8 → S
  truncate : S → Nat → S
  content : S → File

variable {S : Type}

/-- A byte of the block at an offset: the offset stands in it twice, as a `u64`. -/
def stampByte (off j : Nat) : UInt8 :=
  if j < 8 then UInt8.ofNat (off >>> (8 * j))
  else if 256 ≤ j ∧ j < 264 then UInt8.ofNat (off >>> (8 * (j - 256)))
  else 0

def stamp (off : Nat) : List UInt8 := (List.range G014_BS).map (stampByte off)

/-- Two draws, for the offset of a block and the length to truncate to. -/
structure Draw where
  off : UInt32
  len : UInt32
  deriving DecidableEq

def Draw.offset (d : Draw) : Nat := d.off.toNat % G014_FILESIZE

def Draw.length (d : Draw) : Nat := d.len.toNat % G014_FILESIZE

def round (fs : Storage S) (s : S × Nat) (d : Draw) : S × Nat :=
  (fs.truncate (fs.write s.1 d.offset (stamp d.offset)) d.length, d.length)

/-- The loop, on the new file; with the length of the last truncate. -/
def churn (fs : Storage S) (s : S) (draws : List Draw) : S × Nat := draws.foldl (round fs) (s, 0)

/-- The zero check of the epilogue. -/
inductive Check
  | zeros
  | short (n : Nat)
  | stale (off : Nat) (byte : UInt8)
  deriving DecidableEq

def epilogue (fs : Storage S) (s : S) : Check :=
  let t := fs.truncate (fs.truncate s 4096) 131072
  let rd := ((fs.content t).drop 65536).take G014_BS
  if rd.length = G014_BS then
    match (List.range G014_BS).find? fun j => rd.getD j 0 ≠ 0 with
    | some j => .stale (65536 + j) (rd.getD j 0)
    | none => .zeros
  else .short rd.length

/-- Whether the size is as expected after the churn, and the check. -/
def write_truncate_churn (fs : Storage S) (s : S) (draws : List Draw) : Bool × Check :=
  let r := churn fs s draws
  ((fs.content r.1).length = r.2, epilogue fs r.1)

/-! ## Two file systems -/

/-- A truncate cuts the file or extends it with zeros. -/
def conforming : Storage File where
  write := File.write
  truncate := File.truncate
  content := id

/-- A file, and what it held before the last call if that cut it to 4096 bytes. -/
structure Cut where
  file : File
  before : Option File

/-- A truncate to 131072 bytes after one to 4096 brings back what that has cut off. -/
def reviving : Storage Cut where
  write s off data := ⟨s.file.write off data, none⟩
  truncate s len :=
    ⟨if len = 131072 then (s.before.getD s.file).truncate len else s.file.truncate len,
      if len = 4096 then some s.file else none⟩
  content := Cut.file

@[simp] theorem conforming_write (f : File) (off : Nat) (data : List UInt8) :
    conforming.write f off data = f.write off data := rfl

@[simp] theorem conforming_truncate (f : File) (len : Nat) : conforming.truncate f len = f.truncate len := rfl

@[simp] theorem conforming_content (f : File) : conforming.content f = f := rfl

@[simp] theorem reviving_write (s : Cut) (off : Nat) (data : List UInt8) :
    reviving.write s off data = ⟨s.file.write off data, none⟩ := rfl

/-- Right after a write nothing can be brought back. -/
theorem reviving_truncate_none (f : File) (len : Nat) : (reviving.truncate ⟨f, none⟩ len).file = f.truncate len := by
  simp only [reviving, Option.getD_none, ite_self]

theorem reviving_down_up (s : Cut) :
    reviving.content (reviving.truncate (reviving.truncate s 4096) 131072) = s.file.truncate 131072 := by
  simp only [reviving, if_true, Option.getD_some]

/-! ## What the churn leaves -/

/-- The block that a round writes lies over an offset. -/
def Draw.Covers (d : Draw) (p : Nat) : Prop := d.offset ≤ p ∧ p < d.offset + G014_BS

instance (d : Draw) (p : Nat) : Decidable (d.Covers p) := inferInstanceAs (Decidable (_ ∧ _))

/-- Some round stamps the offset with a byte that is not zero, its truncate and those of the later rounds leave it, and
no later block covers it. -/
def Survives (draws : List Draw) (p : Nat) : Prop :=
  ∃ pre d post, draws = pre ++ d :: post ∧ d.Covers p ∧ stampByte d.offset (p - d.offset) ≠ 0 ∧ p < d.length ∧
    ∀ e ∈ post, p < e.length ∧ ¬ e.Covers p

theorem length_stamp (off : Nat) : (stamp off).length = G014_BS := by simp [stamp]

theorem stamp_ne_nil (off : Nat) : stamp off ≠ [] := by simp [stamp, G014_BS]

/-- A byte after a round. -/
theorem byte_round (f : File) (d : Draw) (p : Nat) :
    ((f.write d.offset (stamp d.offset)).truncate d.length).byte p =
      if p < d.length then if d.Covers p then stampByte d.offset (p - d.offset) else f.byte p else 0 := by
  rw [File.byte_truncate, File.byte_write (stamp_ne_nil _), length_stamp]
  split
  · by_cases hcovers : d.offset ≤ p ∧ p < d.offset + G014_BS
    · have hlt : p - d.offset < G014_BS := by omega
      simp [Draw.Covers, hcovers, stamp, hlt]
    · simp [Draw.Covers, hcovers]
  · rfl

/-- What survives a last round. -/
theorem survives_snoc (draws : List Draw) (d : Draw) (p : Nat) : Survives (draws ++ [d]) p ↔
    p < d.length ∧ if d.Covers p then stampByte d.offset (p - d.offset) ≠ 0 else Survives draws p := by
  constructor
  · rintro ⟨pre, e, post, heq, hcovers, hstamp, hlen, hpost⟩
    rcases List.eq_nil_or_concat post with rfl | ⟨post, e', rfl⟩
    · obtain ⟨rfl, hd⟩ := List.append_inj' heq rfl
      rw [(List.cons.inj hd).1]
      exact ⟨hlen, by simpa [hcovers] using hstamp⟩
    · rw [List.concat_eq_append, ← List.cons_append, ← List.append_assoc] at heq
      obtain ⟨rfl, hd⟩ := List.append_inj' heq rfl
      rw [(List.cons.inj hd).1]
      have hlast := hpost e' (by simp)
      refine ⟨hlast.1, ?_⟩
      rw [if_neg hlast.2]
      exact ⟨pre, e, post, rfl, hcovers, hstamp, hlen, fun x hx => hpost x (by simp [hx])⟩
  · rintro ⟨hlen, h⟩
    by_cases hcovers : d.Covers p
    · rw [if_pos hcovers] at h
      exact ⟨draws, d, [], rfl, hcovers, h, hlen, by simp⟩
    · rw [if_neg hcovers] at h
      obtain ⟨pre, e, post, rfl, hcovers', hstamp, hlen', hpost⟩ := h
      refine ⟨pre, e, post ++ [d], by simp, hcovers', hstamp, hlen', fun x hx => ?_⟩
      rcases List.mem_append.1 hx with hx | hx
      · exact hpost x hx
      · rw [List.mem_singleton.1 hx]
        exact ⟨hlen, hcovers⟩

theorem churn_snoc (fs : Storage S) (s : S) (draws : List Draw) (d : Draw) :
    churn fs s (draws ++ [d]) = round fs (churn fs s draws) d := by
  rw [churn, List.foldl_append]
  rfl

/-- A byte of the new file is not zero after the churn if a stamp survives there. -/
theorem byte_churn (draws : List Draw) (p : Nat) :
    (churn conforming [] draws).1.byte p ≠ 0 ↔ Survives draws p := by
  induction draws using List.reverseRecOn with
  | nil => simp [churn, File.byte, Survives]
  | append_singleton draws d ih =>
    rw [survives_snoc, ← ih, churn_snoc, round, conforming_write, conforming_truncate, byte_round]
    by_cases hlen : p < d.length
    · by_cases hcovers : d.Covers p <;> simp [hlen, hcovers]
    · simp [hlen]

/-- The churn truncates only after a write, so that nothing is brought back there. -/
theorem churn_reviving (draws : List Draw) (s : Cut) :
    (churn reviving s draws).1.file = (churn conforming s.file draws).1 := by
  induction draws using List.reverseRecOn with
  | nil => rfl
  | append_singleton draws d ih =>
    rw [churn_snoc, churn_snoc, round, round, reviving_write, reviving_truncate_none, ih, conforming_write,
      conforming_truncate]

/-! ## What the epilogue sees -/

/-- The check passes on zeros only. -/
theorem epilogue_iff (fs : Storage S) (s : S)
    (hlen : (fs.content (fs.truncate (fs.truncate s 4096) 131072)).length = 131072) :
    epilogue fs s = .zeros ↔
      ∀ j < G014_BS, (fs.content (fs.truncate (fs.truncate s 4096) 131072)).byte (65536 + j) = 0 := by
  have hshort : (((fs.content (fs.truncate (fs.truncate s 4096) 131072)).drop 65536).take G014_BS).length =
      G014_BS := by
    simp [hlen, G014_BS]
  have hread : ∀ j < G014_BS,
      (((fs.content (fs.truncate (fs.truncate s 4096) 131072)).drop 65536).take G014_BS).getD j 0 =
      (fs.content (fs.truncate (fs.truncate s 4096) 131072)).byte (65536 + j) := by
    intro j hj
    simp [File.byte, hj]
  unfold epilogue
  dsimp only
  rw [if_pos hshort]
  split
  · rename_i j hfind
    have hj := List.mem_range.1 (List.mem_of_find?_eq_some hfind)
    have hne := List.find?_some hfind
    rw [hread j hj] at hne
    exact iff_of_false (by simp) fun h => by simp [h j hj] at hne
  · rename_i hfind
    refine iff_of_true rfl fun j hj => ?_
    rw [← hread j hj]
    simpa using List.find?_eq_none.1 hfind j (List.mem_range.2 hj)

/-- A file system without the defect passes. -/
theorem conforming_zeros (draws : List Draw) : (write_truncate_churn conforming [] draws).2 = .zeros := by
  unfold write_truncate_churn
  rw [epilogue_iff conforming]
  · intro j hj
    rw [conforming_content, conforming_truncate, conforming_truncate, File.byte_truncate, File.byte_truncate,
      if_neg (show ¬ 65536 + j < 4096 by omega), ite_self]
  · simp only [conforming_content, conforming_truncate, File.length_truncate]

/-- With the defect the check reads what the churn has left. -/
theorem reviving_zeros_iff (draws : List Draw) :
    (write_truncate_churn reviving ⟨[], none⟩ draws).2 = .zeros ↔ ∀ j < G014_BS, ¬ Survives draws (65536 + j) := by
  unfold write_truncate_churn
  rw [epilogue_iff reviving, reviving_down_up, churn_reviving]
  · refine forall₂_congr fun j hj => ?_
    simp only [G014_BS] at hj
    rw [← byte_churn, not_not, File.byte_truncate, if_pos (by omega)]
  · rw [reviving_down_up, File.length_truncate]

/-- The defect is seen exactly if the churn has left a byte that is not zero where the epilogue looks. -/
theorem stale_iff (draws : List Draw) :
    (write_truncate_churn reviving ⟨[], none⟩ draws).2 ≠ .zeros ↔ ∃ j < G014_BS, Survives draws (65536 + j) := by
  rw [Ne, reviving_zeros_iff]
  simp only [not_forall, not_not, exists_prop]

/-- Every round truncates the file to nothing. -/
def emptied : List Draw := List.replicate G014_COUNT ⟨0, 0⟩

theorem emptied_passes :
    emptied.length = G014_COUNT ∧ (write_truncate_churn reviving ⟨[], none⟩ emptied).2 = .zeros := by
  refine ⟨List.length_replicate, (reviving_zeros_iff emptied).2 fun j hj => ?_⟩
  rintro ⟨pre, d, post, heq, -, -, hlen, -⟩
  have hd : d ∈ emptied := by simp [heq]
  rw [List.eq_of_mem_replicate hd] at hlen
  exact absurd hlen (Nat.not_lt_zero _)

end NfsPlayground.Files.G014
