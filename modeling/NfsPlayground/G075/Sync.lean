import NfsPlayground.G075.Test

/-!
# The shadow is the file

The reference is a POSIX file that the same operations are applied to. `Sync t f` says that the shadow agrees with it
up to its size; beyond, the shadow may hold anything. Every pass of the loop keeps it, whatever the file system answers,
unless it ends the test; and a pass leaves the test unfailed exactly when the answer is what the reference gives
(`step_spec`). So the test passes exactly when the file system behaved as the reference (`fsx_shadow_refines_file`).
-/

namespace NfsPlayground.G075

open Bytes

/-! ## The reference -/

/-- The file after one operation; a punch that is refused has no effect. -/
def fileStep (op : Nat) (d : Draw) (a : Answer) (f : File) : File :=
  match d.kind with
  | .pwrite => f.write d.off ((List.range d.len).map (written op d.off))
  | .truncate => f.truncate d.off
  | .punch => if a.ret = 0 then f.punch d.off d.len else f
  | .verify => f

/-- A read of `len` bytes at `off`, which is not made past the end, returns the bytes of the file. -/
def ReadConforms (f : File) (off len : Nat) (a : Answer) : Prop :=
  off < f.length → a.ret = (min len (f.length - off) : Nat) ∧
    ∀ i < min len (f.length - off), a.buf i = f.byte (off + i)

/-- The answer is one that the reference gives. -/
def StepConforms (d : Draw) (a : Answer) (f : File) : Prop :=
  match d.kind with
  | .pwrite => a.ret = d.len
  | .truncate => a.ret = 0
  | .punch => True
  | .verify => ReadConforms f d.off d.len a

def fileLoop (op : Nat) : List (Draw × Answer) → File → File
  | [], f => f
  | (d, a) :: trace, f => fileLoop (op + 1) trace (fileStep op d a f)

def LoopConforms (op : Nat) : List (Draw × Answer) → File → Prop
  | [], _ => True
  | (d, a) :: trace, f => StepConforms d a f ∧ LoopConforms (op + 1) trace (fileStep op d a f)

/-- The file after the operations of a run on the new, empty file. -/
def fileAfter (trace : List (Draw × Answer)) : File := fileLoop 0 trace []

/-- Every answer of the loop is one that the reference gives. -/
def Conforms (trace : List (Draw × Answer)) : Prop := LoopConforms 0 trace []

def FinalConforms (fin : Final) (f : File) : Prop :=
  fin.kstat = 0 ∧ fin.kstSize = f.length ∧ ReadConforms f 0 f.length fin.read

/-- The shadow agrees with the file up to its size. -/
structure Sync (t : Test) (f : File) : Prop where
  size : t.size = f.length
  le : f.length ≤ G075_MAXSZ
  bytes : ∀ i < f.length, Buf.byte t.shadow i = f.byte i

/-- How a part of the test ends: in sync with `f`, unfailed exactly when it was before and `conforms` holds, or with an
assertion that failed although it does not. -/
def Ends (failed : Bool) (f : File) (conforms : Prop) (r : Except Stop Test) : Prop :=
  (r = .error .assertion ∧ ¬ conforms) ∨
    ∃ t, r = .ok t ∧ Sync t f ∧ (t.failed = false ↔ failed = false ∧ conforms)

theorem sync_start : Sync .start [] :=
  ⟨rfl, Nat.zero_le _, fun _ h => absurd h (Nat.not_lt_zero _)⟩

/-! ## The draws -/

theorem Draw.len_pos (d : Draw) : 0 < d.len := by
  have := d.off_lt
  have := d.drawn_pos
  unfold Draw.len
  split <;> omega

theorem Draw.off_add_len_le (d : Draw) : d.off + d.len ≤ G075_MAXSZ := by
  have := d.off_lt
  unfold Draw.len
  split <;> omega

/-! ## The shadow -/

variable {t : Test} {f : File}

/-- The hole is zeroed, so that the shadow agrees with the file as far as the hole reaches. -/
theorem zeroHole_spec (h : Sync t f) (off : Nat) (hoff : off ≤ G075_MAXSZ) : ∃ v, zeroHole t off = .ok v ∧
    ∀ i < max f.length off, Buf.byte v i = f.byte i := by
  unfold zeroHole
  by_cases hgt : off > t.size
  · rw [if_pos hgt]
    obtain ⟨v, hv, hbytes⟩ := Buf.store_eq t.shadow t.size (off - t.size) (by omega) fun _ => 0
    refine ⟨v, by rw [Buf.memset, hv]; rfl, fun i hi => ?_⟩
    have hs := h.size
    rw [hbytes i (by omega)]
    split
    · rw [File.byte_past (by omega)]
    · exact h.bytes i (by omega)
  · rw [if_neg hgt]
    have hs := h.size
    exact ⟨t.shadow, rfl, fun i hi => h.bytes i (by omega)⟩

/-- The comparison never leaves the buffer, and finds the first difference if there is one. -/
theorem compareBuf_spec (shadow : Buf G075_MAXSZ) (off : Nat) (buf : Nat → UInt8) : ∀ left i : Nat,
    off + i + left ≤ G075_MAXSZ → ∃ same, compareBuf shadow off buf i left = .ok same ∧
      (same = true ↔ ∀ j, i ≤ j → j < i + left → buf j = Buf.byte shadow (off + j))
  | 0, i, _ => ⟨true, rfl, by simp; omega⟩
  | left + 1, i, hle => by
    obtain ⟨same, heq, hsame⟩ := compareBuf_spec shadow off buf left (i + 1) (by omega)
    rw [compareBuf, Buf.getElem?_eq_byte (by omega)]
    by_cases hb : buf i = Buf.byte shadow (off + i)
    · refine ⟨same, by simpa only [hb, ne_eq, not_true_eq_false, if_false] using heq, hsame.trans ?_⟩
      constructor
      · intro hall j h1 h2
        rcases Nat.eq_or_lt_of_le h1 with rfl | h1
        · exact hb
        · exact hall j h1 (by omega)
      · exact fun hall j h1 h2 => hall j (by omega) (by omega)
    · refine ⟨false, by simp only [ne_eq, hb, not_false_eq_true, if_true], ?_⟩
      exact iff_of_false Bool.false_ne_true fun hall => hb (hall i (Nat.le_refl _) (by omega))

/-! ## The operations -/

theorem verifyRange_spec (h : Sync t f) (a : Answer) (off len : Nat) :
    Ends t.failed f (ReadConforms f off len a) (verifyRange a off len t) := by
  have hs := h.size
  have hle := h.le
  unfold verifyRange ReadConforms
  by_cases hoff : off ≥ t.size
  · rw [if_pos hoff]
    exact Or.inr ⟨t, rfl, h, by simp; omega⟩
  rw [if_neg hoff]
  have hlen : (if off + len > t.size then t.size - off else len) = min len (f.length - off) := by
    split <;> omega
  simp only [hlen]
  by_cases hret : a.ret = (min len (f.length - off) : Nat)
  swap
  · rw [if_pos hret]
    exact Or.inl ⟨rfl, fun hc => hret (hc (by omega)).1⟩
  rw [if_neg (not_not.2 hret)]
  obtain ⟨same, heq, hsame⟩ := compareBuf_spec t.shadow off a.buf (min len (f.length - off)) 0 (by omega)
  -- within the size the shadow is the file
  have hread : same = true ↔ (off < f.length → a.ret = (min len (f.length - off) : Nat) ∧
      ∀ i < min len (f.length - off), a.buf i = f.byte (off + i)) := by
    rw [hsame]
    constructor
    · intro hall _
      exact ⟨hret, fun i hi => (hall i (Nat.zero_le _) (by omega)).trans (h.bytes _ (by omega))⟩
    · intro hall j _ hj
      exact ((hall (by omega)).2 j (by omega)).trans (h.bytes _ (by omega)).symm
  refine Or.inr ⟨_, by rw [heq]; rfl, ?_, ?_⟩
  · cases same
    · exact ⟨h.size, h.le, h.bytes⟩
    · exact h
  · rw [← hread]
    cases same <;> simp

/-- A write: the hole before it is zeroed, the data copied. -/
theorem pwrite_spec (h : Sync t f) (op : Nat) (d : Draw) (a : Answer) (hk : d.kind = .pwrite) :
    Ends t.failed (fileStep op d a f) (StepConforms d a f) (step op d a t) := by
  have hlen := d.off_add_len_le
  have hpos := d.len_pos
  simp only [step, hk, fileStep, StepConforms]
  by_cases hret : a.ret = d.len
  swap
  · rw [if_pos hret]
    exact Or.inl ⟨rfl, hret⟩
  rw [if_neg (not_not.2 hret)]
  obtain ⟨v, hv, hvbytes⟩ := zeroHole_spec h d.off (by omega)
  obtain ⟨w, hw, hwbytes⟩ := Buf.store_eq v d.off d.len hlen (written op d.off)
  have hdata : (List.range d.len).map (written op d.off) ≠ [] := by
    rw [← List.length_pos_iff, List.length_map, List.length_range]
    exact hpos
  have hlength := File.length_write (f := f) hdata d.off
  rw [List.length_map, List.length_range] at hlength
  have hs := h.size
  have hle := h.le
  refine Or.inr ⟨_, by rw [hv]; dsimp only [bind, Except.bind]; rw [hw]; rfl, ⟨?_, by omega, fun i hi => ?_⟩, ?_⟩
  · show (if d.off + d.len > t.size then d.off + d.len else t.size) = _
    split <;> omega
  · show Buf.byte w i = _
    rw [hwbytes i (by omega), File.byte_write hdata, List.length_map, List.length_range]
    split
    · rw [List.getD_eq_getElem?_getD, List.getElem?_map, List.getElem?_range (by omega)]
      rfl
    · exact hvbytes i (by omega)
  · simp [hret]

theorem truncate_spec (h : Sync t f) (op : Nat) (d : Draw) (a : Answer) (hk : d.kind = .truncate) :
    Ends t.failed (fileStep op d a f) (StepConforms d a f) (step op d a t) := by
  have hoff := d.off_lt
  simp only [step, hk, fileStep, StepConforms]
  by_cases hret : a.ret = 0
  swap
  · rw [if_pos hret]
    exact Or.inl ⟨rfl, hret⟩
  rw [if_neg (not_not.2 hret)]
  obtain ⟨v, hv, hvbytes⟩ := zeroHole_spec h d.off (by omega)
  refine Or.inr ⟨_, by rw [hv]; rfl, ⟨?_, ?_, fun i hi => ?_⟩, ?_⟩
  · exact (File.length_truncate d.off).symm
  · rw [File.length_truncate]
    omega
  · rw [File.length_truncate] at hi
    rw [File.byte_truncate, if_pos hi]
    exact hvbytes i (by omega)
  · simp [hret]

/-- A punch that succeeds zeroes the shadow up to the size; past it the file has nothing to zero. -/
theorem punch_spec (h : Sync t f) (op : Nat) (d : Draw) (a : Answer) (hk : d.kind = .punch) :
    Ends t.failed (fileStep op d a f) (StepConforms d a f) (step op d a t) := by
  have hs := h.size
  have hle := h.le
  simp only [step, hk, fileStep, StepConforms]
  by_cases hret : a.ret = 0
  swap
  · simp only [hret, false_and, if_false]
    exact Or.inr ⟨t, rfl, h, by simp⟩
  rw [if_pos hret]
  have hpunch : ∀ i < f.length, (f.punch d.off d.len).byte i =
      if d.off ≤ i ∧ i < d.off + min d.len (t.size - d.off) then 0 else f.byte i := fun i hi => by
    have hiff : (d.off ≤ i ∧ i < d.off + d.len) ↔ d.off ≤ i ∧ i < d.off + min d.len (t.size - d.off) := by
      omega
    rw [File.byte_punch]
    simp only [hiff]
  by_cases hoff : d.off < t.size
  · rw [if_pos ⟨hret, hoff⟩]
    obtain ⟨v, hv, hvbytes⟩ := Buf.store_eq t.shadow d.off (min d.len (t.size - d.off)) (by omega) fun _ => 0
    refine Or.inr ⟨_, by rw [Buf.memset, hv]; rfl, ⟨?_, ?_, fun i hi => ?_⟩, by simp⟩
    · rw [File.length_punch]
      exact hs
    · rwa [File.length_punch]
    · rw [File.length_punch] at hi
      rw [hpunch i hi, ← h.bytes i hi]
      exact hvbytes i (by omega)
  · rw [if_neg fun hc => hoff hc.2]
    refine Or.inr ⟨t, rfl, ⟨?_, ?_, fun i hi => ?_⟩, by simp⟩
    · rw [File.length_punch]
      exact hs
    · rwa [File.length_punch]
    · rw [File.length_punch] at hi
      rw [hpunch i hi, if_neg (by omega)]
      exact h.bytes i hi

/-- One pass of the loop. -/
theorem step_spec (h : Sync t f) (op : Nat) (d : Draw) (a : Answer) :
    Ends t.failed (fileStep op d a f) (StepConforms d a f) (step op d a t) := by
  cases hk : d.kind with
  | pwrite => exact pwrite_spec h op d a hk
  | truncate => exact truncate_spec h op d a hk
  | punch => exact punch_spec h op d a hk
  | verify =>
    simp only [step, hk, fileStep, StepConforms]
    exact verifyRange_spec h a d.off d.len

/-! ## The test -/

/-- Two parts in sequence. -/
theorem Ends.bind {failed : Bool} {f g : File} {p q : Prop} {r : Except Stop Test} {k : Test → Except Stop Test}
    (h : Ends failed f p r) (hk : ∀ t, Sync t f → Ends t.failed g q (k t)) :
    Ends failed g (p ∧ q) (r >>= k) := by
  rcases h with ⟨rfl, hp⟩ | ⟨t, rfl, hs, hfail⟩
  · exact Or.inl ⟨rfl, fun hc => hp hc.1⟩
  · rcases hk t hs with ⟨heq, hq⟩ | ⟨u, heq, hu, hufail⟩
    · exact Or.inl ⟨heq, fun hc => hq hc.2⟩
    · exact Or.inr ⟨u, heq, hu, by rw [hufail, hfail, and_assoc]⟩

theorem loop_spec : ∀ (trace : List (Draw × Answer)) (op : Nat) {t : Test} {f : File}, Sync t f →
    Ends t.failed (fileLoop op trace f) (LoopConforms op trace f) (loop op trace t)
  | [], _, t, _, h => Or.inr ⟨t, rfl, h, by simp [LoopConforms]⟩
  | (d, a) :: trace, op, t, f, h => by
    have hstep := (step_spec h op d a).bind fun u hu => loop_spec trace (op + 1) hu
    have hloop : loop op ((d, a) :: trace) t = step op d a t >>= loop (op + 1) trace := by
      rw [loop]
      cases step op d a t <;> rfl
    rw [hloop]
    exact hstep

theorem finalCheck_spec (h : Sync t f) (fin : Final) :
    Ends t.failed f (FinalConforms fin f) (finalCheck fin t) := by
  unfold finalCheck FinalConforms
  by_cases hk : fin.kstat = 0
  swap
  · rw [if_pos hk]
    exact Or.inl ⟨rfl, fun hc => hk hc.1⟩
  rw [if_neg (not_not.2 hk), ← h.size, and_iff_right hk]
  by_cases hsize : fin.kstSize = t.size
  · rw [if_neg (not_not.2 hsize), and_iff_right hsize]
    exact verifyRange_spec h fin.read 0 t.size
  · rw [if_pos hsize]
    rcases verifyRange_spec (t := { t with failed := true }) ⟨h.size, h.le, h.bytes⟩ fin.read 0 t.size with
      ⟨heq, -⟩ | ⟨u, heq, hu, hfail⟩
    · exact Or.inl ⟨heq, fun hx => hsize hx.1⟩
    · exact Or.inr ⟨u, heq, hu, by simp [hfail, hsize]⟩

/-- The whole test on the reference's side. -/
theorem fsxTest_spec (trace : List (Draw × Answer)) (fin : Final) :
    Ends false (fileAfter trace) (Conforms trace ∧ FinalConforms fin (fileAfter trace)) (fsxTest trace fin) :=
  (loop_spec trace 0 sync_start).bind fun _ hu => finalCheck_spec hu fin

theorem loopConforms_take : ∀ (trace : List (Draw × Answer)) (op : Nat) {f : File}, LoopConforms op trace f →
    ∀ n, LoopConforms op (trace.take n) f
  | [], _, _, _, n => by rw [List.take_nil]; trivial
  | _ :: _, _, _, _, 0 => trivial
  | _ :: trace, op, _, h, n + 1 => ⟨h.1, loopConforms_take trace (op + 1) h.2 n⟩

/-- **The mini-fsx shadow refines a POSIX file.** For every run of the loop, of any length and with any answers: no
access leaves the shadow buffer; as long as the answers are those of the reference file, the test goes on unfailed and
after every operation the size is the file's size and the shadow agrees with the file below it; and the test passes
exactly when all answers, those of the final checks included, are the reference's. -/
theorem fsx_shadow_refines_file (trace : List (Draw × Answer)) (fin : Final) :
    fsxTest trace fin ≠ .error .outOfBounds ∧
    (Conforms trace → ∀ n, ∃ t, loop 0 (trace.take n) .start = .ok t ∧ t.failed = false ∧
      t.size = (fileAfter (trace.take n)).length ∧
      ∀ i < t.size, Buf.byte t.shadow i = (fileAfter (trace.take n)).byte i) ∧
    (Passes (fsxTest trace fin) ↔ Conforms trace ∧ FinalConforms fin (fileAfter trace)) := by
  have hall := fsxTest_spec trace fin
  refine ⟨fun hoob => ?_, fun hconf n => ?_, ?_⟩
  · rcases hall with ⟨heq, -⟩ | ⟨t, heq, -⟩ <;> rw [hoob] at heq <;> cases heq
  · rcases loop_spec (trace.take n) 0 sync_start with ⟨-, hno⟩ | ⟨t, heq, hs, hfail⟩
    · exact absurd (loopConforms_take trace 0 hconf n) hno
    · refine ⟨t, heq, hfail.2 ⟨rfl, loopConforms_take trace 0 hconf n⟩, hs.size, fun i hi => hs.bytes i ?_⟩
      rwa [← hs.size]
  · rcases hall with ⟨heq, hno⟩ | ⟨t, heq, -, hfail⟩
    · refine iff_of_false ?_ hno
      rintro ⟨t, ht, -⟩
      rw [heq] at ht
      cases ht
    · rw [heq]
      constructor
      · rintro ⟨u, hu, hu'⟩
        cases hu
        exact (hfail.1 hu').2
      · exact fun hc => ⟨t, rfl, hfail.2 ⟨rfl, hc⟩⟩

end NfsPlayground.G075
