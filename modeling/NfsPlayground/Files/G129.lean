import NfsPlayground.Lib.Bytes
import Mathlib.Algebra.Group.Int.Defs
import Mathlib.Algebra.Group.Nat.Defs

/-!
# generic/129: looptest

One buffer is written and read back in every iteration. Where that is depends on three flags, through an offset that the
write, the read, the open and the truncation all move. On a conforming file system the loop passes for every block size
that one call can transfer, and only then (`g129_loop_passes_iff`); in an iteration the write starts at `seek_to` and
the read returns the block (`g129_loop_reads_back`). -/

namespace NfsPlayground.Files.G129

open Bytes

/-- What a call transfers at most: INT_MAX, rounded down to a page. -/
def MAX_RW_COUNT : Nat := 0x7ffff000

/-! ## The calls on the file -/

def xfs_unlink (_ : Option File) : Option File := none

/-- Opening with O_CREAT. -/
def filp_open (disk : Option File) : Option File := some (disk.getD [])

/-- Writes the first bytes of the buffer: how many, and the file after it. -/
def kernel_write (f : File) (buf : List UInt8) (count pos : Nat) : Nat × File :=
  let n := min count MAX_RW_COUNT
  (n, f.write pos (buf.take n))

/-- Reads into the buffer, as far as the file goes: how many, and the buffer after it. -/
def kernel_read (f : File) (buf : List UInt8) (count pos : Nat) : Nat × List UInt8 :=
  let data := (f.drop pos).take (min count MAX_RW_COUNT)
  (data.length, data ++ buf.drop data.length)

/-! ## The loop -/

/-- The flags of a run, its block size and the number that its messages name. -/
structure Params where
  bs : Nat
  seq : Bool
  trunc : Bool
  openclose : Bool
  setno : Int

/-- The file and the locals of the loop. -/
structure Locals where
  disk : Option File
  /-- `f` is open. -/
  f : Bool
  pos : Nat
  seek_to : Nat
  rd : List UInt8

/-- How a run ends early: an assertion, or a call on no file. -/
inductive Stop
  | null
  | failed (msg : String)
  | oops
  deriving DecidableEq

/-- What an iteration did: where its write started, and what its read returned. -/
structure Access where
  seek_to : Nat
  write_at : Nat
  read : List UInt8
  deriving DecidableEq

variable (p : Params) (wr : List UInt8)

/-- Up to the write: the open, and the offset. -/
def seek (i : Nat) (s : Locals) : Locals :=
  let s := if p.openclose || i == 0 then { s with disk := filp_open s.disk, f := true, pos := 0 } else s
  let s := if p.openclose && p.seq then { s with pos := s.seek_to } else s
  if !p.seq then { s with pos := s.seek_to } else s

/-- The write, the read and the comparison. -/
def transfer (i : Nat) (s : Locals) : Except Stop (Locals × Access) :=
  match s.f, s.disk with
  | true, some file =>
    let w := kernel_write file wr p.bs s.pos
    if w.1 ≠ p.bs then .error (.failed s!"set {p.setno} iter {i}: write at {s.seek_to} returned {w.1}")
    else
      let t := { s with disk := some w.2, pos := s.seek_to }
      let r := kernel_read w.2 t.rd p.bs t.pos
      if r.1 = 0 then .error (.failed s!"set {p.setno} iter {i}: read past EOF at {s.seek_to}")
      else if r.1 ≠ p.bs then .error (.failed s!"set {p.setno} iter {i}: short read at {s.seek_to}: {r.1}")
      else if wr.take p.bs ≠ r.2.take p.bs then
        .error (.failed s!"set {p.setno} iter {i}: the block at {s.seek_to} read back changed")
      else
        .ok ({ t with pos := t.pos + r.1, rd := r.2 }, ⟨s.seek_to, s.pos, r.2.take r.1⟩)
  | _, _ => .error .oops

/-- After the comparison: the truncation, the next offset and the close. -/
def advance (s : Locals) : Locals :=
  let s := if p.trunc then { s with disk := s.disk.map (·.truncate 0), pos := 0 } else s
  let s := if p.seq then
      let s := { s with seek_to := s.seek_to + p.bs }
      if p.trunc then { s with pos := s.seek_to } else s
    else s
  if p.openclose then { s with f := false } else s

def iteration (i : Nat) (s : Locals) : Except Stop (Locals × Access) := do
  let (t, a) ← transfer p wr i (seek p i s)
  return (advance p t, a)

/-- The iterations from `i` on, as many as are left. -/
def loop : Nat → Nat → Locals → Except Stop (List Access × Locals)
  | 0, _, s => .ok ([], s)
  | left + 1, i, s => do
    let (t, a) ← iteration p wr i s
    let (log, u) ← loop left (i + 1) t
    return (a :: log, u)

/-- The bytes of the block. -/
def fill (bs : Nat) : List UInt8 := (List.range bs).map fun j => UInt8.ofNat (j &&& 127)

/-- A run on the file there is, with the two buffers as they are allocated: the accesses, and the file it leaves. -/
def g129_loop (disk : Option File) (wr rd : Option (List UInt8)) (iters : Int) :
    Except Stop (List Access × Option File) :=
  match wr, rd with
  | some _, some rd => do
    let (log, s) ← loop p (fill p.bs) iters.toNat 0 ⟨xfs_unlink disk, false, 0, 0, rd⟩
    return (log, s.disk)
  | _, _ => .error .null

variable {p : Params} {i : Nat} {s : Locals} {file : File}

@[simp] theorem length_fill (bs : Nat) : (fill bs).length = bs := by simp [fill]

/-! ## One iteration -/

/-- What an iteration finds: the offset, and a file that stays open from one to the next. -/
structure Ready (p : Params) (i : Nat) (s : Locals) : Prop where
  seek_to : s.seek_to = if p.seq then i * p.bs else 0
  opened : p.openclose = false → i ≠ 0 → s.f = true ∧ (∃ file, s.disk = some file) ∧ (p.seq = true → s.pos = s.seek_to)

/-- Before the write the file is open, and the offset is `seek_to`. -/
theorem seek_spec (h : Ready p i s) : (seek p i s).f = true ∧ (∃ file, (seek p i s).disk = some file) ∧
    (seek p i s).pos = s.seek_to ∧ (seek p i s).seek_to = s.seek_to := by
  have hzero : i = 0 → p.seq = true → s.seek_to = 0 := by
    intro hi hseq
    simp [h.seek_to, hi, hseq]
  have hopened := h.opened
  unfold seek
  cases hseq : p.seq <;> cases hopenclose : p.openclose <;> by_cases hi : i = 0 <;>
    simp_all [filp_open]

/-- A block of a size that one call can transfer is read back. -/
theorem transfer_ok (h1 : 1 ≤ p.bs) (hmax : p.bs ≤ MAX_RW_COUNT) (hf : s.f = true) (hdisk : s.disk = some file)
    (hpos : s.pos = s.seek_to) : ∃ t, transfer p (fill p.bs) i s = .ok (t, ⟨s.seek_to, s.pos, fill p.bs⟩) ∧
      t.f = true ∧ (∃ file, t.disk = some file) ∧ t.seek_to = s.seek_to ∧ t.pos = s.seek_to + p.bs := by
  have hmin : min p.bs MAX_RW_COUNT = p.bs := Nat.min_eq_left hmax
  have hwr : (fill p.bs).take p.bs = fill p.bs := List.take_of_length_le (by simp)
  have hread : ((file.write s.seek_to (fill p.bs)).drop s.seek_to).take p.bs = fill p.bs := by
    simpa using File.read_write (f := file) (fill p.bs) s.seek_to
  have hne : p.bs ≠ 0 := by omega
  refine ⟨⟨some (file.write s.seek_to (fill p.bs)), true, s.seek_to + p.bs, s.seek_to, fill p.bs ++ s.rd.drop p.bs⟩, ?_,
    rfl, ⟨_, rfl⟩, rfl, rfl⟩
  simp [transfer, hf, hdisk, hpos, kernel_write, kernel_read, hmin, hwr, hread, hne]

theorem advance_ready (hf : s.f = true) (hdisk : s.disk = some file)
    (hseek : s.seek_to = if p.seq then i * p.bs else 0) (hpos : s.pos = s.seek_to + p.bs) :
    Ready p (i + 1) (advance p s) := by
  constructor
  · unfold advance
    cases hseq : p.seq <;> cases p.trunc <;> cases p.openclose <;> simp [hseek, hseq, Nat.succ_mul]
  · intro hopenclose _
    unfold advance
    cases hseq : p.seq <;> cases p.trunc <;> simp [hopenclose, hf, hdisk, hpos]

/-- A block of another size stops the run. -/
theorem transfer_fails (h : p.bs = 0 ∨ MAX_RW_COUNT < p.bs) (hf : s.f = true) (hdisk : s.disk = some file) :
    ∃ e, transfer p (fill p.bs) i s = .error e := by
  rcases h with h | h
  · exact ⟨_, by simp only [transfer, hf, hdisk, kernel_write, kernel_read, h]; simp; rfl⟩
  · have hmin : min p.bs MAX_RW_COUNT ≠ p.bs := by omega
    exact ⟨_, by simp only [transfer, hf, hdisk, kernel_write]; rw [if_pos hmin]⟩

/-- An iteration reads its block back, and leaves what the next one needs. -/
theorem iteration_ok (h1 : 1 ≤ p.bs) (hmax : p.bs ≤ MAX_RW_COUNT) (h : Ready p i s) :
    ∃ t, iteration p (fill p.bs) i s = .ok (t, ⟨s.seek_to, s.seek_to, fill p.bs⟩) ∧ Ready p (i + 1) t := by
  obtain ⟨hf, ⟨file, hdisk⟩, hpos, hseek⟩ := seek_spec h
  obtain ⟨t, ht, hft, ⟨file', hdisk'⟩, hseek', hpos'⟩ :=
    transfer_ok (i := i) h1 hmax hf hdisk (hpos.trans hseek.symm)
  rw [hseek, hpos] at ht
  refine ⟨advance p t, by rw [iteration, ht]; rfl, ?_⟩
  apply advance_ready hft hdisk'
  · rw [hseek', hseek, h.seek_to]
  · rw [hpos', hseek']

/-! ## A run -/

theorem loop_ok (h1 : 1 ≤ p.bs) (hmax : p.bs ≤ MAX_RW_COUNT) (left : Nat) (h : Ready p i s) :
    ∃ log t, loop p (fill p.bs) left i s = .ok (log, t) ∧ log.length = left ∧
      ∀ k a, log[k]? = some a →
        a.write_at = a.seek_to ∧ a.read = fill p.bs ∧ a.seek_to = if p.seq then (i + k) * p.bs else 0 := by
  induction left generalizing i s with
  | zero => exact ⟨[], s, rfl, rfl, by simp⟩
  | succ left ih =>
    obtain ⟨t, ht, hready⟩ := iteration_ok h1 hmax h
    obtain ⟨log, u, hlog, hlen, hall⟩ := ih hready
    refine ⟨⟨s.seek_to, s.seek_to, fill p.bs⟩ :: log, u, ?_, by simp [hlen], ?_⟩
    · rw [loop, ht]
      simp only [bind, Except.bind, hlog]
      rfl
    · intro k a ha
      cases k with
      | zero =>
        simp only [List.getElem?_cons_zero, Option.some.injEq] at ha
        subst ha
        exact ⟨rfl, rfl, h.seek_to⟩
      | succ k =>
        rw [show i + (k + 1) = i + 1 + k by omega]
        exact hall k a (by simpa using ha)

theorem ready_start (rd : List UInt8) (disk : Option File) : Ready p 0 ⟨disk, false, 0, 0, rd⟩ :=
  ⟨by simp, fun _ h => absurd rfl h⟩

/-- The offsets of a run of `int` iterations of `u32` blocks are in the range of `loff_t`. -/
theorem offset_fits {iters bs : Nat} (hiters : iters < 2 ^ 31) (hbs : bs < 2 ^ 32) (hi : i < iters) :
    i * bs + bs < 2 ^ 63 := by
  calc i * bs + bs = (i + 1) * bs := by rw [Nat.succ_mul]
    _ ≤ (2 ^ 31 - 1) * bs := Nat.mul_le_mul_right bs (by omega)
    _ < 2 ^ 63 := by omega

variable (disk : Option File) (wr rd : List UInt8) (iters : Int)

/-- In every iteration the write starts at `seek_to` and the read returns the block, and in a sequential run iteration
`i` is at the offset `i * bs`. -/
theorem g129_loop_reads_back (h1 : 1 ≤ p.bs) (hmax : p.bs ≤ MAX_RW_COUNT) :
    ∃ log left, g129_loop p disk (some wr) (some rd) iters = .ok (log, left) ∧ log.length = iters.toNat ∧
      ∀ i a, log[i]? = some a →
        a.write_at = a.seek_to ∧ a.read = fill p.bs ∧ a.seek_to = if p.seq then i * p.bs else 0 := by
  obtain ⟨log, t, hlog, hlen, hall⟩ := loop_ok h1 hmax iters.toNat (ready_start (p := p) rd (xfs_unlink disk))
  refine ⟨log, t.disk, ?_, hlen, by simpa using hall⟩
  simp only [g129_loop, hlog, bind, Except.bind]
  rfl

theorem g129_loop_reads_back_sequential :
    ∃ log left, g129_loop ⟨8192, true, true, true, 1⟩ none (some []) (some []) 2000 = .ok (log, left) ∧
      log.length = 2000 ∧ ∀ i a, log[i]? = some a →
        a.write_at = a.seek_to ∧ a.read = fill 8192 ∧ a.seek_to = if true then i * 8192 else 0 :=
  g129_loop_reads_back (p := ⟨8192, true, true, true, 1⟩) none [] [] 2000 (by decide) (by decide)

/-- A run with an iteration passes for the block sizes that one call can transfer, and for no other. -/
theorem g129_loop_passes_iff : (∃ r, g129_loop p disk (some wr) (some rd) iters = .ok r) ↔
    iters ≤ 0 ∨ (1 ≤ p.bs ∧ p.bs ≤ MAX_RW_COUNT) := by
  by_cases hiters : iters ≤ 0
  · have hzero : iters.toNat = 0 := Int.toNat_of_nonpos hiters
    refine iff_of_true ⟨([], none), ?_⟩ (Or.inl hiters)
    simp [g129_loop, hzero, loop, xfs_unlink, bind, Except.bind, pure, Except.pure]
  obtain ⟨left, hleft⟩ : ∃ left, iters.toNat = left + 1 := ⟨iters.toNat - 1, by omega⟩
  by_cases hbs : 1 ≤ p.bs ∧ p.bs ≤ MAX_RW_COUNT
  · obtain ⟨log, disk', hok, -⟩ := loop_ok hbs.1 hbs.2 iters.toNat (ready_start (p := p) rd (xfs_unlink disk))
    refine iff_of_true ⟨(log, disk'.disk), ?_⟩ (Or.inr hbs)
    simp only [g129_loop, hok, bind, Except.bind]
    rfl
  · obtain ⟨hf, ⟨file, hdisk⟩, -⟩ := seek_spec (ready_start (p := p) rd (xfs_unlink disk))
    obtain ⟨e, he⟩ := transfer_fails (p := p) (i := 0) (by omega) hf hdisk
    refine iff_of_false ?_ (by omega)
    simp [g129_loop, hleft, loop, iteration, he, bind, Except.bind]

/-- An empty block is past the end of the file at once, and a block of more than a call transfers is written short. -/
theorem g129_loop_fails_outside :
    (¬ ∃ r, g129_loop ⟨0, true, false, false, 1⟩ none (some []) (some []) 1 = .ok r) ∧
      ¬ ∃ r, g129_loop ⟨2 ^ 32 - 1, true, false, false, 1⟩ none (some []) (some []) 1 = .ok r := by
  constructor
  · rw [g129_loop_passes_iff]
    decide
  · rw [g129_loop_passes_iff]
    decide

end NfsPlayground.Files.G129
