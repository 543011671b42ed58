import NfsPlayground.Lib.Blocking
import Mathlib.Data.Nat.Notation

/-!
# generic/591: splicing into a pipe that is read

`g591_run()` and its reader. In the sequential variants the function itself reads the pipe back after each splice; in
the concurrent ones a thread does. The function holds both ends of the pipe: a splice into a full pipe waits for room, a
read of an empty one waits for bytes until the write end is closed. -/

namespace NfsPlayground.Races.G591

def PAGE_SIZE : Nat := 4096
def ENODATA : Int := 61
def ENOMEM : Int := 12

/-- The arguments of `g591_run()`, and how many bytes the pipe holds. -/
structure Variant where
  concurrent : Bool
  sector : Nat
  capacity : Nat
  room : 0 < capacity

def Variant.size (v : Variant) : Nat := 150 * v.sector

/-- What a call answers; `bytes` are those a splice moves. -/
structure Answer where
  ret : Int
  bytes : List UInt8 := []
  deriving DecidableEq

/-- `IS_ERR()` -/
def Answer.isErr (a : Answer) : Bool := a.ret < 0

structure Frame where
  pipe : List UInt8
  /-- The write end is open. -/
  writer : Bool
  -- `struct g591_reader`
  size : Nat
  err : Int
  bad : Nat
  done : Nat
  deriving DecidableEq

/-! ## Reading the pipe -/

/-- `kernel_read()` of the pipe: how many bytes it gives, or that it waits or cannot answer so. -/
def kernelRead (a : Answer) (want : Nat) (m : Frame) : Option Int :=
  if m.pipe = [] then if m.writer = false ∧ a.ret ≤ 0 then some a.ret else none
  else if a.ret < 0 ∨ (0 < a.ret ∧ a.ret ≤ min want m.pipe.length) then some a.ret
  else none

inductive Reading
  | kmalloc
  | read (left : Nat)
  | finished
  deriving DecidableEq

/-- `g591_read_from_pipe()` -/
def readFromPipe (a : Answer) : Reading → Frame → Option (Reading × Frame)
  | .kmalloc, m => some (if a.ret = 0 then (.finished, { m with err := -ENOMEM }) else (.read m.size, m))
  | .read left, m =>
    if left = 0 then some (.finished, m)
    else (kernelRead a (min left PAGE_SIZE) m).map fun n =>
      if n ≤ 0 then (.finished, { m with err := if n ≠ 0 then n else -ENODATA })
      else (.read (left - n.toNat),
        { m with pipe := m.pipe.drop n.toNat, bad := m.bad + (m.pipe.take n.toNat).countP (· ≠ 0x78) })
  | .finished, _ => none

/-- `g591_reader_thread()` -/
inductive Reader
  | reading (r : Reading)
  | exit
  deriving DecidableEq

def readerThread (a : Answer) : Reader → Frame → Option (Reader × Frame)
  | .reading .finished, m => some (.exit, { m with done := m.done + 1 })
  | .reading r, m => (readFromPipe a r m).map fun x => (.reading x.1, x.2)
  | .exit, _ => none

/-! ## The test function -/

inductive Point
  | kmalloc
  | openFile
  | write
  | closeShort
  | createPipe
  | closeNoPipe
  | start
  -- the loop over what is left
  | splice (left : Nat)
  | reading (left n : Nat) (r : Reading)
  | closePipe1
  | wait
  | closePipe0
  | closeFile
  | expectErr
  | expectBad
  | unlink
  deriving DecidableEq

/-- Where the loop goes on with `left` bytes. -/
def loop (left : Nat) : Point := if left = 0 then .closePipe1 else .splice left

/-- What a step leads to: where the function goes on (`none` where it is left), the frame, and whether a check
failed. -/
structure Next where
  test : Option Point
  mem : Frame
  failed : Bool := false
  deriving DecidableEq

/-- `do_splice()` -/
def splice (v : Variant) (a : Answer) (left : Nat) (m : Frame) : Option Next :=
  -- without room it waits
  if v.capacity ≤ m.pipe.length then none
  else if a.ret ≤ 0 then some ⟨some .closePipe1, m, true⟩
  else if a.bytes.length = a.ret ∧ a.bytes.length ≤ min left (v.capacity - m.pipe.length) then
    let m := { m with pipe := m.pipe ++ a.bytes }
    if v.concurrent then some ⟨some (loop (left - a.bytes.length)), m, false⟩
    else some ⟨some (.reading left a.bytes.length .kmalloc), { m with size := a.bytes.length }, false⟩
  else none

/-- `g591_run()` -/
def code (v : Variant) (a : Answer) : Point → Frame → Option Next
  | .kmalloc, m => some (if a.ret ≤ 0 then ⟨none, m, true⟩ else ⟨some .openFile, m, false⟩)
  | .openFile, m => some (if a.isErr then ⟨none, m, true⟩ else ⟨some .write, m, false⟩)
  | .write, m => some ⟨some (if a.ret ≠ v.size then .closeShort else .createPipe), m, false⟩
  | .closeShort, m => some ⟨none, m, true⟩
  | .createPipe, m =>
    some (if a.ret ≠ 0 then ⟨some .closeNoPipe, m, false⟩
      else ⟨some (if v.concurrent then .start else loop v.size), { m with writer := true, done := 0 }, false⟩)
  | .closeNoPipe, m => some ⟨none, m, true⟩
  | .start, m =>
    some ⟨some (loop v.size), if a.isErr then { m with err := a.ret, done := m.done + 1 } else m, false⟩
  | .splice left, m => splice v a left m
  | .reading left n .finished, m => some ⟨some (if m.err ≠ 0 then .closePipe1 else loop (left - n)), m, false⟩
  | .reading left n r, m => (readFromPipe a r m).map fun x => ⟨some (.reading left n x.1), x.2, false⟩
  | .closePipe1, m => some ⟨some (if v.concurrent then .wait else .closePipe0), { m with writer := false }, false⟩
  | .wait, m => if m.done = 0 then none else some ⟨some .closePipe0, { m with done := m.done - 1 }, false⟩
  | .closePipe0, m => some ⟨some .closeFile, m, false⟩
  | .closeFile, m => some ⟨some .expectErr, m, false⟩
  | .expectErr, m => some ⟨some .expectBad, m, m.err != 0⟩
  | .expectBad, m => some ⟨some .unlink, m, m.bad != 0⟩
  | .unlink, m => some ⟨none, m, a.ret != 0⟩

/-! ## Both together -/

structure State where
  test : Option Point
  /-- `none` before the thread is started. -/
  reader : Option Reader
  mem : Frame
  failed : Bool
  deriving DecidableEq

def init (v : Variant) : State := ⟨some .kmalloc, none, ⟨[], false, v.size, 0, 0, 0⟩, false⟩

inductive Move
  | test (a : Answer)
  | reader (a : Answer)
  deriving DecidableEq

def step (v : Variant) (s : State) : Move → Option State
  | .test a => s.test.bind fun t => (code v a t s.mem).map fun r =>
      { test := r.test
        reader := if t = .start ∧ !a.isErr then some (.reading .kmalloc) else s.reader
        mem := r.mem
        failed := s.failed || r.failed }
  | .reader a => s.reader.bind fun u => (readerThread a u s.mem).map fun r =>
      { s with reader := some r.1, mem := r.2 }

end NfsPlayground.Races.G591
