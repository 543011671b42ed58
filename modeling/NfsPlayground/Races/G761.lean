import NfsPlayground.Lib.Blocking
import Mathlib.Logic.Function.Basic

/-!
# generic/761: writes from a buffer another thread is changing

`dio_write_from_a_changing_buffer()` and its thread `g761_modify()`, which clears the buffer once for each time it is
signalled. A completion is a counter that `complete()` raises and `wait_for_completion()` lowers, and waits for while it
is zero. A `memset()` goes byte by byte, so that the other thread may come in between.
-/

namespace NfsPlayground.Races.G761

/-- What a call answers, with what it fills in. -/
structure Answer where
  ret : Int
  /-- `sfs.f_frsize` -/
  frsize : Nat := 0
  /-- What the memory of `kmalloc()` holds. -/
  memory : Nat → UInt8 := fun _ => 0
  bytes : List UInt8 := []

/-- `IS_ERR()` -/
def Answer.isErr (a : Answer) : Bool := a.ret < 0

def G761_READ : Nat := 1024 * 1024

structure Frame where
  f : Int
  -- `struct g761_modifier`
  buf : Nat → UInt8
  blocksize : Nat
  stop : Bool
  go : Nat
  done : Nat

/-! ## The modifier -/

inductive Modifying
  | wait
  | readStop
  | clear (i : Nat)
  | complete
  | lastComplete
  | exit
  deriving DecidableEq

/-- `complete()` -/
def complete (n : Nat) : Nat := n + 1

/-- `wait_for_completion()`: no step is made while the count is zero. -/
def wait : Nat → Option Nat
  | 0 => none
  | n + 1 => some n

/-- `g761_modify()` -/
def modify : Modifying → Frame → Option (Modifying × Frame)
  | .wait, m => (wait m.go).map fun n => (.readStop, { m with go := n })
  | .readStop, m => some (if m.stop then .lastComplete else .clear 0, m)
  | .clear i, m =>
    if i < m.blocksize then some (.clear (i + 1), { m with buf := Function.update m.buf i 0x00 })
    else some (.complete, m)
  | .complete, m => some (.wait, { m with done := complete m.done })
  | .lastComplete, m => some (.exit, { m with done := complete m.done })
  | .exit, _ => none

/-! ## The test function -/

inductive Point
  | mounted
  | mkdir
  | addAction
  | statfs
  | assertSize
  | kmalloc
  | openFile
  | init
  | start
  | closeRefused
  -- the loop over the blocks
  | head (filepos : Nat)
  | fill (filepos i : Nat)
  | go (filepos : Nat)
  | write (filepos : Nat)
  | wait (filepos : Nat) (n : Int)
  | check (filepos : Nat) (n : Int)
  | setStop
  | lastGo
  | lastWait
  | close
  -- the read-back
  | kmallocRead
  | readHead (off : Nat)
  | read (off : Nat)
  deriving DecidableEq

/-- The function goes on, or is left; the flag says that a check failed. -/
inductive Next
  | to (t : Point) (failed : Bool)
  | leave (failed : Bool)

/-- An assertion. -/
def assert (holds : Bool) (t : Point) : Next := if holds then .to t false else .leave true

/-- `dio_write_from_a_changing_buffer()` for a file of `size` bytes; `a` is what the call at the point answers. -/
def code (size : Nat) (a : Answer) : Point → Frame → Option (Next × Frame)
  | .mounted, m => some (assert (a.ret != 0) .mkdir, m)
  | .mkdir, m => some (assert (a.ret == 0) .addAction, m)
  | .addAction, m => some (assert (a.ret == 0) .statfs, m)
  | .statfs, m => some (assert (a.ret == 0) .assertSize, { m with blocksize := a.frsize })
  | .assertSize, m => some (assert (0 < m.blocksize) .kmalloc, m)
  | .kmalloc, m => some (assert (0 < a.ret) .openFile, { m with buf := a.memory })
  | .openFile, m => some (assert (!a.isErr) .init, { m with f := a.ret })
  | .init, m => some (.to .start false, { m with go := 0, done := 0 })
  | .start, m => some (if a.isErr then .to .closeRefused false else .to (.head 0) false, m)
  | .closeRefused, m => some (.leave true, m)
  | .head filepos, m => some (.to (if filepos < size then .fill filepos 0 else .setStop) false, m)
  | .fill filepos i, m =>
    if i < m.blocksize then some (.to (.fill filepos (i + 1)) false, { m with buf := Function.update m.buf i 0xff })
    else some (.to (.go filepos) false, m)
  | .go filepos, m => some (.to (.write filepos) false, { m with go := complete m.go })
  | .write filepos, m => some (.to (.wait filepos a.ret) false, m)
  | .wait filepos n, m => (wait m.done).map fun d => (.to (.check filepos n) false, { m with done := d })
  | .check filepos n, m =>
    some (if n ≠ m.blocksize then .to .setStop true else .to (.head (filepos + m.blocksize)) false, m)
  | .setStop, m => some (.to .lastGo false, { m with stop := true })
  | .lastGo, m => some (.to .lastWait false, { m with go := complete m.go })
  | .lastWait, m => (wait m.done).map fun d => (.to .close false, { m with done := d })
  | .close, m => some (.to .kmallocRead false, m)
  | .kmallocRead, m => some (assert (0 < a.ret) (.readHead 0), m)
  | .readHead off, m => some (if off < size then .to (.read off) false else .leave false, m)
  | .read off, m =>
    some (if a.ret ≠ G761_READ ∨ ∃ b ∈ a.bytes, b ≠ 0xff ∧ b ≠ 0x00 then .leave true
      else .to (.readHead (off + G761_READ)) false, m)

/-! ## Both together -/

/-- `modifier` is `none` before the thread is started; `begun` and `cleared` count the blocks whose loop body was
entered and the times the whole buffer was cleared. -/
structure State where
  test : Option Point
  modifier : Option Modifying
  mem : Frame
  failed : Bool
  begun : Nat
  cleared : Nat

def init : State := ⟨some .mounted, none, ⟨0, fun _ => 0, 0, false, 0, 0⟩, false, 0, 0⟩

/-- A block is begun where the loop goes on to its body. -/
def countBegun (n : Nat) : Point → Option Point → Nat
  | .head _, some (.fill _ _) => n + 1
  | _, _ => n

/-- The buffer is cleared where the `memset()` is over. -/
def countCleared (n : Nat) : Modifying → Modifying → Nat
  | .clear _, .complete => n + 1
  | _, _ => n

def Next.point : Next → Option Point
  | .to t _ => some t
  | .leave _ => none

def Next.failed : Next → Bool
  | .to _ failed => failed
  | .leave failed => failed

def testStep (size : Nat) (a : Answer) (s : State) : Option State :=
  s.test.bind fun t => (code size a t s.mem).map fun r =>
    { test := r.1.point
      modifier := if t = .start ∧ !a.isErr then some .wait else s.modifier
      mem := r.2
      failed := s.failed || r.1.failed
      begun := countBegun s.begun t r.1.point
      cleared := s.cleared }

def modifierStep (s : State) : Option State :=
  s.modifier.bind fun w => (modify w s.mem).map fun r =>
    { s with
      modifier := some r.1
      mem := r.2
      cleared := countCleared s.cleared w r.1 }

/-- A move of the test function, with the answer to its call, or of the modifier (`none`). -/
def step (size : Nat) (s : State) : Option Answer → Option State
  | some a => testStep size a s
  | none => modifierStep s

end NfsPlayground.Races.G761
