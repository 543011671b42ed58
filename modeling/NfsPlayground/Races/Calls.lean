import NfsPlayground.Lib.Lines
import NfsPlayground.Lib.Posix
import NfsPlayground.Lib.Threads
import Mathlib.Algebra.Group.Int.Defs
import Mathlib.Algebra.Group.Nat.Defs

/-!
# The calls of the two-thread ports

The ports generic/028, 084, 310, 364 and 438 start kernel threads whose argument is a struct on the stack of the test
function. A port is a `Threads.Program`: one program point for each statement that calls something, checks something
or writes the frame. What a call answers is an input, so a statement for all answers covers every outcome.
-/

namespace NfsPlayground.Races

open Lines Threads

/-- The names on the way from the root. -/
abbrev Path := List Text

/-- `XFS_MNT` -/
def XFS_MNT : Path := [['m', 'n', 't'], ['n', 'f', 's']]

/-- `XFS_EXPORT`, the server's side of `XFS_MNT` -/
def XFS_EXPORT : Path := [['e', 'x', 'p', 'o', 'r', 't']]

/-- `%d` and `%lu` of a number that is not negative -/
def decimal (n : Nat) : Text := Nat.toDigits 10 n

theorem decimal_inj {m n : Nat} (h : decimal m = decimal n) : m = n := by
  have hm : Nat.ofDigitChars 10 (decimal m) 0 = m := Nat.ofDigitChars_ten_toDigits
  have hn : Nat.ofDigitChars 10 (decimal n) 0 = n := Nat.ofDigitChars_ten_toDigits
  rw [← hm, h, hn]

def EIO : Int := 5
def ENOMEM : Int := 12

inductive Call
  | mounted
  | addAction
  | kthreadRun
  | kmalloc (size : Nat)
  /-- `wait_for_completion_timeout()`: the answer is `0` once the time is over -/
  | waitTimeout
  -- by path
  | mkdir (path : Path)
  | unlink (path : Path)
  | link (oldpath newpath : Path)
  | rename (old new : Path)
  | exists (path : Path)
  /-- `filp_open()` with `O_CREAT | O_TRUNC` -/
  | create (path : Path)
  | filpOpen (path : Path)
  | readRange (path : Path) (len off : Nat)
  | kernPath (path : Path)
  | dPath (p : Nat)
  -- by file
  | kernelWrite (f : Int) (data : List UInt8) (pos : Nat)
  | directWrite (f : Int) (data : List UInt8) (pos : Nat)
  | kernelRead (f : Int) (len pos : Nat)
  | directRead (f : Int) (len pos : Nat)
  | fsync (f : Int)
  | fallocate (f : Int) (offset len : Nat)
  | ftruncate (f : Int) (len : Nat)
  | filpClose (f : Int)
  -- by address
  | mmap (f : Int) (len : Nat)
  | munmap (addr : Int) (len : Nat)
  | copyToUser (addr : Int) (offset : Nat) (data : List UInt8)
  | copyFromUser (addr : Int) (offset len : Nat)
  deriving DecidableEq

/-- What a call gives back: an error is negative, a pointer and a file are numbers that are not. -/
structure Answer where
  ret : Int
  bytes : List UInt8 := []
  text : Text := []
  /-- The `struct path` that was filled in. -/
  path : Nat := 0
  deriving DecidableEq

instance : Inhabited Answer := ⟨⟨0, [], [], 0⟩⟩

/-- `IS_ERR()` of the pointer a call gives back -/
def Answer.isErr (a : Answer) : Bool := a.ret < 0

section Ops

variable {T M : Type}

/-- `KUNIT_ASSERT_EQ(test, call, 0)` -/
def assertZero (c : M → Call) (next : T) : Op T M Call Answer := .assert c (fun a => a.ret == 0) next

/-- `KUNIT_EXPECT_EQ(test, call, 0)` -/
def expectZero (c : M → Call) (next : T) : Op T M Call Answer := .expectCall c (fun a => a.ret == 0) next

/-- `KUNIT_ASSERT_FALSE(test, IS_ERR(f))` of the file a call gives back -/
def assertFile (c : M → Call) (store : Int → M → M) (next : T) : Op T M Call Answer :=
  .assertStore c (fun a => !a.isErr) (fun a => store a.ret) next

/-- The write of `xfs_write_new_file()`, for one byte: what is not positive comes back as an error. -/
def assertWritten (f : M → Int) (data : List UInt8) (next : T) : Op T M Call Answer :=
  .assert (fun m => .kernelWrite (f m) data 0) (fun a => 0 < a.ret) next

/-- `KUNIT_ASSERT_NOT_ERR_OR_NULL(test, kunit_kmalloc(...))` -/
def assertKmalloc (size : Nat) (next : T) : Op T M Call Answer :=
  .assert (fun _ => .kmalloc size) (fun a => 0 < a.ret) next

end Ops

/-- An increment of an `unsigned long`. -/
def incr (n : Nat) : Nat := (n + 1) % 2 ^ 64

end NfsPlayground.Races
