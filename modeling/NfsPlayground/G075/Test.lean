import NfsPlayground.Lib.Bytes

/-!
# The mini-fsx of generic/075

The test case `fsx_shadow_model_stays_in_sync` from its loop on. What the loop draws and what the file system answers
are inputs, so that a run is a list of draws with their answers. An assertion that fails ends the test case, an access
outside the shadow buffer is a fault, and a mismatch only marks the test as failed.
-/

namespace NfsPlayground.G075

open Bytes

def G075_MAXSZ : Nat := 256 * 1024

/-- How a test case can end early. -/
inductive Stop
  | assertion
  | outOfBounds
  deriving DecidableEq

structure Test where
  /-- `g075_shadow` -/
  shadow : Buf G075_MAXSZ
  /-- `g075_size` -/
  size : Nat
  /-- An expectation has failed. -/
  failed : Bool

/-- The shadow is allocated zeroed, and the file has just been created. -/
def Test.start : Test := ⟨Vector.replicate _ 0, 0, false⟩

/-! ## The draws of the loop -/

inductive Kind
  | pwrite
  | truncate
  | punch
  | verify
  deriving DecidableEq

/-- `switch (r % 10)` -/
def Kind.ofDigit (digit : Nat) : Kind :=
  if digit < 4 then .pwrite
  else if digit < 6 then .truncate
  else if digit = 6 then .punch
  else .verify

/-- What one pass of the loop draws: any kind, any offset below the size limit, any positive length. -/
structure Draw where
  kind : Kind
  off : Nat
  drawn : Nat
  off_lt : off < G075_MAXSZ
  drawn_pos : 0 < drawn

/-- The draw that two random words give. -/
def Draw.ofWords (r r' : UInt32) : Draw where
  kind := .ofDigit (r.toNat % 10)
  off := r.toNat / 256 % G075_MAXSZ
  drawn := 1 + r'.toNat % 32768
  off_lt := Nat.mod_lt _ (by decide)
  drawn_pos := by omega

/-- The length, cut off at the size limit. -/
def Draw.len (d : Draw) : Nat := if d.off + d.drawn > G075_MAXSZ then G075_MAXSZ - d.off else d.drawn

/-- What the file system answers: the return value, and after a read what the read buffer holds. -/
structure Answer where
  ret : Int
  buf : Nat → UInt8

/-! ## One operation -/

def inBounds : Option (Buf G075_MAXSZ) → Except Stop (Buf G075_MAXSZ)
  | some v => .ok v
  | none => .error .outOfBounds

/-- `if (off > g075_size) memset(g075_shadow + g075_size, 0, off - g075_size);` -/
def zeroHole (t : Test) (off : Nat) : Except Stop (Buf G075_MAXSZ) :=
  if off > t.size then inBounds (Buf.memset t.shadow t.size (off - t.size) 0) else .ok t.shadow

/-- The byte that operation `op` writes at `buf[i]`. -/
def written (op off i : Nat) : UInt8 := UInt8.ofNat (op ^^^ (off + i))

/-- The comparison loop, from `buf[i]` on, with `left` bytes left. -/
def compareBuf (shadow : Buf G075_MAXSZ) (off : Nat) (buf : Nat → UInt8) : (i left : Nat) → Except Stop Bool
  | _, 0 => .ok true
  | i, left + 1 =>
    match shadow[off + i]? with
    | none => .error .outOfBounds
    | some b => if buf i ≠ b then .ok false else compareBuf shadow off buf (i + 1) left

def verifyRange (a : Answer) (off len : Nat) (t : Test) : Except Stop Test :=
  if off ≥ t.size then .ok t
  else
    let len := if off + len > t.size then t.size - off else len
    if a.ret ≠ len then .error .assertion
    else do
      let same ← compareBuf t.shadow off a.buf 0 len
      return if same then t else { t with failed := true }

/-- Pass `op` of the loop. -/
def step (op : Nat) (d : Draw) (a : Answer) (t : Test) : Except Stop Test :=
  match d.kind with
  | .pwrite =>
    if a.ret ≠ d.len then .error .assertion
    else do
      let shadow ← zeroHole t d.off
      let shadow ← inBounds (Buf.store shadow d.off d.len (written op d.off))
      return { t with shadow := shadow, size := if d.off + d.len > t.size then d.off + d.len else t.size }
  | .truncate =>
    if a.ret ≠ 0 then .error .assertion
    else do
      let shadow ← zeroHole t d.off
      return { t with shadow := shadow, size := d.off }
  | .punch =>
    if a.ret = 0 ∧ d.off < t.size then do
      let shadow ← inBounds (Buf.memset t.shadow d.off (min d.len (t.size - d.off)) 0)
      return { t with shadow := shadow }
    else .ok t
  | .verify => verifyRange a d.off d.len t

/-! ## The whole test -/

/-- The passes of the loop from pass `op` on. -/
def loop (op : Nat) : List (Draw × Answer) → Test → Except Stop Test
  | [], t => .ok t
  | (d, a) :: trace, t =>
    match step op d a t with
    | .ok t => loop (op + 1) trace t
    | .error stop => .error stop

/-- The answers of the final checks. -/
structure Final where
  kstat : Int
  kstSize : Int
  read : Answer

def finalCheck (fin : Final) (t : Test) : Except Stop Test :=
  if fin.kstat ≠ 0 then .error .assertion
  else verifyRange fin.read 0 t.size (if fin.kstSize ≠ t.size then { t with failed := true } else t)

def fsxTest (trace : List (Draw × Answer)) (fin : Final) : Except Stop Test := do
  let t ← loop 0 trace .start
  finalCheck fin t

/-- The test ended, and nothing marked it as failed. -/
def Passes (r : Except Stop Test) : Prop := ∃ t, r = .ok t ∧ t.failed = false

end NfsPlayground.G075
