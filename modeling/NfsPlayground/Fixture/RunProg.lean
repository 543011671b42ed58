import NfsPlayground.Lib.Procs
import NfsPlayground.Lib.PyText
import Mathlib.Algebra.Group.Int.Defs
import Mathlib.Algebra.Group.Nat.Defs
import Mathlib.Data.Fintype.Card

/-!
# Programs that are run by several threads at once

`xfs_run_prog()` mounts hostfs when the first caller needs it, takes the name of a log from a counter, has the program
run and removes the log. Every call is a process; what mkdir, mount, the allocations, the helper and the program answer
is an input of the step that asks. -/

namespace NfsPlayground.Fixture.RunProg

open Lines Procs Runs

def ENOENT : Int := 2
def ENOMEM : Int := 12
def EEXIST : Int := 17

/-- A 32-bit `int`. -/
def toInt (n : Int) : Int := Int.bmod n (2 ^ 32)

/-- `/xfstests-prog-%d.log` -/
def logPath (seq : Int) : Text := "/xfstests-prog-".toList ++ PyText.intText seq ++ ".log".toList

/-- Where a call is; the number is that of its log. -/
inductive At
  | entry
  | lock
  | test
  | mkdir
  | mount
  | setMounted (err : Int)
  | unlock (err : Int)
  | kcalloc
  | number (argv : Bool)
  | kasprintf (argv : Bool) (seq : Int)
  | argv0 (seq : Int)
  | setup (seq : Int)
  | exec (seq : Int)
  /-- The helper is in `xfs_prog_init()`. -/
  | progInit (seq : Int)
  | execve (seq : Int)
  /-- The program runs. -/
  | running (seq : Int)
  | dumpLog (seq ret : Int)
  | unlink (seq ret : Int)
  | out (ret : Int)
  | returned (ret : Int)
  deriving DecidableEq

/-- The outcome of what a step asks for: `0` or an errno, or the wait status of the program; and whether there is
memory. -/
structure Answer where
  err : Int
  memory : Bool

/-- What the calls share. -/
structure Shared (n : Nat) where
  /-- The owner of `xfs_hostbin_lock`. -/
  lock : Option (Fin n)
  /-- `xfs_hostbin_mounted` -/
  mounted : Bool
  /-- The hostfs mounts on `XFS_HOSTBIN`, one on top of the other. -/
  mounts : Nat
  /-- `xfs_prog_seq` -/
  seq : Int
  /-- The logs that exist. -/
  logs : List Text

/-- `xfs_mkdir_tolerant()` -/
def mkdirTolerant (err : Int) : Int := if err = - EEXIST then 0 else err

/-- A wait status becomes an exit status, or 128 and the signal. -/
def exitStatus (ret : Int) : Int :=
  if 0 < ret then (if ret % 128 ≠ 0 then 128 + ret % 128 else ret / 256 % 256) else ret

/-- After `call_usermodehelper_exec()`. -/
def ended (seq ret : Int) : At :=
  if exitStatus ret ≠ 0 then .dumpLog seq (exitStatus ret) else .unlink seq (exitStatus ret)

variable {n : Nat}

/-- The step of the call `me`; `hostbin` says that the module parameter is set. -/
def next (hostbin : Bool) (me : Fin n) (m : Shared n) : At → Answer → Shared n × At
  | .entry, _ => (m, if hostbin then .lock else .returned (- ENOENT))
  | .lock, _ => if m.lock = none then ({ m with lock := some me }, .test) else (m, .lock)
  | .test, _ => (m, if m.mounted then .unlock 0 else .mkdir)
  | .mkdir, a => (m, if mkdirTolerant a.err = 0 then .mount else .setMounted (mkdirTolerant a.err))
  | .mount, a => (if a.err = 0 then { m with mounts := m.mounts + 1 } else m, .setMounted a.err)
  | .setMounted err, _ => ({ m with mounted := decide (err = 0) }, .unlock err)
  | .unlock err, _ => ({ m with lock := none }, if err = 0 then .kcalloc else .returned err)
  | .kcalloc, a => (m, .number a.memory)
  | .number argv, _ => ({ m with seq := toInt (m.seq + 1) }, .kasprintf argv (toInt (m.seq + 1)))
  | .kasprintf argv seq, a => (m, if argv && a.memory then .argv0 seq else .out (- ENOMEM))
  | .argv0 seq, a => (m, if a.memory then .setup seq else .out (- ENOMEM))
  | .setup seq, a => (m, if a.memory then .exec seq else .out (- ENOMEM))
  | .exec seq, a => (m, if a.err = 0 then .progInit seq else ended seq a.err)
  | .progInit seq, a =>
    -- the open creates the log, or fails
    if a.err = 0 then ({ m with logs := logPath seq :: m.logs }, .execve seq) else (m, ended seq a.err)
  | .execve seq, a => (m, if a.err = 0 then .running seq else ended seq a.err)
  | .running seq, a => (m, ended seq a.err)
  | .dumpLog seq ret, _ => (m, .unlink seq ret)
  | .unlink seq ret, _ => ({ m with logs := m.logs.filter (· ≠ logPath seq) }, .out ret)
  | .out ret, _ => (m, .returned ret)
  | .returned ret, _ => (m, .returned ret)

/-- No call has begun, and hostfs is mounted if the flag says so. -/
def start (mounted : Bool) (seq : Int) (logs : List Text) : Procs.State (Fin n) (Shared n) At :=
  ⟨⟨none, mounted, if mounted then 1 else 0, seq, logs⟩, fun _ => .entry⟩

/-- The state after the steps of a run. -/
def run (hostbin mounted : Bool) (seq : Int) (logs : List Text) (steps : List (Fin n × Answer)) :
    Procs.State (Fin n) (Shared n) At :=
  Runs.exec (Procs.step (next hostbin)) (start mounted seq logs) steps

end NfsPlayground.Fixture.RunProg
