import Mathlib.Logic.Function.Basic
import NfsPlayground.Lib.ErrChain

/-!
# The state of the loopback NFS fixture, and the kernel calls it makes

The static variables of `nfs_fixture.c`, and of the kernel what the fixture changes and later depends on: the mounts
stacked on each directory, the per-net nfsd service with its listeners, the loopback flag and the references held on
struct paths. Every kernel call takes its answer as an argument, so a statement for all answers covers every outcome.
Calls whose only effect is on kernel state that nothing here reads back (`mkdir`, `rmdir`, the sunrpc cache entries,
the nfsd version table, the grace period) are represented by their answers alone.
-/

namespace NfsPlayground.Fixture

open ErrChain

def EBUSY : Int := 16
def ENOENT : Int := 2
def ENOMEM : Int := 12
def EEXIST : Int := 17
def EINVAL : Int := 22

/-- The directories the fixture mounts on. -/
inductive Dir
  | xfsExport
  | xfsNfsdfs
  | xfsMnt
  | xfsScratchMnt
  | xfsHostbin
  deriving DecidableEq, Repr

/-- A C string: its bytes up to the terminating NUL. -/
structure CStr where
  bytes : List UInt8
  nonul : 0 ∉ bytes
  deriving DecidableEq

def CStr.ofString (s : String) : CStr := ⟨(s.toList.map (fun c => c.val.toUInt8)).filter (· ≠ 0), by simp⟩

/-- What `char xfs_export_mount_opts[64]` can hold. -/
structure OptsBuf where
  str : CStr
  fits : str.bytes.length < 64
  deriving DecidableEq

/-- `strscpy(xfs_export_mount_opts, src, sizeof(xfs_export_mount_opts))`: what does not fit is cut off. -/
def strscpy (src : CStr) : OptsBuf where
  str := ⟨src.bytes.take 63, fun h => src.nonul (List.mem_of_mem_take h)⟩
  fits := by
    rw [List.length_take]
    omega

def XFS_EXPORT_OPTS_DEFAULT : CStr := CStr.ofString "size=67108864,nr_inodes=32768"
def XFS_CLIENT_OPTS : CStr := CStr.ofString "addr=127.0.0.1,clientaddr=127.0.0.1,vers=4.2,sec=sys"

structure Mount where
  dev : String
  type : String
  opts : Option CStr
  deriving DecidableEq

/-- The per-net nfsd service: its permanent sockets and its thread count. -/
structure NfsdServ where
  listeners : List (String × Nat)
  threads : Nat
  deriving DecidableEq, Repr

structure Env where
  tmpfsMounted : Bool
  nfsdfsMounted : Bool
  nfsdUp : Bool
  clientMounted : Bool
  deriving DecidableEq, Repr

/-- What a public call did, in order. -/
inductive Event
  | bringup
  | teardown
  | mountAt (d : Dir) (m : Mount)
  deriving DecidableEq

/-- The identity of a `struct path`. -/
abbrev Path := Nat

structure State where
  -- the static variables
  refs : Int32  -- a C `int`; the kernel is built with wrapping signed arithmetic
  exportMountOpts : OptsBuf
  bringupRoot : Option Path
  env : Env
  hostbinMounted : Bool
  -- the kernel
  loUp : Bool
  /-- The mounts on a directory, the top one first. -/
  mounts : Dir → List Mount
  nfsdServ : Option NfsdServ
  /-- The references the fixture holds on a path. -/
  pathRefs : Path → Int
  /-- What the current public call did so far. -/
  log : List Event

/-- The module as loaded, in a kernel with no deployment. -/
def initial : State where
  refs := 0
  exportMountOpts := strscpy XFS_EXPORT_OPTS_DEFAULT
  bringupRoot := none
  env := ⟨false, false, false, false⟩
  hostbinMounted := false
  loUp := false
  mounts := fun _ => []
  nfsdServ := none
  pathRefs := fun _ => 0
  log := []

/-! ## Mounting -/

/-- The answers to one `xfs_mount_at()`. -/
structure MountAnswer where
  kstrdup : Bool
  kernPath : Int
  pathMount : Int

/-- What `xfs_mount_at()` returns. -/
def MountAnswer.err (a : MountAnswer) (opts : Option CStr) : Int :=
  if opts.isSome ∧ a.kstrdup = false then -ENOMEM
  else if a.kernPath ≠ 0 then a.kernPath
  else a.pathMount

def State.note (s : State) (e : Event) : State := { s with log := s.log ++ [e] }

/-- `m` attempted and mounted on `d`. -/
def State.mounted (s : State) (d : Dir) (m : Mount) : State :=
  { s with
    log := s.log ++ [.mountAt d m]
    mounts := Function.update s.mounts d (m :: s.mounts d) }

def xfsMountAt (a : MountAnswer) (d : Dir) (m : Mount) : Call State := fun s =>
  if a.err m.opts = 0 then (0, s.mounted d m) else (a.err m.opts, s.note (.mountAt d m))

/-! ## Unmounting, on the stack of mounts of one directory -/

/-- The answers to one `xfs_umount()`. -/
structure UmountAnswer where
  kernPath : Int
  pathUmount : Int

/-- What `xfs_umount()` returns where something is mounted. -/
def UmountAnswer.err (a : UmountAnswer) : Int := if a.kernPath ≠ 0 then a.kernPath else a.pathUmount

/-- `path_umount()`: on a directory that is not a mount point it is `-EINVAL`. -/
def pathUmount (answer : Int) : List Mount → Int × List Mount
  | [] => (-EINVAL, [])
  | m :: ms => if answer = 0 then (0, ms) else (answer, m :: ms)

def xfsUmount (a : UmountAnswer) : Call (List Mount) := fun ms =>
  if a.kernPath ≠ 0 then (a.kernPath, ms) else pathUmount a.pathUmount ms

/-- The answers to one `xfs_umount_settled()`: one per try, then the lazy detach. -/
structure SettleAnswer where
  tries : Nat → UmountAnswer
  detach : UmountAnswer

/-- The loop of `xfs_umount_settled()`, with `left` of its 20 tries left. -/
def umountTries (a : SettleAnswer) : (left : Nat) → Int → Call (List Mount)
  | 0, err, ms => (err, ms)
  | left + 1, err, ms =>
    if err = -EBUSY then
      umountTries a left (xfsUmount (a.tries (20 - (left + 1))) ms).1 (xfsUmount (a.tries (20 - (left + 1))) ms).2
    else (err, ms)

def xfsUmountSettled (a : SettleAnswer) : Call (List Mount) := fun ms =>
  let r := umountTries a 20 (-EBUSY) ms
  if r.1 = -EBUSY ∧ a.detach.kernPath = 0 then pathUmount a.detach.pathUmount r.2 else r

/-- The loop of `xfs_scratch_umount()`, with `left` of its 8 tries left. -/
def scratchTries (a : Nat → SettleAnswer) : (left : Nat) → Int → Call (List Mount)
  | 0, err, ms => (err, ms)
  | left + 1, err, ms =>
    if err = 0 then
      scratchTries a left (xfsUmountSettled (a (8 - (left + 1))) ms).1 (xfsUmountSettled (a (8 - (left + 1))) ms).2
    else (err, ms)

def xfsScratchUmount (a : Nat → SettleAnswer) : Call (List Mount) := fun ms =>
  let r := scratchTries a 8 0 ms
  (if r.1 = -EINVAL ∨ r.1 = -ENOENT then 0 else r.1, r.2)

/-- An unmount on the directory `d`. -/
def State.umountAt (s : State) (d : Dir) (f : Call (List Mount)) : State :=
  { s with mounts := Function.update s.mounts d (f (s.mounts d)).2 }

/-! ## The nfsd service -/

/-- Creates the per-net service if it is absent. -/
def nfsdCreateServ (answer : Int) : Call (Option NfsdServ)
  | some v => (0, some v)
  | none => if answer < 0 then (answer, none) else (0, some ⟨[], 0⟩)

/-- Adds a listener to the service; it returns the local port. -/
def svcXprtCreate (answer : Int) (proto : String) : Call (Option NfsdServ) := fun serv =>
  if answer < 0 then (answer, serv)
  else (answer, serv.map fun v => { v with listeners := v.listeners ++ [(proto, 2049)] })

/-- `nfsd_svc()`: with no threads it destroys the service, and so it does when it fails to start the threads. -/
def nfsdSvc (nthreads : Nat) (answer : Int) : Call (Option NfsdServ) := fun serv =>
  if nthreads = 0 ∨ answer < 0 then (answer, none)
  else (answer, serv.map fun v => { v with threads := nthreads })

end NfsPlayground.Fixture
