import NfsPlayground.Ci.Exports
import NfsPlayground.Ci.Sizing
import NfsPlayground.Lib.Resume
import Mathlib.Tactic.Simps.Basic

/-!
# What the CI script does to the machine it runs on

`scripts/00-run-xfstests-on-gh-ci.sh` makes two images with a file system each, mounts them, writes their exports, turns
off leases if it is told so, and takes all of it back in a teardown that is run when it exits, also where a signal makes
it exit. It can be killed at any point, and be started again on what a killed run has left.

How the commands of a run end, and what `check` leaves mounted, is an input.
-/

namespace NfsPlayground.Ci.Setup

open Lines Resume

/-- The two exports. -/
inductive Name
  | test
  | scratch
  deriving DecidableEq

def names : List Name := [.test, .scratch]

/-- An image file, and the file system in it if one has been made. -/
structure Img where
  bytes : Nat
  fs : Option Nat
  deriving DecidableEq

structure Machine where
  /-- `/etc/exports` -/
  exports : Option Text
  /-- What knfsd exports, which is what was in `/etc/exports` at the last `exportfs -ra`. -/
  table : Option Text
  img : Name → Option Img
  /-- The file systems mounted at `${NFS_LOOPBACK_BASE}/${name}`, the topmost first. -/
  mounted : Name → List Nat
  /-- How many mounts are at `TEST_MNT` and at `SCRATCH_MNT`. -/
  client : Name → Nat
  /-- Mounts at directories made for a probe. -/
  probes : Nat
  /-- `fs.leases-enable` -/
  leases : Bool
  /-- File systems made so far. -/
  made : Nat
  /-- The variable of the script that runs. -/
  saved_leases : Option Bool

namespace Machine

variable (m : Machine) (name : Name)

@[simps] def setMounted (l : List Nat) : Machine := { m with mounted := Function.update m.mounted name l }

@[simps] def setImg (img : Option Img) : Machine := { m with img := Function.update m.img name img }

@[simps] def setClient (n : Nat) : Machine := { m with client := Function.update m.client name n }

@[simps] def setExports (exports : Option Text) : Machine := { m with exports := exports }

@[simps] def setLeases (leases : Bool) : Machine := { m with leases := leases }

/-- As a run begins. -/
def begin : Machine := { m with saved_leases := none }

/-- `exportfs -ra` -/
@[simps] def exportfs : Machine := { m with table := m.exports }

/-- The file system that `mkfs.xfs` makes is one that was not there before. -/
@[simps] def mkfs (img_bytes : Nat) : Machine :=
  { m with img := Function.update m.img name (some ⟨img_bytes, some m.made⟩), made := m.made + 1 }

/-- `mount -o loop` of the file system in the image. -/
def mountImage : Machine :=
  match (m.img name).bind Img.fs with
  | some fs => m.setMounted name (fs :: m.mounted name)
  | none => m

end Machine

/-- How the commands of a run end. -/
structure Answers where
  loopback : Loopback
  sizes : Sizes
  /-- `NFS_DELEGATIONS` is 0. -/
  noDelegations : Bool
  /-- What comes before the trap is set succeeds. -/
  early : Bool
  nfsd : Bool
  mkdir : Bool
  umount : Name → Bool
  truncate : Name → Bool
  mkfs : Name → Bool
  mount : Name → Bool
  chmod : Name → Bool
  sed : Bool
  tee : Bool
  cat : Bool
  echo : Bool
  /-- Starting the server exports what is in `/etc/exports`. -/
  serverExports : Bool
  server : Bool
  exportfs : Bool
  probeMount : Bool
  probeTouch : Bool
  probeUmount : Bool
  build : Bool
  config : Bool
  /-- What `check` mounts and unmounts. -/
  check : List (Name → Nat)
  /-- After how many edits the script is interrupted, if it is. -/
  interrupt : Option Nat
  teardownClient : Name → Bool
  teardownSed : Bool
  teardownExportfs : Bool
  teardownUmount : Name → Bool
  teardownRm : Name → Bool
  teardownEcho : Bool

variable (a : Answers)

/-- `umount`, which is tried again with `-l`, where something is mounted. -/
def umountBase (name : Name) (ok : Bool) (failed : Script Machine) : Script Machine :=
  branch (fun m => m.mounted name ≠ [])
    (if ok then edit fun m => m.setMounted name (m.mounted name).tail else failed)
    skip

/-! ## Setup -/

/-- A file system in an image, mounted. -/
def setupImage (img_bytes : Nat) (name : Name) : Script Machine :=
  seq (umountBase name (a.umount name) die)
  (seq (edit fun m => m.setImg name none)
  (seq (cmd (a.truncate name) fun m => m.setImg name (some ⟨img_bytes, none⟩))
  (seq (cmd (a.mkfs name) fun m => m.mkfs name img_bytes)
  (seq (cmd (a.mount name) fun m => m.mountImage name)
  (orDie (a.chmod name))))))

def setupImages : Script Machine :=
  match sizing a.sizes with
  | some img_bytes => loop (setupImage a img_bytes.toNat) names
  | none => die

/-- `sed -i ... /etc/exports 2>/dev/null || true`, which goes on where `sed` fails. -/
def deleteExports (ok : Bool) : Script Machine := if ok then edit fun m => m.setExports (deleteOwn m.exports) else skip

def writeExports : Script Machine :=
  seq (deleteExports a.sed) (cmd a.tee fun m => m.setExports (appendOwn a.loopback m.exports))

def disableLeases : Script Machine :=
  if a.noDelegations then
    seq (cmd a.cat fun m => { m with saved_leases := some m.leases }) (cmd a.echo fun m => m.setLeases false)
  else skip

def startServer : Script Machine := seq (if a.serverExports then edit Machine.exportfs else skip) (orDie a.server)

def umountProbe : Script Machine := cmd a.probeUmount fun m => { m with probes := m.probes - 1 }

/-- The probe of the test export. -/
def probe : Script Machine :=
  seq (cmd a.probeMount fun m => { m with probes := m.probes + 1 })
    (if a.probeTouch then umountProbe a else seq (umountProbe a) die)

/-- The script from its trap on, up to where it runs xfstests. -/
def prepare : Script Machine :=
  seq (orDie a.nfsd)
  (seq (orDie a.mkdir)
  (seq (setupImages a)
  (seq (writeExports a)
  (seq (disableLeases a)
  (seq (startServer a)
  (seq (cmd a.exportfs Machine.exportfs)
  (seq (probe a)
  (seq (orDie a.build) (orDie a.config)))))))))

def check : Script Machine := loop (fun client => edit fun m => { m with client := client }) a.check

/-! ## Teardown -/

def umountClient (name : Name) : Script Machine :=
  branch (fun m => m.client name ≠ 0)
    (if a.teardownClient name then edit fun m => m.setClient name (m.client name - 1)
    else skip)
    skip

def removeImage (name : Name) : Script Machine :=
  seq (umountBase name (a.teardownUmount name) skip)
    (if a.teardownRm name then edit fun m => m.setImg name none else skip)

def restoreLeases : Script Machine :=
  reading Machine.saved_leases fun
    | some saved => if a.teardownEcho then edit fun m => m.setLeases saved else skip
    | none => skip

def teardown : Script Machine :=
  seq (loop (umountClient a) names)
  (seq (deleteExports a.teardownSed)
  (seq (if a.teardownExportfs then edit Machine.exportfs else skip)
  (seq (loop (removeImage a) names)
  (restoreLeases a))))

/-- A run of the script. -/
def run : Script Machine :=
  seq (edit Machine.begin)
  (seq (orDie a.early) (trapped (cut a.interrupt (seq (prepare a) (check a))) (teardown a)))

/-- What runs leave of a machine, each of them killed at some point or not at all. -/
inductive Left (ok : Answers → Prop) (m₀ : Machine) : Machine → Prop
  | untouched : Left ok m₀ m₀
  | run {m m' : Machine} (a : Answers) : Left ok m₀ m → ok a → m' ∈ states (run a) m → Left ok m₀ m'

end NfsPlayground.Ci.Setup
