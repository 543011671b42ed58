import NfsPlayground.Lib.Runs
import NfsPlayground.Fixture.State

/-!
# Bring-up, teardown and the reference count

`xfsBringup` and `xfsTeardown` as the source has them, then the three public calls as one step function. The answers
of the kernel are grouped by the function that asks for them.
-/

namespace NfsPlayground.Fixture

open ErrChain

/-! ## Bring-up -/

/-- The answers to one `xfs_cache_line()`. -/
structure CacheAnswer where
  kvasprintf : Bool
  parse : Int

def CacheAnswer.err (a : CacheAnswer) : Int := if a.kvasprintf then a.parse else -ENOMEM

structure NfsdAnswer where
  createServ : Int
  udp : Int
  tcp : Int
  svc : Int

structure BringupAnswer where
  devChangeFlags : Int
  mkdirExport : Int
  mkdirMntParent : Int
  mkdirMnt : Int
  mkdirNfsdfs : Int
  tmpfs : MountAnswer
  nfsdfs : MountAnswer
  ipMap : CacheAnswer
  svcExport : CacheAnswer
  expkey : CacheAnswer
  nfsd : NfsdAnswer
  client : MountAnswer
  /-- `current->fs->root` of the calling thread. -/
  root : Path

/-- Every call of the bring-up succeeds. -/
def BringupAnswer.ok : BringupAnswer where
  devChangeFlags := 0
  mkdirExport := 0
  mkdirMntParent := 0
  mkdirMnt := 0
  mkdirNfsdfs := 0
  tmpfs := ⟨true, 0, 0⟩
  nfsdfs := ⟨true, 0, 0⟩
  ipMap := ⟨true, 0⟩
  svcExport := ⟨true, 0⟩
  expkey := ⟨true, 0⟩
  nfsd := ⟨0, 2049, 2049, 1⟩
  client := ⟨true, 0, 0⟩
  root := 0

/-- An assignment, which cannot fail. -/
def assign (f : State → State) : Call State := fun s => (0, f s)

def xfsLoopbackUp (answer : Int) : Call State := fun s =>
  if s.loUp then (0, s) else (answer, { s with loUp := answer = 0 })

def xfsMkdirTolerant (answer : Int) : Call State := fun s => (if answer = -EEXIST then 0 else answer, s)

def xfsCacheLine (a : CacheAnswer) : Call State := fun s => (a.err, s)

def xfsConfigureExports (ipMap svcExport expkey : CacheAnswer) : Call State :=
  chain [xfsCacheLine ipMap, xfsCacheLine svcExport, xfsCacheLine expkey]

def tmpfsMount (s : State) : Mount := ⟨"none", "tmpfs", some s.exportMountOpts.str⟩
def nfsdfsMount : Mount := ⟨"nfsd", "nfsd", none⟩
def clientMount : Mount := ⟨"127.0.0.1:/", "nfs4", some XFS_CLIENT_OPTS⟩

/-- `xfs_mount_at("none", XFS_EXPORT, "tmpfs", xfs_export_mount_opts)` -/
def mountExport (a : MountAnswer) : Call State := fun s => xfsMountAt a .xfsExport (tmpfsMount s) s

/-- Every stage runs unless the one before it returned a negative value. -/
def xfsStartNfsd (a : NfsdAnswer) : Call (Option NfsdServ) := fun serv =>
  let r := nfsdCreateServ a.createServ serv
  let r := if 0 ≤ r.1 then svcXprtCreate a.udp "udp" r.2 else r
  let r := if 0 ≤ r.1 then svcXprtCreate a.tcp "tcp" r.2 else r
  let r := if 0 ≤ r.1 then nfsdSvc 1 a.svc r.2 else r
  if r.1 < 0 then r else (0, r.2)

/-- A call on the nfsd service. -/
def onNfsd (f : Call (Option NfsdServ)) : Call State := fun s =>
  ((f s.nfsdServ).1, { s with nfsdServ := (f s.nfsdServ).2 })

def State.pathGet (s : State) (p : Path) : State :=
  { s with pathRefs := Function.update s.pathRefs p (s.pathRefs p + 1) }

def State.pathPut (s : State) (p : Path) : State :=
  { s with pathRefs := Function.update s.pathRefs p (s.pathRefs p - 1) }

/-- `if (xfs_bringup_root.dentry) path_put(&xfs_bringup_root);` -/
def State.putRoot (s : State) : State :=
  match s.bringupRoot with
  | some p => s.pathPut p
  | none => s

def captureRoot (root : Path) : Call State :=
  assign fun s => { s.putRoot with bringupRoot := some root }.pathGet root

def xfsBringup (a : BringupAnswer) : Call State :=
  chain [
    assign (·.note .bringup),
    xfsLoopbackUp a.devChangeFlags,
    xfsMkdirTolerant a.mkdirExport,
    xfsMkdirTolerant a.mkdirMntParent,
    xfsMkdirTolerant a.mkdirMnt,
    xfsMkdirTolerant a.mkdirNfsdfs,
    mountExport a.tmpfs,
    assign fun s => { s with env := { s.env with tmpfsMounted := true } },
    xfsMountAt a.nfsdfs .xfsNfsdfs nfsdfsMount,
    assign fun s => { s with env := { s.env with nfsdfsMounted := true } },
    xfsConfigureExports a.ipMap a.svcExport a.expkey,
    onNfsd (xfsStartNfsd a.nfsd),
    assign fun s => { s with env := { s.env with nfsdUp := true } },
    xfsMountAt a.client .xfsMnt clientMount,
    assign fun s => { s with env := { s.env with clientMounted := true } },
    captureRoot a.root]

/-! ## Teardown -/

structure TeardownAnswer where
  hostbin : SettleAnswer
  scratch : Nat → SettleAnswer
  client : SettleAnswer
  stopNfsd : Int
  nfsdfs : UmountAnswer
  tmpfs : UmountAnswer

/-- Every call of the teardown succeeds; nothing is mounted on the scratch directory. -/
def TeardownAnswer.ok : TeardownAnswer where
  hostbin := ⟨fun _ => ⟨0, 0⟩, ⟨0, 0⟩⟩
  scratch := fun _ => ⟨fun _ => ⟨0, 0⟩, ⟨0, 0⟩⟩
  client := ⟨fun _ => ⟨0, 0⟩, ⟨0, 0⟩⟩
  stopNfsd := 0
  nfsdfs := ⟨0, 0⟩
  tmpfs := ⟨0, 0⟩

def xfsHostbinUmount (a : SettleAnswer) (s : State) : State :=
  if s.hostbinMounted then { s.umountAt .xfsHostbin (xfsUmountSettled a) with hostbinMounted := false } else s

/-- `if (flag) { err = umount(d); if (err) pr_err(...); flag = false; }` -/
def State.dropMount (s : State) (flag : Env → Bool) (clear : Env → Env) (d : Dir) (umount : Call (List Mount)) :
    State :=
  if flag s.env then { s.umountAt d umount with env := clear s.env } else s

/-- `if (xfs_env.nfsd_up) { xfs_stop_nfsd(&init_net); xfs_env.nfsd_up = false; }` -/
def State.dropNfsd (s : State) (answer : Int) : State :=
  if s.env.nfsdUp then
    { s with nfsdServ := (nfsdSvc 0 answer s.nfsdServ).2, env := { s.env with nfsdUp := false } }
  else s

def xfsTeardown (a : TeardownAnswer) (s : State) : State :=
  let s := s.note .teardown
  let s := xfsHostbinUmount a.hostbin s
  let s := s.umountAt .xfsScratchMnt (xfsScratchUmount a.scratch)
  let s := s.dropMount Env.clientMounted (fun e => { e with clientMounted := false }) .xfsMnt
    (xfsUmountSettled a.client)
  let s := s.dropNfsd a.stopNfsd
  let s := s.dropMount Env.nfsdfsMounted (fun e => { e with nfsdfsMounted := false }) .xfsNfsdfs
    (xfsUmount a.nfsdfs)
  let s := s.dropMount Env.tmpfsMounted (fun e => { e with tmpfsMounted := false }) .xfsExport
    (xfsUmount a.tmpfs)
  let s := { s with exportMountOpts := strscpy XFS_EXPORT_OPTS_DEFAULT }
  { s.putRoot with bringupRoot := none }

/-! ## The public calls -/

def xfstestsNfsGet (b : BringupAnswer) (t : TeardownAnswer) : Call State := fun s =>
  let r := if s.refs = 0 then xfsBringup b s else (0, s)
  if r.1 = 0 then (0, { r.2 with refs := r.2.refs + 1 }) else (r.1, xfsTeardown t r.2)

/-- Whether the `WARN_ON()` fired, and the state after. -/
def xfstestsNfsPut (t : TeardownAnswer) (s : State) : Bool × State :=
  if s.refs ≤ 0 then (true, s)
  else
    let s := { s with refs := s.refs - 1 }
    (false, if s.refs = 0 then xfsTeardown t s else s)

def xfstestsNfsExportOpts (opts : CStr) (s : State) : State := { s with exportMountOpts := strscpy opts }

inductive PublicCall
  | exportOpts (opts : CStr)
  | get (b : BringupAnswer) (t : TeardownAnswer)
  | put (t : TeardownAnswer)

/-- What a public call answers: the errno of a get, and whether a put was rejected. -/
structure Ret where
  err : Int
  warned : Bool

/-- The log starts afresh with every public call. -/
def State.fresh (s : State) : State := { s with log := [] }

/-- One public call. -/
def step (s : State) : PublicCall → Ret × State
  | .exportOpts opts => (⟨0, false⟩, xfstestsNfsExportOpts opts s.fresh)
  | .get b t => (⟨(xfstestsNfsGet b t s.fresh).1, false⟩, (xfstestsNfsGet b t s.fresh).2)
  | .put t => (⟨0, (xfstestsNfsPut t s.fresh).1⟩, (xfstestsNfsPut t s.fresh).2)

/-- The state after a sequence of public calls on the freshly loaded module. -/
def after (cs : List PublicCall) : State := Runs.exec step initial cs

end NfsPlayground.Fixture
