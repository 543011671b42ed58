import NfsPlayground.Lib.Refs
import NfsPlayground.Lib.Runs

/-!
# Credential switching

`xfs_switch_creds()`, `xfs_seteuid()`, `xfs_restore_creds()` and `xfs_access()` over the kernel's cred objects. The
two contracts of `override_creds()` and `revert_creds()` are a parameter; the calls that can fail take their answer as
an argument.
-/

namespace NfsPlayground.Creds

def EBUSY : Int := 16
def ENOMEM : Int := 12

abbrev CredId := Nat

structure Cred where
  uid : UInt32
  euid : UInt32
  suid : UInt32
  fsuid : UInt32
  gid : UInt32
  egid : UInt32
  sgid : UInt32
  fsgid : UInt32
  capInheritable : UInt64
  capPermitted : UInt64
  capEffective : UInt64
  deriving DecidableEq

/-- Whether `override_creds()` and `revert_creds()` take and drop a reference of their own. -/
inductive Contract
  | extraRef
  | noRef
  deriving DecidableEq

structure State where
  /-- The counts; the record of a count that reached zero holds the cred that was current then. -/
  table : Refs.Table CredId
  cred : CredId → Cred
  /-- `current->cred` -/
  current : CredId
  -- the static variables
  savedCreds : Option CredId
  override : Option CredId

/-- The module as loaded, in a task whose cred is `task`, with `others` references besides that of the task. -/
def initial (task : Cred) (others : Nat) : State where
  table := ⟨1, fun i => if i = 0 then others + 1 else 0, []⟩
  cred := fun _ => task
  current := 0
  savedCreds := none
  override := none

/-! ## The kernel's operations -/

/-- `prepare_creds()` when it succeeds: a copy of the current cred, under the identity `s.table.next`. -/
def State.prepareCreds (s : State) : State :=
  { s with table := s.table.alloc, cred := Function.update s.cred s.table.next (s.cred s.current) }

def State.edit (s : State) (c : CredId) (f : Cred → Cred) : State :=
  { s with cred := Function.update s.cred c (f (s.cred c)) }

def State.putCred (s : State) (c : CredId) : State := { s with table := s.table.put s.current c }

def State.abortCreds (s : State) (c : CredId) : State := s.putCred c

def State.overrideCreds (k : Contract) (s : State) (new : CredId) : State :=
  { s with
    current := new
    table := match k with
      | .extraRef => s.table.get new
      | .noRef => s.table }

def State.revertCreds (k : Contract) (s : State) (old : CredId) : State :=
  match k with
  | .extraRef => { s with current := old }.putCred s.current
  | .noRef => { s with current := old }

/-! ## The four calls -/

/-- The capability sets `security_task_fix_setuid()` leaves in the new cred, and what it returns. -/
structure FixSetuid where
  err : Int
  capInheritable : UInt64
  capPermitted : UInt64
  capEffective : UInt64

def xfsSwitchCreds (k : Contract) (prepare : Bool) (uid gid : UInt32) (s : State) : Int × State :=
  if s.savedCreds.isSome then (-EBUSY, s)
  else if prepare = false then (-ENOMEM, s)
  else
    let c := s.table.next
    let s := s.prepareCreds
    let s := s.edit c fun cred => { cred with
      uid := uid, euid := uid, suid := uid, fsuid := uid
      gid := gid, egid := gid, sgid := gid, fsgid := gid
      capInheritable := 0, capPermitted := 0, capEffective := 0 }
    let s := { s with override := some c }
    (0, { s.overrideCreds k c with savedCreds := some s.current })

def xfsRestoreCreds (k : Contract) (s : State) : State :=
  match s.savedCreds with
  | none => s
  | some saved =>
    let s := s.revertCreds k saved
    let s := match s.override with
      | some c => s.putCred c
      | none => s
    { s with savedCreds := none, override := none }

def xfsSeteuid (k : Contract) (prepare : Bool) (fix : FixSetuid) (uid : UInt32) (s : State) : Int × State :=
  if s.savedCreds.isSome then (-EBUSY, s)
  else if prepare = false then (-ENOMEM, s)
  else
    let c := s.table.next
    let s := s.prepareCreds
    let s := s.edit c fun cred => { cred with euid := uid, fsuid := uid }
    let s := s.edit c fun cred => { cred with
      capInheritable := fix.capInheritable, capPermitted := fix.capPermitted, capEffective := fix.capEffective }
    if fix.err ≠ 0 then (fix.err, s.abortCreds c)
    else
      let s := { s with override := some c }
      (0, { s.overrideCreds k c with savedCreds := some s.current })

def xfsAccess (k : Contract) (prepare : Bool) (kernPath inodePermission : Int) (s : State) : Int × State :=
  if prepare = false then (-ENOMEM, s)
  else
    let override := s.table.next
    let s := s.prepareCreds
    let s := s.edit override fun cred => { cred with fsuid := cred.uid, fsgid := cred.gid }
    let s := s.edit override fun cred => { cred with
      capEffective := if cred.uid = 0 then cred.capPermitted else 0 }
    let oldCred := s.current
    let s := s.overrideCreds k override
    let err := if kernPath = 0 then inodePermission else kernPath
    let s := s.revertCreds k oldCred
    (err, s.putCred override)

inductive CredCall
  | switch (prepare : Bool) (uid gid : UInt32)
  | seteuid (prepare : Bool) (fix : FixSetuid) (uid : UInt32)
  | restore
  | access (prepare : Bool) (kernPath inodePermission : Int)

/-- One call; `xfs_restore_creds()` returns nothing, which counts as success. -/
def step (k : Contract) (s : State) : CredCall → Int × State
  | .switch prepare uid gid => xfsSwitchCreds k prepare uid gid s
  | .seteuid prepare fix uid => xfsSeteuid k prepare fix uid s
  | .restore => (0, xfsRestoreCreds k s)
  | .access prepare kernPath inodePermission => xfsAccess k prepare kernPath inodePermission s

/-- The state after a sequence of calls. -/
def after (k : Contract) (task : Cred) (others : Nat) (cs : List CredCall) : State :=
  Runs.exec (step k) (initial task others) cs

end NfsPlayground.Creds
