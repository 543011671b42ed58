import NfsPlayground.Races.Calls

/-!
# generic/084: a link storm against a vanishing target

`a_link_storm_against_a_vanishing_target()` and its two threads `g084_link_unlink()`.
-/

namespace NfsPlayground.Races.G084

open Lines Posix Threads

/-- `G084_ROOT` -/
def G084_ROOT : Path := XFS_MNT ++ [['g', '0', '8', '4']]

/-- `G084_SRC` -/
def G084_SRC : Path := G084_ROOT ++ [['0', '8', '4', '.', 't', 'a', 'r', 'g', 'e', 't']]

def G084_OPEN : Nat := 4
def G084_STORMS : Nat := 2
def G084_ROUNDS : Nat := 200

/-- `G084_ROOT "/084.link.%d.%d"` -/
def linkName (id i : Nat) : Path :=
  G084_ROOT ++ [['0', '8', '4', '.', 'l', 'i', 'n', 'k', '.'] ++ decimal id ++ '.' :: decimal i]

/-- `G084_ROOT "/084.unlinked.%d"` -/
def unlinkedName (i : Nat) : Path :=
  G084_ROOT ++ [['0', '8', '4', '.', 'u', 'n', 'l', 'i', 'n', 'k', 'e', 'd', '.'] ++ decimal i]

/-- `struct g084_storm` -/
structure Storm where
  err : Int
  links : Nat

structure Frame where
  stop : Bool
  storms : Nat → Storm
  /-- `open_unlinked` -/
  openUnlinked : Nat → Int
  /-- The file `xfs_write_new_file()` has open. -/
  f : Int

def Frame.setStorm (m : Frame) (id : Nat) (s : Storm) : Frame := { m with storms := Function.update m.storms id s }

/-! ## The storms -/

/-- Where a storm is; `i` is the low three bits of its counter. -/
inductive Storming
  | head (i : Nat)
  | link (i : Nat)
  | unlink (i : Nat)
  | complete
  | exit
  deriving DecidableEq

def linkFails (err : Int) : Bool := err != 0 && err != -ENOENT && err != -EEXIST

def unlinkFails (err : Int) : Bool := err != 0 && err != -ENOENT

/-- `g084_link_unlink()` -/
def linkUnlink (id : Nat) : Storming → ThreadOp Storming Frame Call Answer
  | .head i => .step (fun _ => none) (fun _ m => m) fun _ m => if m.stop then .complete else .link i
  | .link i => .step (fun _ => some (.link G084_SRC (linkName id i)))
      (fun a m =>
        if linkFails a.ret then m.setStorm id { m.storms id with err := a.ret }
        else if a.ret = 0 then m.setStorm id { m.storms id with links := incr (m.storms id).links }
        else m)
      fun a _ => if linkFails a.ret then .complete else .unlink i
  | .unlink i => .step (fun _ => some (.unlink (linkName id i)))
      (fun a m => if unlinkFails a.ret then m.setStorm id { m.storms id with err := a.ret } else m)
      fun a _ => if unlinkFails a.ret then .complete else .head ((i + 1) % 8)
  | .complete => .complete .exit
  | .exit => .exit

/-! ## The test function -/

inductive Point
  | mounted
  | mkdir
  | addAction
  -- the files that are open and already unlinked
  | create (i : Nat)
  | write (i : Nat)
  | openFile (i : Nat)
  | unlink (i : Nat)
  | createSrc
  | writeSrc
  | start (i : Nat)
  -- the third loop
  | remove (i : Nat)
  | recreate (i : Nat)
  | rewrite (i : Nat)
  | setStop
  | join (i : Nat)
  | expectErr (i : Nat)
  | expectLinks (i : Nat)
  | close (i : Nat)
  | ret
  deriving DecidableEq

def storeFile (f : Int) (m : Frame) : Frame := { m with f := f }

/-- `a_link_storm_against_a_vanishing_target()` -/
def code : Point → Op Point Frame Call Answer
  | .mounted => .assert (fun _ => .mounted) (fun a => a.ret != 0) .mkdir
  | .mkdir => assertZero (fun _ => .mkdir G084_ROOT) .addAction
  | .addAction => assertZero (fun _ => .addAction) (.create 0)
  | .create i =>
    if i < G084_OPEN then assertFile (fun _ => .create (unlinkedName i)) storeFile (.write i)
    else .act id .createSrc
  | .write i => assertWritten (·.f) [0x78] (.openFile i)
  | .openFile i => assertFile (fun _ => .filpOpen (unlinkedName i))
      (fun f m => { m with openUnlinked := Function.update m.openUnlinked i f }) (.unlink i)
  | .unlink i => assertZero (fun _ => .unlink (unlinkedName i)) (.create (i + 1))
  | .createSrc => assertFile (fun _ => .create G084_SRC) storeFile .writeSrc
  | .writeSrc => assertWritten (·.f) [0x74] (.start 0)
  | .start i => if i < G084_STORMS then .start i (.start (i + 1)) else .act id (.remove 0)
  | .remove i =>
    if i < G084_ROUNDS then
      .assert (fun _ => .unlink G084_SRC) (fun a => a.ret == 0 || a.ret == -ENOENT) (.recreate i)
    else .act id .setStop
  | .recreate i => assertFile (fun _ => .create G084_SRC) storeFile (.rewrite i)
  | .rewrite i => assertWritten (·.f) [0x74] (.remove (i + 1))
  | .setStop => .act (fun m => { m with stop := true }) (.join 0)
  | .join i => if i < G084_STORMS then .wait i (.expectErr i) else .act id (.close 0)
  | .expectErr i => .expect (fun m => (m.storms i).err == 0) (.expectLinks i)
  | .expectLinks i => .expect (fun m => 0 < (m.storms i).links) (.join (i + 1))
  | .close i =>
    if i < G084_OPEN then .call (fun m => .filpClose (m.openUnlinked i)) (.close (i + 1)) else .ret
  | .ret => .ret

def program : Program Point Storming Frame Call Answer where
  entry := .mounted
  frame := ⟨false, fun _ => ⟨0, 0⟩, fun _ => 0, 0⟩
  first _ := .head 0
  code := code
  work := linkUnlink
  spawn := .kthreadRun
  refused := Answer.isErr

end NfsPlayground.Races.G084
