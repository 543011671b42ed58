import NfsPlayground.Lib.Paths
import NfsPlayground.Races.Calls

/-!
# generic/028: paths while the tree churns

`paths_stay_correct_while_the_tree_churns()` and its thread `g028_rename_chain()`.
-/

namespace NfsPlayground.Races.G028

open Lines Threads

/-- `G_ROOT` -/
def G_ROOT : Path := XFS_MNT ++ [['g', '0', '2', '8']]

/-- `G_ROOT "/a/b"`, below which the tree is renamed -/
def G_AB : Path := G_ROOT ++ [['a'], ['b']]

/-- `G_ROOT "/a/b/c"` and `G_ROOT "/a/b/c2"` -/
def G_C : Path := G_AB ++ [['c']]
def G_C2 : Path := G_AB ++ [['c', '2']]

/-- `G_DEEP` -/
def G_DEEP : Path := G_C ++ [['d']]

def G028_READS : Nat := 2000

def sib0 : Text := ['s', 'i', 'b', '0']

def getcwdTestfile : Text :=
  ['t', '_', 'g', 'e', 't', 'c', 'w', 'd', '_', 't', 'e', 's', 't', 'f', 'i', 'l', 'e']

/-- `G_DEEP "/t_getcwd_testfile"`, and with a number -/
def firstName : Path := G_DEEP ++ [getcwdTestfile]
def chainName (i : Nat) : Path := G_DEEP ++ [getcwdTestfile ++ decimal i]

structure Frame where
  stop : Bool
  -- `struct g028_racer`
  err : Int
  renames : Nat
  lastName : Path
  started : Bool
  /-- The file `xfs_write_new_file()` has open in the racer. -/
  racerFile : Int
  -- the test function
  f : Int
  p : Nat
  rendered : Text

/-! ## The racer -/

inductive Racing
  | create
  | write
  | failed
  | announce
  | head (i : Nat) (cur : Path)
  | rename (i : Nat) (cur : Path)
  | complete
  | exit
  deriving DecidableEq

/-- `g028_rename_chain()`; `i` counts before the rename is made. -/
def renameChain : Racing → ThreadOp Racing Frame Call Answer
  | .create => .step (fun _ => some (.create firstName))
      (fun a m => if a.isErr then { m with err := a.ret } else { m with racerFile := a.ret })
      fun a _ => if a.isErr then .failed else .write
  | .write => .step (fun m => some (.kernelWrite m.racerFile [0x78] 0))
      (fun a m =>
        if 0 < a.ret then { m with lastName := firstName }
        else { m with err := if a.ret = 0 then - EIO else a.ret })
      fun a _ => if 0 < a.ret then .announce else .failed
  | .failed => .step (fun _ => none) (fun _ m => { m with started := true }) fun _ _ => .complete
  | .announce => .step (fun _ => none) (fun _ m => { m with started := true }) fun _ _ => .head 0 firstName
  | .head i cur => .step (fun _ => none) (fun _ m => m)
      fun _ m => if m.stop then .complete else .rename (incr i) cur
  | .rename i cur => .step (fun _ => some (.rename cur (chainName i)))
      (fun a m =>
        if a.ret ≠ 0 then { m with err := a.ret }
        else { m with lastName := chainName i, renames := incr m.renames })
      fun a _ => if a.ret ≠ 0 then .complete else .head i (chainName i)
  | .complete => .complete .exit
  | .exit => .exit

/-! ## The test function -/

/-- The calls of `g_expect_path()`. -/
inductive Lookup
  | initial
  | racing (i : Nat)
  | ancestor
  | child
  | back
  deriving DecidableEq

/-- The path that is looked up, and has to come back. -/
def Lookup.lookup : Lookup → Path
  | .initial => G_DEEP
  | .racing _ => G_DEEP
  | .ancestor => G_C2 ++ [['d']]
  | .child => G_C2 ++ [['d'], sib0]
  | .back => G_DEEP

inductive Point
  | mounted
  | mkdir
  | addAction
  | mkdirA
  | mkdirB
  | mkdirC
  | mkdirDeep
  -- `g_expect_path()`
  | kmalloc (l : Lookup)
  | kernPath (l : Lookup)
  | dPath (l : Lookup)
  | assertBelow (l : Lookup)
  | assertSame (l : Lookup)
  | start
  | waitStarted
  | assertErr
  | loop (i : Nat)
  | setStop
  | join
  | expectErr
  | expectRenames
  | unlinkLast
  | createSib
  | writeSib
  | renameAncestor
  | expectGone
  | unlinkSib
  | renameBack
  | ret
  deriving DecidableEq

/-- Where the function goes on after the call of `g_expect_path()`. -/
def Lookup.next : Lookup → Point
  | .initial => .start
  | .racing i => .loop (i + 1)
  | .ancestor => .kmalloc .child
  | .child => .expectGone
  | .back => .ret

def PATH_MAX : Nat := 4096

/-- `paths_stay_correct_while_the_tree_churns()` -/
def code : Point → Op Point Frame Call Answer
  | .mounted => .assert (fun _ => .mounted) (fun a => a.ret != 0) .mkdir
  | .mkdir => assertZero (fun _ => .mkdir G_ROOT) .addAction
  | .addAction => assertZero (fun _ => .addAction) .mkdirA
  | .mkdirA => assertZero (fun _ => .mkdir (G_ROOT ++ [['a']])) .mkdirB
  | .mkdirB => assertZero (fun _ => .mkdir G_AB) .mkdirC
  | .mkdirC => assertZero (fun _ => .mkdir G_C) .mkdirDeep
  | .mkdirDeep => assertZero (fun _ => .mkdir G_DEEP) (.kmalloc .initial)
  | .kmalloc l => assertKmalloc PATH_MAX (.kernPath l)
  | .kernPath l => .assertStore (fun _ => .kernPath l.lookup) (fun a => a.ret == 0)
      (fun a m => { m with p := a.path }) (.dPath l)
  | .dPath l => .assertStore (fun m => .dPath m.p) (fun a => !a.isErr)
      (fun a m => { m with rendered := a.text }) (.assertBelow l)
  | .assertBelow l => .check true (fun m => m.rendered != ['/']) (.assertSame l)
  | .assertSame l => .check true (fun m => m.rendered == PyText.joined l.lookup) l.next
  | .start => .start 0 .waitStarted
  | .waitStarted => .step ⟨fun _ => some .waitTimeout, fun a m => m.started || a.ret == 0, fun _ m => m.started,
      true, fun _ m => m, fun _ _ _ => .assertErr⟩
  | .assertErr => .check true (fun m => m.err == 0) (.loop 0)
  | .loop i => .act id (if i < G028_READS then .kmalloc (.racing i) else .setStop)
  | .setStop => .act (fun m => { m with stop := true }) .join
  | .join => .wait 0 .expectErr
  | .expectErr => .expect (fun m => m.err == 0) .expectRenames
  | .expectRenames => .expect (fun m => 0 < m.renames) .unlinkLast
  | .unlinkLast => .call (fun m => .unlink (if m.renames = 0 then firstName else m.lastName)) .createSib
  | .createSib => assertFile (fun _ => .create (G_DEEP ++ [sib0])) (fun f m => { m with f := f }) .writeSib
  | .writeSib => assertWritten (·.f) [0x73] .renameAncestor
  | .renameAncestor => assertZero (fun _ => .rename G_C G_C2) (.kmalloc .ancestor)
  | .expectGone => expectZero (fun _ => .exists G_DEEP) .unlinkSib
  | .unlinkSib => assertZero (fun _ => .unlink (G_C2 ++ [['d'], sib0])) .renameBack
  | .renameBack => assertZero (fun _ => .rename G_C2 G_C) (.kmalloc .back)
  | .ret => .ret

def program : Program Point Racing Frame Call Answer where
  entry := .mounted
  frame := ⟨false, 0, 0, [], false, 0, 0, 0, []⟩
  first _ := .create
  code := code
  work _ := renameChain
  spawn := .kthreadRun
  refused := Answer.isErr

end NfsPlayground.Races.G028
