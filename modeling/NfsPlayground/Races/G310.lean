import NfsPlayground.Races.Calls

/-!
# generic/310: reads racing a directory walk

`reads_racing_readdir_on_one_fd()` and its thread `g310_read_loop()`. Besides the calls of the other ports it makes
those on a directory file.
-/

namespace NfsPlayground.Races.G310

open Lines Posix Threads

/-- `G310_ROOT` -/
def G310_ROOT : Path := XFS_MNT ++ [['g', '3', '1', '0']]

/-- `G310_DIR` -/
def G310_DIR : Path := G310_ROOT ++ [['t', 'm', 'p']]

def G310_ENTRIES : Nat := 32
def G310_ROUNDS : Nat := 40
def PAGE_SIZE : Nat := 4096

/-- `G310_DIR "/e%d"` -/
def entryName (i : Nat) : Path := G310_DIR ++ ['e' :: decimal i]

inductive DirCall
  | base (c : Call)
  | msleep (ms : Nat)
  | currentMm
  | mmapAnonymous (len : Nat)
  | llseek (d : Int) (offset : Nat)
  /-- One batch of names is handed to the actor. -/
  | iterateDir (d : Int)
  | vfsRead (d : Int) (buf : Int) (len : Nat)
  | kthreadUseMm (mm : Int)
  | kthreadUnuseMm (mm : Int)

structure DirAnswer where
  ret : Int
  /-- What `iterate_dir()` hands to the actor. -/
  names : List Text

instance : Inhabited DirAnswer := ⟨⟨0, []⟩⟩

structure Frame where
  d : Int
  -- `struct g310_reader`
  mm : Int
  buf : Int
  stop : Bool
  wrong : Nat
  err : Int
  reads : Nat
  -- `struct g310_walk` of the round
  entries : Nat
  alien : Nat
  total : Nat
  before : Nat

/-- `g310_actor()` -/
def actor (m : Frame) (name : Text) : Frame :=
  let m := { m with total := m.total + 1 }
  if name = ['.'] ∨ name = ['.', '.'] then m
  else if name.length < 2 ∨ name.head? ≠ some 'e' then { m with alien := m.alien + 1 }
  else { m with entries := m.entries + 1 }

/-! ## The reader -/

inductive Reading
  | useMm
  | head
  | read
  | unuseMm
  | complete
  | exit
  deriving DecidableEq

/-- `g310_read_loop()` -/
def readLoop : Reading → ThreadOp Reading Frame DirCall DirAnswer
  | .useMm => .step (fun m => some (.kthreadUseMm m.mm)) (fun _ m => m) fun _ _ => .head
  | .head => .step (fun _ => none) (fun _ m => m) fun _ m => if m.stop then .unuseMm else .read
  | .read => .step (fun m => some (.vfsRead m.d m.buf 100))
      (fun a m =>
        let m := { m with reads := incr m.reads }
        if 0 ≤ a.ret then { m with wrong := m.wrong + 1 }
        else if a.ret ≠ -EISDIR then { m with err := a.ret }
        else m)
      fun _ _ => .head
  | .unuseMm => .step (fun m => some (.kthreadUnuseMm m.mm)) (fun _ m => m) fun _ _ => .complete
  | .complete => .complete .exit
  | .exit => .exit

/-! ## The test function -/

inductive Point
  | mounted
  | mkdir
  | addAction
  | mkdirDir
  | create (i : Nat)
  | openDir
  | mmap
  | mm
  | start
  -- wait for the reader to get going
  | settle (i : Nat)
  | sleep (i : Nat)
  | seek (i : Nat)
  | iterate (i : Nat)
  | again (i : Nat)
  | expectEntries (i : Nat)
  | expectAlien (i : Nat)
  | setStop
  | join
  | close
  | expectReads
  | expectWrong
  | expectErr
  | ret
  deriving DecidableEq

def assertZero (c : Frame → DirCall) (next : Point) : Op Point Frame DirCall DirAnswer :=
  .assert c (fun a => a.ret == 0) next

/-- `reads_racing_readdir_on_one_fd()` -/
def code : Point → Op Point Frame DirCall DirAnswer
  | .mounted => .assert (fun _ => .base .mounted) (fun a => a.ret != 0) .mkdir
  | .mkdir => assertZero (fun _ => .base (.mkdir G310_ROOT)) .addAction
  | .addAction => assertZero (fun _ => .base .addAction) .mkdirDir
  | .mkdirDir => assertZero (fun _ => .base (.mkdir G310_DIR)) (.create 0)
  | .create i =>
    -- nothing is written into the new file
    if i < G310_ENTRIES then .assert (fun _ => .base (.create (entryName i))) (fun a => 0 ≤ a.ret) (.create (i + 1))
    else .act id .openDir
  | .openDir => .assertStore (fun _ => .base (.filpOpen G310_DIR)) (fun a => 0 ≤ a.ret)
      (fun a m => { m with d := a.ret }) .mmap
  | .mmap => .assertStore (fun _ => .mmapAnonymous PAGE_SIZE) (fun a => a.ret != 0)
      (fun a m => { m with buf := a.ret }) .mm
  | .mm => .assertStore (fun _ => .currentMm) (fun a => 0 < a.ret) (fun a m => { m with mm := a.ret }) .start
  | .start => .start 0 (.settle 0)
  | .settle i => .branch fun _ m => if i < 100 ∧ m.reads = 0 then .sleep i else .seek 0
  | .sleep i => .call (fun _ => .msleep 10) (.settle (i + 1))
  | .seek i =>
    if i < G310_ROUNDS then
      .assertStore (fun m => .llseek m.d 0) (fun a => a.ret == 0)
        (fun _ m => { m with entries := 0, alien := 0, total := 0, before := 0 }) (.iterate i)
    else .act id .setStop
  | .iterate i => .assertStore (fun m => .iterateDir m.d) (fun a => a.ret == 0)
      (fun a m => a.names.foldl actor { m with before := m.total }) (.again i)
  | .again i => .branch fun _ m => if m.before < m.total then .iterate i else .expectEntries i
  | .expectEntries i => .expect (fun m => m.entries == G310_ENTRIES) (.expectAlien i)
  | .expectAlien i => .expect (fun m => m.alien == 0) (.seek (i + 1))
  | .setStop => .act (fun m => { m with stop := true }) .join
  | .join => .wait 0 .close
  | .close => .call (fun m => .base (.filpClose m.d)) .expectReads
  | .expectReads => .expect (fun m => 0 < m.reads) .expectWrong
  | .expectWrong => .expect (fun m => m.wrong == 0) .expectErr
  | .expectErr => .expect (fun m => m.err == 0) .ret
  | .ret => .ret

def program : Program Point Reading Frame DirCall DirAnswer where
  entry := .mounted
  frame := ⟨0, 0, 0, false, 0, 0, 0, 0, 0, 0, 0⟩
  first _ := .useMm
  code := code
  work _ := readLoop
  spawn := .base .kthreadRun
  refused a := a.ret < 0

end NfsPlayground.Races.G310
