import NfsPlayground.Races.Calls

/-!
# generic/438: bytes written while the file grows

`bytes_written_while_the_file_grows_survive()` and its thread `g438_fsync_loop()`.
-/

namespace NfsPlayground.Races.G438

open Lines Threads

/-- `G438_ROOT` -/
def G438_ROOT : Path := XFS_MNT ++ [['g', '4', '3', '8']]

def testfile : Text :=
  ['t', 'e', 's', 't', 'f', 'i', 'l', 'e', '_', 'f', 'a', 'l', 'l', 'o', 'c', 'a', 't', 'e']

/-- `G438_FILE` -/
def G438_FILE : Path := G438_ROOT ++ [testfile]

/-- `G438_SERVER` -/
def G438_SERVER : Path := XFS_EXPORT ++ [['g', '4', '3', '8'], testfile]

def G438_SIZE : Nat := 2048
def G438_BYTE : UInt8 := 0x78

structure Frame where
  f : Int
  sf : Int
  addr : Int
  -- `struct g438_syncer`
  stop : Bool
  syncs : Nat
  err : Int
  back : UInt8
  got : List UInt8

/-! ## The syncer -/

inductive Syncing
  | head
  | sync
  | complete
  | exit
  deriving DecidableEq

/-- `g438_fsync_loop()` -/
def fsyncLoop : Syncing → ThreadOp Syncing Frame Call Answer
  | .head => .step (fun _ => none) (fun _ m => m) fun _ m => if m.stop then .complete else .sync
  | .sync => .step (fun m => some (.fsync m.sf))
      (fun a m => if a.ret ≠ 0 then { m with err := a.ret } else { m with syncs := incr m.syncs })
      fun a _ => if a.ret ≠ 0 then .complete else .head
  | .complete => .complete .exit
  | .exit => .exit

/-! ## The test function -/

inductive Point
  | mounted
  | mkdir
  | addAction
  | openFile
  | mmap
  | openSync
  | start
  | fallocate (i : Nat)
  | write (i : Nat)
  | readBack (i : Nat)
  | assertBack (i : Nat)
  | setStop
  | join
  | expectErr
  | expectSyncs
  -- the final pass over the whole file
  | kmalloc
  | readAll
  | verify
  | munmap
  | lastSync
  | closeSync
  | close
  -- the same bytes are on the server
  | readServer
  | verifyServer
  | ret
  deriving DecidableEq

def allBytes (m : Frame) : Bool := m.got.all (· == G438_BYTE)

/-- `bytes_written_while_the_file_grows_survive()` -/
def code : Point → Op Point Frame Call Answer
  | .mounted => .assert (fun _ => .mounted) (fun a => a.ret != 0) .mkdir
  | .mkdir => assertZero (fun _ => .mkdir G438_ROOT) .addAction
  | .addAction => assertZero (fun _ => .addAction) .openFile
  | .openFile => assertFile (fun _ => .create G438_FILE) (fun f m => { m with f := f }) .mmap
  | .mmap => .assertStore (fun m => .mmap m.f G438_SIZE) (fun a => a.ret != 0)
      (fun a m => { m with addr := a.ret }) .openSync
  | .openSync => assertFile (fun _ => .filpOpen G438_FILE) (fun f m => { m with sf := f }) .start
  | .start => .start 0 (.fallocate 0)
  | .fallocate i =>
    if i < G438_SIZE then assertZero (fun m => .fallocate m.f i 1) (.write i) else .act id .setStop
  | .write i => assertZero (fun m => .copyToUser m.addr i [G438_BYTE]) (.readBack i)
  | .readBack i => .assertStore (fun m => .copyFromUser m.addr i 1) (fun a => a.ret == 0)
      (fun a m => { m with back := a.bytes.headD 0 }) (.assertBack i)
  | .assertBack i => .check true (fun m => m.back == G438_BYTE) (.fallocate (i + 1))
  | .setStop => .act (fun m => { m with stop := true }) .join
  | .join => .wait 0 .expectErr
  | .expectErr => .expect (fun m => m.err == 0) .expectSyncs
  | .expectSyncs => .expect (fun m => 0 < m.syncs) .kmalloc
  | .kmalloc => assertKmalloc G438_SIZE .readAll
  | .readAll => .assertStore (fun m => .copyFromUser m.addr 0 G438_SIZE) (fun a => a.ret == 0)
      (fun a m => { m with got := a.bytes }) .verify
  | .verify => .expect allBytes .munmap
  | .munmap => expectZero (fun m => .munmap m.addr G438_SIZE) .lastSync
  | .lastSync => expectZero (fun m => .fsync m.f) .closeSync
  | .closeSync => .call (fun m => .filpClose m.sf) .close
  | .close => .call (fun m => .filpClose m.f) .readServer
  | .readServer => .assertStore (fun _ => .readRange G438_SERVER G438_SIZE 0) (fun a => a.ret == G438_SIZE)
      (fun a m => { m with got := a.bytes }) .verifyServer
  | .verifyServer => .expect allBytes .ret
  | .ret => .ret

def program : Program Point Syncing Frame Call Answer where
  entry := .mounted
  frame := ⟨0, 0, 0, false, 0, 0, 0, []⟩
  first _ := .head
  code := code
  work _ := fsyncLoop
  spawn := .kthreadRun
  refused := Answer.isErr

end NfsPlayground.Races.G438
