import NfsPlayground.Lib.Rounds
import NfsPlayground.Races.Calls

/-!
# generic/133: a reader and a writer on one file

`a_reader_and_a_writer_share_the_file()` with its rounds, `g133_round()`, and their threads, `g133_write_all()`.
-/

namespace NfsPlayground.Races.G133

open Lines Threads

/-- `G133_ROOT` -/
def G133_ROOT : Path := XFS_MNT ++ [['g', '1', '3', '3']]

def testfile : Text := ['i', 'o', '_', 't', 'e', 's', 't']

/-- `G133_FILE` -/
def G133_FILE : Path := G133_ROOT ++ [testfile]

def G133_SIZE : Nat := 8 * 1024 * 1024
def G133_CHUNK : Nat := 64 * 1024
def G133_PATTERN_A : UInt8 := 0x41
def G133_PATTERN_B : UInt8 := 0x42

structure Round where
  writeDirect : Bool
  readDirect : Bool
  pattern : UInt8

def rounds : List Round :=
  [⟨false, false, G133_PATTERN_B⟩, ⟨true, false, G133_PATTERN_A⟩, ⟨false, true, G133_PATTERN_B⟩,
    ⟨true, true, G133_PATTERN_A⟩]

def round (r : Nat) : Round := rounds.getD r ⟨false, false, G133_PATTERN_A⟩

structure Frame where
  f : Int
  rf : Int
  buf : List UInt8
  -- `struct g133_writer`
  wf : Int
  err : Int

/-! ## The writer -/

inductive Writing
  | kmalloc
  | write (pos : Nat)
  | complete
  | exit
  deriving DecidableEq

def chunk (b : UInt8) : List UInt8 := List.replicate G133_CHUNK b

/-- `g133_write_all()`; nobody stops the thread. -/
def writeAll (r : Nat) : Writing → ThreadOp Writing Frame Call Answer
  | .kmalloc => .step (fun _ => some (.kmalloc G133_CHUNK))
      (fun a m => if a.ret = 0 then { m with err := -ENOMEM } else m)
      fun a _ => if a.ret = 0 then .complete else .write 0
  | .write pos =>
    if pos < G133_SIZE then
      .step (fun m => some (if (round r).writeDirect then .directWrite m.wf (chunk (round r).pattern) pos
          else .kernelWrite m.wf (chunk (round r).pattern) pos))
        (fun a m => if a.ret ≠ G133_CHUNK then { m with err := if a.ret < 0 then a.ret else - EIO } else m)
        fun a _ => if a.ret ≠ G133_CHUNK then .complete else .write (pos + G133_CHUNK)
    else .step (fun _ => none) (fun _ m => m) fun _ _ => .complete
  | .complete => .complete .exit
  | .exit => .exit

/-! ## The test function -/

inductive Point
  | mounted
  | mkdir
  | addAction
  | kmalloc
  | openFile
  | fill (pos : Nat)
  | fsync
  | close
  -- a round
  | openWriter (r : Nat)
  | openReader (r : Nat)
  | readBuf (r : Nat)
  | start (r : Nat)
  | read (r pos : Nat)
  | verify (r pos : Nat)
  | join (r : Nat)
  | expectErr (r : Nat)
  | closeReader (r : Nat)
  | closeWriter (r : Nat)
  | ret
  deriving DecidableEq

/-- The next round, if there is one. -/
def enter (r : Nat) : Point := if r < rounds.length then .openWriter r else .ret

/-- A byte that the file has held at some time. -/
def wasWritten (b : UInt8) : Bool := b == G133_PATTERN_A || b == G133_PATTERN_B

/-- The read of a chunk, which goes on after what has been read; if that is nothing, the loop ends. -/
def readChunk (r pos : Nat) : Op Point Frame Call Answer :=
  .step ⟨fun m => some (if (round r).readDirect then .directRead m.rf G133_CHUNK pos
      else .kernelRead m.rf G133_CHUNK pos),
    fun _ _ => true, fun a _ => 0 < a.ret, false, fun a m => { m with buf := a.bytes },
    fun _ a _ => if a.ret ≤ 0 then .join r else .verify r (pos + a.ret.toNat)⟩

/-- `a_reader_and_a_writer_share_the_file()`, with `g133_round()` -/
def code : Point → Op Point Frame Call Answer
  | .mounted => .assert (fun _ => .mounted) (fun a => a.ret != 0) .mkdir
  | .mkdir => assertZero (fun _ => .mkdir G133_ROOT) .addAction
  | .addAction => assertZero (fun _ => .addAction) .kmalloc
  | .kmalloc => assertKmalloc G133_CHUNK .openFile
  | .openFile => assertFile (fun _ => .create G133_FILE) (fun f m => { m with f := f }) (.fill 0)
  | .fill pos =>
    if pos < G133_SIZE then
      .assert (fun m => .kernelWrite m.f (chunk G133_PATTERN_A) pos) (fun a => a.ret == G133_CHUNK)
        (.fill (pos + G133_CHUNK))
    else .act id .fsync
  | .fsync => assertZero (fun m => .fsync m.f) .close
  | .close => .call (fun m => .filpClose m.f) (enter 0)
  -- the record is a new one
  | .openWriter r => assertFile (fun _ => .filpOpen G133_FILE) (fun f m => { m with wf := f, err := 0 }) (.openReader r)
  | .openReader r => assertFile (fun _ => .filpOpen G133_FILE) (fun f m => { m with rf := f }) (.readBuf r)
  | .readBuf r => assertKmalloc G133_CHUNK (.start r)
  | .start r => .start r (.read r 0)
  | .read r pos => if pos < G133_SIZE then readChunk r pos else .act id (.join r)
  | .verify r pos => .expectOr (fun m => m.buf.all wasWritten) (.read r pos) (.join r)
  | .join r => .wait r (.expectErr r)
  | .expectErr r => .expect (fun m => m.err == 0) (.closeReader r)
  | .closeReader r => .call (fun m => .filpClose m.rf) (.closeWriter r)
  | .closeWriter r => .call (fun m => .filpClose m.wf) (enter (r + 1))
  | .ret => .ret

/-- The thread `r` is the one of the round `r`. -/
def program : Program Point Writing Frame Call Answer where
  entry := .mounted
  frame := ⟨0, 0, [], 0, 0⟩
  first _ := .kmalloc
  code := code
  work := writeAll
  spawn := .kthreadRun
  refused := Answer.isErr

/-! ## The rounds -/

def Point.round : Point → Option Nat
  | .mounted | .mkdir | .addAction | .kmalloc | .openFile | .fill _ | .fsync | .close | .ret => none
  | .openWriter r | .openReader r | .readBuf r | .start r | .read r _ | .verify r _ | .join r | .expectErr r
  | .closeReader r | .closeWriter r => some r

def Point.runs : Point → Option Nat
  | .read r _ | .verify r _ | .join r => some r
  | _ => none

def Point.opened : Point → Option Nat
  | .mounted | .mkdir | .addAction | .kmalloc | .openFile | .fill _ | .fsync | .close => some 0
  | .openWriter r | .openReader r | .readBuf r | .start r => some r
  | .read r _ | .verify r _ | .join r | .expectErr r | .closeReader r | .closeWriter r => some (r + 1)
  | .ret => none

def shape : Shape Point where
  round := Point.round
  runs := Point.runs
  opened := Point.opened
  round_of_runs := by
    intro t r h
    cases t with
    | read | verify | join => exact h
    | _ => cases h

end NfsPlayground.Races.G133
