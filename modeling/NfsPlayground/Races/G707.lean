import NfsPlayground.Races.Calls

/-!
# generic/707: a directory that moves while it grows

`moving_a_directory_while_it_grows()` and its thread `g707_create_files()`. Each turn of the function starts a thread of
its own; the `struct g707_creator` of a turn is on the frame under the number of the turn. The paths fit in their
buffers of 96 bytes.
-/

namespace NfsPlayground.Races.G707

open Lines Posix Threads

/-- `G707_ROOT` -/
def G707_ROOT : Path := XFS_MNT ++ [['g', '7', '0', '7']]

def G707_MOVES : Nat := 20
def G707_FILES : Nat := 60
def G707_LOOPS : Nat := 3

/-- `dir%d` -/
def dirName (n : Nat) : Text := ['d', 'i', 'r'] ++ decimal n

/-- The directory that moves. -/
def moving : Text := ['d', 'i', 'r']

/-- `somewhatlongerfilename%d` -/
def fileName (i : Nat) : Text :=
  ['s', 'o', 'm', 'e', 'w', 'h', 'a', 't', 'l', 'o', 'n', 'g', 'e', 'r', 'f', 'i', 'l', 'e', 'n', 'a', 'm', 'e'] ++
    decimal i

/-- `G707_ROOT "/dir%d"` -/
def parent (n : Nat) : Path := G707_ROOT ++ [dirName n]

/-- `g707_dirpath()` -/
def dirpath (n : Nat) : Path := parent n ++ [moving]

/-- `G707_ROOT "/dir%d/dir/somewhatlongerfilename%d"` -/
def filePath (n i : Nat) : Path := dirpath n ++ [fileName i]

def ESTALE : Int := 116

inductive Call
  | mounted
  | addAction
  | kthreadRun
  | mkdir (path : Path)
  | rename (old new : Path)
  /-- `filp_open()` with `O_CREAT | O_TRUNC` -/
  | create (path : Path)
  | filpClose (f : Int)
  | exists (path : Path)
  | unlink (path : Path)
  | rmdir (path : Path)
  deriving DecidableEq

/-- `struct g707_creator`, what is written of it. -/
structure Creator where
  created : Nat
  err : Int

structure Frame where
  /-- `where` -/
  place : Nat
  creator : Nat → Creator
  /-- `j`, the names counted -/
  found : Nat
  /-- `err` of `xfs_rmdir_settled()` -/
  err : Int

/-- The `struct g707_creator` of a turn is written. -/
def Frame.setCreator (m : Frame) (loop : Nat) (c : Creator) : Frame :=
  { m with creator := Function.update m.creator loop c }

/-! ## The creator -/

inductive Creating
  | head (i : Nat)
  | read (i : Nat)
  -- `xfs_write_new_file()` with no data
  | create (i at_ : Nat)
  | close (i : Nat) (f : Int)
  | tally (i : Nat) (err : Int)
  | complete
  | exit
  deriving DecidableEq

/-- What a creator keeps of an `err` of `xfs_write_new_file()`. -/
def Creator.tally (c : Creator) (err : Int) : Creator :=
  if err = 0 then { c with created := c.created + 1 }
  else if err ≠ -ENOENT ∧ err ≠ -ESTALE then { c with err := err }
  else c

/-- `g707_create_files()` of a turn -/
def createFiles (loop : Nat) : Creating → ThreadOp Creating Frame Call Int
  | .head i => .step (fun _ => none) (fun _ m => m) fun _ _ => if i < G707_FILES then .read i else .complete
  | .read i => .step (fun _ => none) (fun _ m => m) fun _ m => .create i m.place
  | .create i at_ => .step (fun _ => some (.create (filePath at_ i))) (fun _ m => m)
      fun f _ => if f < 0 then .tally i f else .close i f
  | .close i f => .step (fun _ => some (.filpClose f)) (fun _ m => m) fun _ _ => .tally i 0
  | .tally i err => .step (fun _ => none) (fun _ m => m.setCreator loop ((m.creator loop).tally err))
      fun _ _ => .head (i + 1)
  | .complete => .complete .exit
  | .exit => .exit

/-! ## The test function -/

inductive Point
  | mounted
  | mkdir
  | addAction
  | dirs (i : Nat)
  | mkdirDir (i : Nat)
  | loop (l : Nat)
  | setPlace (l : Nat)
  | mkdirMoving (l : Nat)
  | start (l : Nat)
  | moves (l i : Nat)
  | rename (l i : Nat)
  | publish (l i : Nat)
  | join (l : Nat)
  | expectErr (l : Nat)
  | setFound (l : Nat)
  | count (l i : Nat)
  | present (l i : Nat)
  | expectCreated (l : Nat)
  | clean (l i : Nat)
  | unlink (l i : Nat)
  -- `xfs_rmdir_settled()`
  | rmdir (l tries : Nat)
  | assertRmdir (l : Nat)
  | ret
  deriving DecidableEq

/-- `KUNIT_ASSERT_EQ(test, call, 0)` -/
def assertZero (c : Call) (next : Point) : Op Point Frame Call Int := .assert (fun _ => c) (fun r => r == 0) next

/-- `moving_a_directory_while_it_grows()` -/
def code : Point → Op Point Frame Call Int
  | .mounted => .assert (fun _ => .mounted) (fun r => r != 0) .mkdir
  | .mkdir => assertZero (.mkdir G707_ROOT) .addAction
  | .addAction => assertZero .addAction (.dirs 0)
  | .dirs i => .branch fun _ _ => if i ≤ G707_MOVES then .mkdirDir i else .loop 0
  | .mkdirDir i => assertZero (.mkdir (parent i)) (.dirs (i + 1))
  | .loop l => .branch fun _ _ => if l < G707_LOOPS then .setPlace l else .ret
  | .setPlace l => .act (fun m => { m with place := 0 }) (.mkdirMoving l)
  | .mkdirMoving l => assertZero (.mkdir (dirpath 0)) (.start l)
  | .start l => .start l (.moves l 0)
  | .moves l i => .branch fun _ _ => if i < G707_MOVES then .rename l i else .join l
  | .rename l i => assertZero (.rename (dirpath i) (dirpath (i + 1))) (.publish l i)
  | .publish l i => .act (fun m => { m with place := i + 1 }) (.moves l (i + 1))
  | .join l => .wait l (.expectErr l)
  | .expectErr l => .expect (fun m => (m.creator l).err == 0) (.setFound l)
  | .setFound l => .act (fun m => { m with found := 0 }) (.count l 0)
  | .count l i => .branch fun _ m =>
      if i < G707_FILES ∧ m.found < (m.creator l).created then .present l i else .expectCreated l
  | .present l i => .step ⟨fun _ => some (.exists (filePath G707_MOVES i)), fun _ _ => true, fun _ _ => true, false,
      fun r m => if r ≠ 0 then { m with found := m.found + 1 } else m, fun _ _ _ => .count l (i + 1)⟩
  | .expectCreated l => .expect (fun m => m.found == (m.creator l).created) (.clean l 0)
  | .clean l i => .branch fun _ _ => if i < G707_FILES then .unlink l i else .rmdir l 0
  | .unlink l i => .call (fun _ => .unlink (filePath G707_MOVES i)) (.clean l (i + 1))
  | .rmdir l tries => .step ⟨fun _ => some (.rmdir (dirpath G707_MOVES)), fun _ _ => true, fun _ _ => true, false,
      fun r m => { m with err := r },
      fun _ r _ => if tries + 1 < 20 ∧ r = -ENOTEMPTY then .rmdir l (tries + 1) else .assertRmdir l⟩
  | .assertRmdir l => .check true (fun m => m.err == 0) (.loop (l + 1))
  | .ret => .ret

def program : Program Point Creating Frame Call Int where
  entry := .mounted
  frame := ⟨0, fun _ => ⟨0, 0⟩, 0, 0⟩
  first _ := .head 0
  code := code
  work := createFiles
  spawn := .kthreadRun
  refused r := r < 0

end NfsPlayground.Races.G707
