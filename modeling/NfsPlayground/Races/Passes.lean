import NfsPlayground.Races.Safe028
import NfsPlayground.Races.Safe084
import NfsPlayground.Races.Safe364
import NfsPlayground.Races.Safe438

/-!
# Which schedules a conforming file system passes

On a conforming file system the ports fail only where a progress counter is still zero when it is checked, or a timed
wait times out: every run of friendly steps passes (`friendly_runs_pass`). The writer of 364 can be done before the test
function looks at it for the first time (`writer_first_fails`).
-/

namespace NfsPlayground.Races

open Lines Posix Threads Runs

variable {T W M : Type}

/-- No assertion and no expectation has failed, at any time of the run on a file system that begins as `fs`. -/
def Passes (p : Program T W M Call Answer) (fs : Fs Text) (is : List (Option Nat × Bool)) : Prop :=
  ∀ n, (exec (p.stepIn world) (p.init, fs) (is.take n)).1.failed = false

/-- The steps of the run are friendly. -/
def FriendlyRun (p : Program T W M Call Answer) (friendly : State T W M × Fs Text → Option Nat × Bool → Prop)
    (fs : Fs Text) (is : List (Option Nat × Bool)) : Prop :=
  Along (p.stepIn world) friendly (p.init, fs) is

theorem friendly_runs_pass (fs : Fs Text) (is : List (Option Nat × Bool)) :
    (Fresh G084.G084_ROOT fs → FriendlyRun G084.program G084.Friendly fs is → Passes G084.program fs is) ∧
      (Fresh G364.G364_ROOT fs → FriendlyRun G364.program G364.Friendly fs is → Passes G364.program fs is) ∧
      (Fresh G438.G438_ROOT fs → FriendlyRun G438.program G438.Friendly fs is → Passes G438.program fs is) ∧
      (Fresh G028.G_ROOT fs → FriendlyRun G028.program G028.Friendly fs is → Passes G028.program fs is) := by
  refine ⟨fun hfresh h => ?_, fun hfresh h => ?_, fun hfresh h => ?_, fun hfresh h => ?_⟩
  · exact G084.passes hfresh h
  · exact G364.passes hfresh h
  · exact G438.passes hfresh h
  · exact G028.passes hfresh h

/-- An empty export, mounted. -/
def emptyExport : Fs Text where
  nodes := [([], .dir), ([['m', 'n', 't']], .dir), (XFS_MNT, .dir)]
  data _ := []
  next := 0
  refs := []
  maps := []

theorem emptyExport_fresh (n : Text) : Fresh (XFS_MNT ++ [n]) emptyExport where
  mnt := by
    intro q hq
    rw [← List.mem_inits] at hq
    simp only [XFS_MNT, List.inits, List.map_cons, List.map_nil, List.mem_cons, List.not_mem_nil, or_false] at hq
    rcases hq with rfl | rfl | rfl <;> rfl
  free t := by
    refine Fs.get_eq_none fun e he => ?_
    simp only [emptyExport, XFS_MNT, List.mem_cons, List.not_mem_nil, or_false] at he
    rcases he with rfl | rfl | rfl <;> simp [XFS_MNT]

/-- Steps of the test function. -/
def testSteps (k : Nat) : List (Option Nat × Bool) := List.replicate k (none, false)

/-- Steps of a thread. -/
def threadSteps (i k : Nat) : List (Option Nat × Bool) := List.replicate k (some i, false)

theorem length_testSteps (k : Nat) : (testSteps k).length = k := List.length_replicate

theorem length_threadSteps (i k : Nat) : (threadSteps i k).length = k := List.length_replicate

theorem countP_testSteps (k : Nat) : (testSteps k).countP (·.1.isNone) = k := by
  rw [testSteps, List.countP_replicate]
  rfl

theorem countP_threadSteps (i k : Nat) : (threadSteps i k).countP (·.1.isNone) = 0 := by
  rw [threadSteps, List.countP_replicate]
  rfl

theorem not_expired_steps (i k n : Nat) : ∀ step ∈ testSteps k ++ (threadSteps i 3 ++ testSteps n), step.2 = false := by
  intro step hstep
  simp only [List.mem_append, testSteps, threadSteps, List.mem_replicate] at hstep
  rcases hstep with ⟨-, rfl⟩ | ⟨-, rfl⟩ | ⟨-, rfl⟩ <;> rfl

/-- 084: a storm links before the target is removed for the first time, and the other is past its test of the flag when
it is set and links only then; both end, and the test function returns. -/
def run084 : List (Option Nat × Bool) :=
  testSteps 25 ++ threadSteps 0 2 ++ testSteps 601 ++ threadSteps 1 1 ++ testSteps 1 ++ threadSteps 1 4 ++
    threadSteps 0 4 ++ testSteps 13

/-- 364: the test function looks at the writer, and syncs, between its writes. -/
def run364 : List (Option Nat × Bool) := testSteps 5 ++ threadSteps 0 2 ++ testSteps 3 ++ threadSteps 0 1 ++ testSteps 2

/-- 438: the syncer syncs once before the file is filled, and is past its test of the flag again. -/
def start438 : List (Option Nat × Bool) := testSteps 7 ++ threadSteps 0 3

/-- The file is filled, and the flag set. -/
def fill438 : List (Option Nat × Bool) := testSteps (4 * G438.G438_SIZE + 2)

/-- The syncer syncs once more and ends, and the test function returns. -/
def end438 : List (Option Nat × Bool) := threadSteps 0 3 ++ testSteps 13

/-- 028: the test function begins to wait before the racer has made a step, and goes on when the time is over and the
racer has started. -/
def start028 : List (Option Nat × Bool) := testSteps 14 ++ threadSteps 0 3 ++ [(none, true)]

/-- The racer renames its file, and is past its test of the flag again. -/
def rename028 : List (Option Nat × Bool) := threadSteps 0 3

/-- The paths are read, and the flag is set. -/
def read028 : List (Option Nat × Bool) := testSteps (6 * G028.G028_READS + 3)

/-- The racer renames once more and ends, and the test function returns. -/
def end028 : List (Option Nat × Bool) := threadSteps 0 3 ++ testSteps 30

theorem start438_friendly {js : List (Option Nat × Bool)} (h : js.length < 2 ^ 63) :
    FriendlyRun G438.program G438.Friendly emptyExport (start438 ++ js) := by
  have hsyncs : (exec (G438.program.stepIn world) (G438.program.init, emptyExport) start438).1.mem.syncs = 1 := by
    decide +kernel
  refine (along_append ..).2 ⟨by decide +kernel, G438.friendly_of_synced ?_ ?_⟩
  · rw [hsyncs]
    exact Nat.zero_lt_one
  · rw [hsyncs]
    omega

theorem start028_friendly {js : List (Option Nat × Bool)} (h : js.length < 2 ^ 63) (hx : ∀ i ∈ js, i.2 = false) :
    FriendlyRun G028.program G028.Friendly emptyExport (start028 ++ (rename028 ++ js)) := by
  have hrenames : (exec (G028.program.stepIn world) (G028.program.init, emptyExport)
      (start028 ++ rename028)).1.mem.renames = 1 := by decide +kernel
  rw [← List.append_assoc]
  refine (along_append ..).2 ⟨by decide +kernel, G028.friendly_of_renamed hx ?_ ?_⟩
  · rw [hrenames]
    exact Nat.zero_lt_one
  · rw [hrenames]
    omega

/-- A run of each port through the point where it can fail: where the flag is set, and for 364 the first look. -/
theorem friendly_runs_pass_through :
    (Passes G084.program emptyExport run084 ∧
        (exec (G084.program.stepIn world) (G084.program.init, emptyExport) run084).1.test = none) ∧
      Passes G364.program emptyExport run364 ∧
      (Passes G438.program emptyExport (start438 ++ (fill438 ++ end438)) ∧
        (exec (G438.program.stepIn world) (G438.program.init, emptyExport) (start438 ++ fill438)).1.mem.stop = true) ∧
      Passes G028.program emptyExport (start028 ++ (rename028 ++ (read028 ++ end028))) ∧
        (exec (G028.program.stepIn world) (G028.program.init, emptyExport)
          (start028 ++ (rename028 ++ read028))).1.mem.stop = true := by
  refine ⟨⟨(friendly_runs_pass _ _).1 (emptyExport_fresh _) ?_, by decide +kernel⟩,
    (friendly_runs_pass _ _).2.1 (emptyExport_fresh _) ?_,
    ⟨(friendly_runs_pass _ _).2.2.1 (emptyExport_fresh _) ?_, G438.stops (emptyExport_fresh _) ?_ ?_⟩,
    (friendly_runs_pass _ _).2.2.2 (emptyExport_fresh _) ?_, G028.stops (emptyExport_fresh _) ?_ (by decide +kernel) ?_⟩
  · unfold FriendlyRun
    decide +kernel
  · unfold FriendlyRun
    decide +kernel
  · refine start438_friendly ?_
    simp only [fill438, end438, List.length_append, length_testSteps, length_threadSteps, G438.G438_SIZE]
    omega
  · refine start438_friendly ?_
    rw [fill438, length_testSteps, G438.G438_SIZE]
    omega
  · simp only [start438, fill438, List.countP_append, countP_testSteps, countP_threadSteps]
    omega
  · refine start028_friendly ?_ fun i hi => not_expired_steps 0 _ 30 i hi
    simp only [read028, end028, List.length_append, length_testSteps, length_threadSteps, G028.G028_READS]
    omega
  · refine @start028_friendly read028 ?_ fun i hi => ?_
    · rw [read028, length_testSteps, G028.G028_READS]
      omega
    · exact not_expired_steps 0 _ 30 i (List.mem_append_left _ hi)
  · simp only [rename028, read028, List.countP_append, countP_testSteps, countP_threadSteps, Nat.zero_add]

/-! ## A schedule that fails -/

namespace G364

/-- The test function is about to look at the writer, which has written `i` chunks; nothing has been synced. -/
structure Alone (i : Nat) (x : Config × Fs Text) : Prop where
  test : x.1.test = some .head
  started : x.1.started 0 = true
  thread : x.1.thread 0 = .write i
  syncs : x.1.mem.syncs = 0
  lt : x.1.mem.f.toNat < x.2.next

/-- A step of the writer. -/
def writerStep (x : Config × Fs Text) : Config × Fs Text := (program.stepIn world x (some 0, false)).2

theorem alone_step {i : Nat} {x : Config × Fs Text} (h : Alone i x) (hi : i < G364_ROUNDS) :
    Alone (i + 1) (writerStep x) := by
  obtain ⟨s, fs⟩ := x
  have hwork : program.work 0 (s.thread 0) = .step
      (fun m => some (.directWrite m.f (List.replicate G364_CHUNK G364_BYTE) (i * G364_CHUNK)))
      (fun a m => if a.ret ≠ G364_CHUNK then { m with err := if a.ret < 0 then a.ret else - EIO } else m)
      fun a _ => if a.ret ≠ G364_CHUNK then .complete else .write (i + 1) := by
    rw [show s.thread 0 = .write i from h.thread]
    exact if_pos hi
  obtain ⟨fs', hr, ho⟩ : ∃ fs', world.serve false
      (.directWrite s.mem.f (List.replicate G364_CHUNK G364_BYTE) (i * G364_CHUNK)) fs =
        answer ((G364_CHUNK : Int), fs') ∧
      Fs.OnlyAt [] fs fs' := by
    obtain ⟨fs', hr, -, ho⟩ := serve_directWrite h.lt
    exact ⟨fs', hr.trans (by rw [List.length_replicate]), ho []⟩
  rw [writerStep, stepIn_call h.started hwork hr]
  exact ⟨h.test, h.started, State.move_thread .., h.syncs, Nat.lt_of_lt_of_le h.lt ho.next⟩

theorem alone_run {i : Nat} : ∀ {k : Nat} {x : Config × Fs Text}, Alone i x → i + k ≤ G364_ROUNDS →
    Alone (i + k) (exec (program.stepIn world) x (List.replicate k (some 0, false)))
  | 0, _, h, _ => h
  | k + 1, x, h, hk => by
    have h' := alone_run (i := i + 1) (k := k) (alone_step h (by omega)) (by omega)
    rw [show i + (k + 1) = i + 1 + k by omega]
    exact h'

/-- The writer has written everything; it ends, and the test function goes to the check of its counter. -/
theorem alone_fails {x : Config × Fs Text} (h : Alone G364_ROUNDS x) :
    (exec (program.stepIn world) x
      [(some 0, false), (some 0, false), (none, false), (none, false), (none, false), (none, false)]).1.failed =
        true := by
  obtain ⟨⟨test, started, thread, done, ⟨f, err, syncs, buf⟩, failed⟩, fs⟩ := x
  obtain ⟨htest, hstarted, hthread, hsyncs, -⟩ := h
  dsimp only at htest hstarted hthread hsyncs
  subst htest hsyncs
  simp [exec, Program.stepIn, Program.step, Program.threadStep, Program.testStep, Program.callOf, World.reply, hstarted,
    hthread, program, writeLoop, code, Op.branch, Op.expect, Op.check]

end G364

/-- The test function starts the writer; the writer writes the whole file and signals its completion; only then the test
function looks at it, and does not sync once. -/
def writerFirst : List (Option Nat × Bool) :=
  List.replicate 5 (none, false) ++ [(some 0, false)] ++ List.replicate G364.G364_ROUNDS (some 0, false) ++
    [(some 0, false), (some 0, false), (none, false), (none, false), (none, false), (none, false)]

theorem writer_first_fails : Fresh G364.G364_ROOT emptyExport ∧ ¬ Passes G364.program emptyExport writerFirst := by
  refine ⟨emptyExport_fresh _, fun h => ?_⟩
  have hstart : G364.Alone 0 (exec (G364.program.stepIn world) (G364.program.init, emptyExport)
      (List.replicate 5 (none, false) ++ [(some 0, false)])) := ⟨rfl, rfl, rfl, rfl, by decide⟩
  have hrun := G364.alone_run hstart (Nat.le_of_eq (Nat.zero_add G364.G364_ROUNDS))
  rw [Nat.zero_add] at hrun
  have hfailed := G364.alone_fails hrun
  have hpasses := h writerFirst.length
  rw [List.take_length, writerFirst, exec_append, exec_append] at hpasses
  cases hfailed.symm.trans hpasses

end NfsPlayground.Races
