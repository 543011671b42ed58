import NfsPlayground.Races.G084
import NfsPlayground.Races.G310
import NfsPlayground.Races.G364
import NfsPlayground.Races.G438

/-!
# When a thread outlives the frame it writes to

Each of the ports waits for every thread before it returns (`waitsFor`), but an assertion that fails between the start
and the wait leaves the test function at once. The exits of a port are the assertions it makes there; the frame
outlives the threads exactly when none of them is taken while a thread runs (`frames_outlive_iff`).
-/

namespace NfsPlayground.Races

open Posix Threads Runs

/-! ## generic/084 -/

namespace G084

/-- The storm `j` may run. -/
def mayRun : Point → Nat → Bool
  | .start i, j => j < i
  | .remove _, _ | .recreate _, _ | .rewrite _, _ | .setStop, _ => true
  | .join i, j => i ≤ j
  | .expectErr i, j | .expectLinks i, j => i < j
  | _, _ => false

def live (t : Point) : List Nat := (List.range G084_STORMS).filter (mayRun t)

theorem mem_live {t : Point} {j : Nat} : j ∈ live t ↔ j < G084_STORMS ∧ mayRun t j = true := by
  rw [live, List.mem_filter, List.mem_range]

theorem live_subset {t u : Point} (h : ∀ j, j < G084_STORMS → mayRun t j = true → mayRun u j = true) :
    live t ⊆ live u :=
  fun j hj => mem_live.2 ⟨(mem_live.1 hj).1, h j (mem_live.1 hj).1 (mem_live.1 hj).2⟩

theorem waitsFor : program.WaitsFor live where
  entry := rfl
  keeps := by
    intro t
    show (code t).Keeps live (live t)
    cases t with
    | mounted | mkdir | addAction | write | openFile | unlink | createSrc | writeSrc =>
      exact fun _ _ _ => List.nil_subset _
    | create i => exact Op.keeps_ite (fun _ _ _ _ => List.nil_subset _) fun _ _ _ _ => List.nil_subset _
    | start i =>
      refine Op.keeps_ite (fun h => ⟨?_, live_subset fun j _ hj => ?_⟩) fun _ _ _ _ => live_subset fun _ _ _ => rfl
      · exact mem_live.2 ⟨h, by simp [mayRun]⟩
      · simp only [mayRun, decide_eq_true_eq] at hj ⊢
        omega
    | remove i =>
      exact Op.keeps_ite (fun _ _ _ _ => live_subset fun _ _ _ => rfl) fun _ _ _ _ => live_subset fun _ _ _ => rfl
    | recreate i | rewrite i => exact fun _ _ _ => live_subset fun _ _ _ => rfl
    | setStop => exact fun _ _ _ => live_subset fun j _ _ => by simp [mayRun]
    | join i =>
      refine Op.keeps_ite (fun _ j hj hne => ?_) fun hi _ _ _ => live_subset fun j hj hle => ?_
      · obtain ⟨hlt, hle⟩ := mem_live.1 hj
        simp only [mayRun, decide_eq_true_eq] at hle
        exact mem_live.2 ⟨hlt, by simp only [mayRun, decide_eq_true_eq]; omega⟩
      · simp only [mayRun, decide_eq_true_eq] at hle
        omega
    | expectErr i => exact fun _ _ _ => live_subset fun _ _ h => h
    | expectLinks i =>
      refine fun _ _ _ => live_subset fun j _ hlt => ?_
      simp only [mayRun, decide_eq_true_eq] at hlt ⊢
      omega
    | close i => exact Op.keeps_ite (fun _ _ _ _ => List.nil_subset _) fun _ => rfl
    | ret => rfl

/-- The second `kthread_run()`, and the assertions of the third loop. -/
def exits : Point → Answer → Frame → Bool
  | .start i, a, _ => i < G084_STORMS && a.isErr
  | .remove i, a, _ => i < G084_ROUNDS && !(a.ret == 0 || a.ret == -ENOENT)
  | .recreate _, a, _ => a.isErr
  | .rewrite _, a, _ => !(0 < a.ret)
  | _, _, _ => false

theorem exits_eq (t : Point) (a : Answer) (m : Frame) (h : live t ≠ []) : exits t a m = program.rejects t a m := by
  unfold exits Program.rejects
  cases t with
  | start i => by_cases hi : i < G084_STORMS <;> simp [program, code, hi, Op.act]
  | remove i => by_cases hi : i < G084_ROUNDS <;> simp [program, code, hi, Op.assert, Op.assertStore, Op.act]
  | recreate i => simp [program, code, assertFile, Op.assertStore]
  | rewrite i => simp [program, code, assertWritten, Op.assert, Op.assertStore]
  | join i => by_cases hi : i < G084_STORMS <;> simp [program, code, hi, Op.act]
  | setStop | expectErr | expectLinks => simp [program, code, Op.act, Op.expect, Op.check]
  | _ => exact absurd rfl h

end G084

/-! ## The ports with one thread -/

section One

variable {T : Type} {running : T → Bool} {t u : T}

/-- The thread may run at the program points `running`. -/
def live (running : T → Bool) (t : T) : List Nat := if running t then [0] else []

theorem live_subset (h : running t = true → running u = true) : live running t ⊆ live running u := by
  unfold live
  split
  · rename_i ht
    rw [if_pos (h ht)]
    exact List.Subset.refl _
  · exact List.nil_subset _

theorem live_wait {j : Nat} (hj : j ∈ live running t) : j = 0 := by
  unfold live at hj
  split at hj
  · exact List.mem_singleton.1 hj
  · cases hj

end One

namespace G364

def running : Point → Bool
  | .head | .sync | .join => true
  | _ => false

theorem waitsFor : program.WaitsFor (live running) where
  entry := rfl
  keeps := by
    intro t
    show (code t).Keeps (live running) (live running t)
    cases t with
    | start => exact ⟨List.mem_singleton.2 rfl, List.nil_subset _⟩
    | head =>
      intro d _ _
      simp only
      split
      · exact live_subset fun _ => rfl
      · exact live_subset fun _ => rfl
    | sync => exact fun _ _ _ => live_subset fun _ => rfl
    | join => exact fun j hj hne => absurd (live_wait hj) hne
    | read i => exact Op.keeps_ite (fun _ _ _ _ => List.nil_subset _) fun _ => rfl
    | ret => rfl
    | _ => exact fun _ _ _ => List.nil_subset _

/-- The assertion on `vfs_fsync()`. -/
def exits : Point → Answer → Frame → Bool
  | .sync, a, _ => a.ret != 0
  | _, _, _ => false

theorem exits_eq (t : Point) (a : Answer) (m : Frame) (h : live running t ≠ []) :
    exits t a m = program.rejects t a m := by
  unfold exits Program.rejects
  cases t with
  | sync => simp [program, code, Op.assertStore, bne]
  | head | join => simp [program, code, Op.branch]
  | _ => exact absurd rfl h

end G364

namespace G438

def running : Point → Bool
  | .fallocate _ | .write _ | .readBack _ | .assertBack _ | .setStop | .join => true
  | _ => false

theorem waitsFor : program.WaitsFor (live running) where
  entry := rfl
  keeps := by
    intro t
    show (code t).Keeps (live running) (live running t)
    cases t with
    | start => exact ⟨List.mem_singleton.2 rfl, List.nil_subset _⟩
    | fallocate i =>
      exact Op.keeps_ite (fun _ _ _ _ => live_subset fun _ => rfl) fun _ _ _ _ => live_subset fun _ => rfl
    | write | readBack | assertBack | setStop => exact fun _ _ _ => live_subset fun _ => rfl
    | join => exact fun j hj hne => absurd (live_wait hj) hne
    | ret => rfl
    | _ => exact fun _ _ _ => List.nil_subset _

/-- The assertions of the loop. -/
def exits : Point → Answer → Frame → Bool
  | .fallocate i, a, _ => i < G438_SIZE && a.ret != 0
  | .write _, a, _ => a.ret != 0
  | .readBack _, a, _ => a.ret != 0
  | .assertBack _, _, m => m.back != G438_BYTE
  | _, _, _ => false

theorem exits_eq (t : Point) (a : Answer) (m : Frame) (h : live running t ≠ []) :
    exits t a m = program.rejects t a m := by
  unfold exits Program.rejects
  cases t with
  | fallocate i =>
    by_cases hi : i < G438_SIZE <;> simp [program, code, hi, assertZero, Op.assert, Op.assertStore, Op.act, bne]
  | write i => simp [program, code, assertZero, Op.assert, Op.assertStore, bne]
  | readBack i => simp [program, code, Op.assertStore, bne]
  | assertBack i => simp [program, code, Op.check, bne]
  | setStop | join => simp [program, code, Op.act]
  | _ => exact absurd rfl h

end G438

namespace G310

def running : Point → Bool
  | .settle _ | .sleep _ | .seek _ | .iterate _ | .again _ | .expectEntries _ | .expectAlien _ | .setStop | .join =>
    true
  | _ => false

theorem waitsFor : program.WaitsFor (live running) where
  entry := rfl
  keeps := by
    intro t
    show (code t).Keeps (live running) (live running t)
    cases t with
    | create i => exact Op.keeps_ite (fun _ _ _ _ => List.nil_subset _) fun _ _ _ _ => List.nil_subset _
    | start => exact ⟨List.mem_singleton.2 rfl, List.nil_subset _⟩
    | settle i | again i =>
      refine Op.keeps_branch fun _ m => ?_
      split
      · exact live_subset fun _ => rfl
      · exact live_subset fun _ => rfl
    | seek i =>
      exact Op.keeps_ite (fun _ _ _ _ => live_subset fun _ => rfl) fun _ _ _ _ => live_subset fun _ => rfl
    | sleep | iterate | expectEntries | expectAlien | setStop => exact fun _ _ _ => live_subset fun _ => rfl
    | join => exact fun j hj hne => absurd (live_wait hj) hne
    | ret => rfl
    | _ => exact fun _ _ _ => List.nil_subset _

/-- The assertions of the walks. -/
def exits : Point → DirAnswer → Frame → Bool
  | .seek i, a, _ => i < G310_ROUNDS && a.ret != 0
  | .iterate _, a, _ => a.ret != 0
  | _, _, _ => false

theorem exits_eq (t : Point) (a : DirAnswer) (m : Frame) (h : live running t ≠ []) :
    exits t a m = program.rejects t a m := by
  unfold exits Program.rejects
  cases t with
  | seek i => by_cases hi : i < G310_ROUNDS <;> simp [program, code, hi, Op.assertStore, Op.act, bne]
  | iterate i => simp [program, code, Op.assertStore, bne]
  | settle | sleep | again | expectEntries | expectAlien | setStop | join =>
    simp [program, code, Op.branch, Op.call, Op.expectCall, Op.expect, Op.check, Op.act]
  | _ => exact absurd rfl h

end G310

/-! ## The frames -/

section Frames

variable {W M C A : Type}

/-- Whenever the test function has been left, every thread it started has signalled its completion. -/
def FrameOutlives {T : Type} (p : Program T W M C A) (is : List (Option Nat × A)) : Prop :=
  ∀ n, (exec p.step p.init (is.take n)).Joined

/-- No exit is taken while a thread runs. -/
def ExitsAlone {T : Type} (p : Program T W M C A) (exits : T → A → M → Bool) (is : List (Option Nat × A)) : Prop :=
  Along p.step (LeavesAlone exits) p.init is

end Frames

/-- Whatever the calls answer and whichever way the threads interleave, the frame of each port outlives the threads
exactly when no exit is taken while one runs. -/
theorem frames_outlive_iff (is : List (Option Nat × Answer)) (ds : List (Option Nat × G310.DirAnswer)) :
    (FrameOutlives G084.program is ↔ ExitsAlone G084.program G084.exits is) ∧
      (FrameOutlives G310.program ds ↔ ExitsAlone G310.program G310.exits ds) ∧
      (FrameOutlives G364.program is ↔ ExitsAlone G364.program G364.exits is) ∧
      (FrameOutlives G438.program is ↔ ExitsAlone G438.program G438.exits is) := by
  refine ⟨?_, ?_, ?_, ?_⟩
  · exact joined_iff G084.waitsFor G084.exits_eq is
  · exact joined_iff G310.waitsFor G310.exits_eq ds
  · exact joined_iff G364.waitsFor G364.exits_eq is
  · exact joined_iff G438.waitsFor G438.exits_eq is

/-- Steps of the test function, with what the calls return. -/
def testRun (rets : List Int) : List (Option Nat × Answer) := rets.map fun r => (none, { ret := r })

/-- The first round of 364 finds `fsync` failing, in 438 the first byte does not fit, in 084 the second thread is
refused: the thread that was started has not made a step. In 310 the reader is past its first read when the first
`llseek` fails. -/
theorem frames_left_to_threads :
    ¬ FrameOutlives G364.program (testRun [1, 0, 0, 0, 0, 0, -5]) ∧
      ¬ FrameOutlives G438.program (testRun [1, 0, 0, 0, 1, 0, 0, -28]) ∧
      ¬ FrameOutlives G084.program
        (testRun ([1, 0, 0] ++ (List.replicate 4 [0, 1, 0, 0]).flatten ++ [0, 0, 1, 0, -12])) ∧
      ¬ FrameOutlives G310.program
        (([1, 0, 0, 0] ++ List.replicate 32 0 ++ [0, 0, 1, 1, 0]).map (fun r => (none, ⟨r, []⟩)) ++
          [(some 0, ⟨0, []⟩), (some 0, ⟨0, []⟩), (some 0, ⟨-21, []⟩), (none, ⟨0, []⟩), (none, ⟨-5, []⟩)]) := by
  refine ⟨fun h => ?_, fun h => ?_, fun h => ?_, fun h => ?_⟩
  · exact absurd (h 7 (by decide) 0 (by decide)) (by decide)
  · exact absurd (h 8 (by decide) 0 (by decide)) (by decide)
  · exact absurd (h 24 (by decide) 0 (by decide)) (by decide)
  · exact absurd (h 46 (by decide) 0 (by decide)) (by decide)

end NfsPlayground.Races
