import NfsPlayground.Lib.Rounds
import NfsPlayground.Races.Joins
import NfsPlayground.Races.Marks

/-!
# When a marker outlives its record

The record that a thread of generic/340, 344 and 346 works on is on the stack of the function that makes the round. The
thread runs within that call exactly when no `copy_to_user()` of the test function fails before the thread is done
(`marker_within_iff`).
-/

namespace NfsPlayground.Races.Marks

open Threads Runs

/-- The round that the test function is in. -/
def Point.round : Point → Option Nat
  | .mounted | .mkdir | .addAction | .ret => none
  | .unlink r | .create r | .ftruncate r | .mmap r | .prefault r _ | .wasZero r _ | .start r | .mark r _ | .join r
  | .assertErr r | .load0 r _ | .expect0 r _ | .load1 r _ | .expect1 r _ | .munmap r | .close r | .kmalloc r
  | .readPage r _ | .server0 r _ | .server1 r _ => some r

/-- The thread that may run. -/
def Point.runs : Point → Option Nat
  | .mark r _ | .join r => some r
  | _ => none

/-- How many threads have been started. -/
def Point.opened : Point → Option Nat
  | .mounted | .mkdir | .addAction => some 0
  | .unlink r | .create r | .ftruncate r | .mmap r | .prefault r _ | .wasZero r _ | .start r => some r
  | .mark r _ | .join r | .assertErr r | .load0 r _ | .expect0 r _ | .load1 r _ | .expect1 r _ | .munmap r | .close r
  | .kmalloc r | .readPage r _ | .server0 r _ | .server1 r _ => some (r + 1)
  | .ret => none

def shape : Shape Point where
  round := Point.round
  runs := Point.runs
  opened := Point.opened
  round_of_runs := by
    intro t r h
    cases t with
    | mark | join => exact h
    | _ => cases h

namespace Port

variable (p : Port)

theorem waitsFor : p.program.WaitsFor shape.live where
  entry := rfl
  keeps := by
    intro t
    show (p.code t).Keeps shape.live (shape.live t)
    cases t with
    | prefault | load0 | readPage =>
      exact Op.keeps_ite (fun _ _ _ _ => List.nil_subset _) fun _ _ _ _ => List.nil_subset _
    | start => exact ⟨List.mem_singleton.2 rfl, List.nil_subset _⟩
    | mark r i => exact Op.keeps_ite (fun _ _ _ _ => List.Subset.refl _) fun _ _ _ _ => List.Subset.refl _
    | join r => exact fun j hj hne => absurd (List.mem_singleton.1 hj) hne
    | ret => rfl
    | _ => exact fun _ _ _ => List.nil_subset _

/-- The assertion on the marks of the test function. -/
def exits : Point → Answer → Frame → Bool
  | .mark r i, a, _ => i < p.pages r && a.ret != 0
  | _, _, _ => false

theorem exits_eq (t : Point) (a : Answer) (m : Frame) (h : shape.live t ≠ []) :
    p.exits t a m = p.program.rejects t a m := by
  unfold exits Program.rejects
  cases t with
  | mark r i =>
    by_cases hi : i < p.pages r <;> simp [program, code, hi, assertZero, Op.assert, Op.assertStore, Op.act, bne]
  | join r => simp [program, code]
  | _ => exact absurd rfl h

end Port

/-- Whatever the calls answer and whichever way the two interleave, the record of a marker is there for as long as it
runs exactly when no mark of the test function fails while it does. -/
theorem marker_within_iff (p : Port) (is : List (Option Nat × Answer)) :
    (∀ n, shape.Within (exec p.program.step p.program.init (is.take n))) ↔ ExitsAlone p.program p.exits is :=
  Shape.within_iff p.waitsFor p.exits_eq is

/-- In the first round every page is read where the port does that, and then the first page cannot be marked. -/
def unmarkable (p : Port) : List (Option Nat × Answer) :=
  testRun [1, 0, 0, 0, 1, 0, 1] ++
    (if (p.round 0).prefault then
      (List.replicate (p.pages 0) [(none, { ret := 0, bytes := u64 0 }), (none, { ret := 0 })]).flatten ++ testRun [0]
    else []) ++
    testRun [1, 8]

set_option maxRecDepth 20000 in
/-- The function of the round is left, and the thread has not made a step. -/
theorem marker_left_behind (p : Port) (hp : p ∈ [g340, g344, g346]) :
    ¬ shape.Within (exec p.program.step p.program.init (unmarkable p)) := by
  have hleft : ∀ s : State Point Marking Frame, s.test = none → s.started 0 = true → s.done 0 = false →
      ¬ shape.Within s := fun s htest hst hd h => by
    obtain ⟨t, ht, -⟩ := h 0 ⟨hst, hd⟩
    cases htest.symm.trans ht
  simp only [List.mem_cons, List.not_mem_nil, or_false] at hp
  rcases hp with rfl | rfl | rfl
  · exact hleft _ (by decide) (by decide) (by decide)
  · exact hleft _ (by decide +kernel) (by decide +kernel) (by decide +kernel)
  · exact hleft _ (by decide) (by decide) (by decide)

end NfsPlayground.Races.Marks
