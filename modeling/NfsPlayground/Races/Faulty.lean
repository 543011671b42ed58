import NfsPlayground.Lib.PosixSpine
import NfsPlayground.Races.World

/-!
# The ports on a file system whose calls may fail

A call is served as on a conforming file system, or answered with whatever the input says; but a call that says that it
has changed the file system has been served.
-/

namespace NfsPlayground.Races

open Lines Posix Threads

inductive Outcome
  /-- The argument says whether the time of a timed wait is over. -/
  | served (expired : Bool)
  | answers (a : Answer)

/-- The answer says that the call has changed the file system. -/
def Call.succeeds : Call → Answer → Bool
  | .mkdir _, a | .unlink _, a | .link _ _, a | .rename _ _, a | .fallocate _ _ _, a | .ftruncate _ _, a
  | .munmap _ _, a | .copyToUser _ _ _, a => a.ret == 0
  | .create _, a | .mmap _ _, a => !a.isErr
  | .kernelWrite _ _ _, a | .directWrite _ _ _, a => 0 < a.ret
  | _, _ => false

def faultyServe : Outcome → Call → Fs Text → Answer × Fs Text
  | .served expired, c, fs => serve expired c fs
  | .answers a, c, fs => if c.succeeds a then serve false c fs else (a, fs)

def faulty : World Outcome Call Answer (Fs Text) := ⟨faultyServe, default⟩

theorem faulty_cases (x : Outcome) (c : Call) (fs : Fs Text) : (∃ expired, faulty.serve x c fs = serve expired c fs) ∨
    ∃ a, faulty.serve x c fs = (a, fs) ∧ c.succeeds a = false := by
  cases x with
  | served expired => exact Or.inl ⟨expired, rfl⟩
  | answers a =>
    show (∃ expired, (if c.succeeds a then serve false c fs else (a, fs)) = serve expired c fs) ∨
      ∃ b, (if c.succeeds a then serve false c fs else (a, fs)) = (b, fs) ∧ c.succeeds b = false
    split
    · exact Or.inl ⟨false, rfl⟩
    · rename_i h
      exact Or.inr ⟨a, rfl, Bool.not_eq_true _ ▸ h⟩

/-- A call that says that it has changed the file system has been served. -/
theorem faulty_served {x : Outcome} {c : Call} {fs : Fs Text} (h : c.succeeds (faulty.serve x c fs).1 = true) :
    ∃ expired, faulty.serve x c fs = serve expired c fs := by
  rcases faulty_cases x c fs with hserved | ⟨a, hr, ha⟩
  · exact hserved
  · rw [hr] at h
    cases ha.symm.trans h

/-- Every path has what it had, and the files have the numbers they had. -/
def Quiet (fs fs' : Fs Text) : Prop := (∀ p, fs'.get p = fs.get p) ∧ fs.next ≤ fs'.next

theorem Quiet.refl (fs : Fs Text) : Quiet fs fs := ⟨fun _ => rfl, Nat.le_refl _⟩

/-- The calls that leave every path as it is. -/
def Call.keepsPaths : Call → Bool
  | .mkdir _ | .unlink _ | .link _ _ | .rename _ _ | .create _ => false
  | _ => true

theorem write_quiet (fs : Fs Text) (k off : Nat) (bytes : List UInt8) : Quiet fs (fs.write k off bytes).2 := by
  unfold Fs.write
  split
  · exact ⟨fun _ => rfl, Nat.le_refl _⟩
  · exact Quiet.refl fs

theorem serve_quiet {c : Call} (h : c.keepsPaths = true) (expired : Bool) (fs : Fs Text) :
    Quiet fs (serve expired c fs).2 := by
  cases c with
  | mkdir | unlink | link | rename | create => cases h
  | mounted | addAction | kthreadRun | kmalloc | waitTimeout | «exists» | filpOpen | kernelRead | directRead | fsync
  | filpClose | copyFromUser =>
    exact Quiet.refl fs
  | readRange p len off =>
    unfold serve
    dsimp only
    split <;> exact Quiet.refl fs
  | kernPath p =>
    show Quiet fs (fs.lookup (canon p)).2.2
    unfold Fs.lookup
    split
    · exact Quiet.refl fs
    · exact Quiet.refl fs
    · exact ⟨fun _ => rfl, Nat.le_refl _⟩
  | dPath p =>
    unfold serve
    dsimp only
    split <;> exact Quiet.refl fs
  | kernelWrite f data pos | directWrite f data pos => exact write_quiet fs _ _ _
  | fallocate f off len =>
    show Quiet fs (fs.fallocate f.toNat off len).2
    unfold Fs.fallocate
    split
    · split
      · exact Quiet.refl fs
      · exact ⟨fun _ => rfl, Nat.le_refl _⟩
    · exact Quiet.refl fs
  | ftruncate f len =>
    show Quiet fs (fs.truncate f.toNat len).2
    unfold Fs.truncate
    split
    · exact ⟨fun _ => rfl, Nat.le_refl _⟩
    · exact Quiet.refl fs
  | mmap f len =>
    show Quiet fs (fs.mmap f.toNat).2
    unfold Fs.mmap
    split
    · exact ⟨fun _ => rfl, Nat.le_refl _⟩
    · exact Quiet.refl fs
  | munmap addr len =>
    show Quiet fs (fs.munmap addr).2
    unfold Fs.munmap
    split
    · exact ⟨fun _ => rfl, Nat.le_refl _⟩
    · exact Quiet.refl fs
  | copyToUser addr off data =>
    show Quiet fs (fs.store addr off data).2
    unfold Fs.store
    split
    · split
      · exact ⟨fun _ => rfl, Nat.le_refl _⟩
      · exact Quiet.refl fs
    · exact Quiet.refl fs

theorem faulty_quiet {c : Call} (h : c.keepsPaths = true) (x : Outcome) (fs : Fs Text) :
    Quiet fs (faulty.serve x c fs).2 := by
  rcases faulty_cases x c fs with ⟨expired, hr⟩ | ⟨a, hr, -⟩
  · rw [hr]
    exact serve_quiet h expired fs
  · rw [hr]
    exact Quiet.refl fs

end NfsPlayground.Races
