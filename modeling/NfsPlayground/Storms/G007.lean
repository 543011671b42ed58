import NfsPlayground.Lib.Ends
import NfsPlayground.Lib.Posix
import Mathlib.Tactic.SplitIfs

/-!
# generic/007: a table of names against a directory

The test keeps for each name whether it exists and with which inode number, and checks each answer against that. Over a
conforming directory the table is the directory after every operation (`run_served`). Over any other file system
it is what the history of successful creates and removes says, and the test fails at the first operation whose answer
is not what this history allows (`run_error_iff`).
-/

namespace NfsPlayground.Storms.G007

open Posix

def G007_NAMES : Nat := 100
def G007_ITERS : Nat := 20000

/-! ## The test -/

inductive Op
  | create (i : Nat)
  | remove (i : Nat)
  | lookup (i : Nat)
  deriving DecidableEq

/-- An entry of `g007_tab`. -/
structure Entry where
  present : Bool
  ino : UInt64

abbrev Table := Nat → Entry

/-- What the calls of an operation return: its open, unlink or stat; and the stat after a create. -/
structure Answer where
  err : Int
  stat : Int
  ino : UInt64

/-- The assertions. -/
inductive Failed
  | createdTwice
  | createStat
  | createError
  | createMissing
  | removedTwice
  | removeError
  | removeMissing
  | lookupPresent
  | lookupIno
  | lookupError
  | lookupMissing
  deriving DecidableEq

def g007_create (tab : Table) (i : Nat) (a : Answer) : Except Failed Table :=
  if 0 ≤ a.err then
    if (tab i).present then .error .createdTwice
    else if a.stat = 0 then .ok (Function.update tab i ⟨true, a.ino⟩) else .error .createStat
  else if a.err = - EEXIST then if (tab i).present then .ok tab else .error .createMissing
  else .error .createError

def g007_remove (tab : Table) (i : Nat) (a : Answer) : Except Failed Table :=
  if a.err = 0 then
    if (tab i).present then .ok (Function.update tab i { tab i with present := false }) else .error .removedTwice
  else if a.err = - ENOENT then if (tab i).present then .error .removeMissing else .ok tab
  else .error .removeError

def g007_lookup (tab : Table) (i : Nat) (a : Answer) : Except Failed Table :=
  if a.err = 0 then
    if (tab i).present then if a.ino = (tab i).ino then .ok tab else .error .lookupIno
    else .error .lookupPresent
  else if a.err = - ENOENT then if (tab i).present then .error .lookupMissing else .ok tab
  else .error .lookupError

def step (tab : Table) : Op → Answer → Except Failed Table
  | .create i, a => g007_create tab i a
  | .remove i, a => g007_remove tab i a
  | .lookup i, a => g007_lookup tab i a

/-- An operation and what the file system has answered. -/
structure Event where
  op : Op
  answer : Answer

/-- The operations one after the other; a failure is told with the number of its operation. -/
def run : Nat → Table → List Event → Except (Nat × Failed) Table
  | _, tab, [] => .ok tab
  | k, tab, e :: es =>
    match step tab e.op e.answer with
    | .ok tab => run (k + 1) tab es
    | .error f => .error (k, f)

/-- `memset()` -/
def noNames : Table := fun _ => ⟨false, 0⟩

/-- What a pass of the loop draws. -/
def drawn (iter : Nat) (r : UInt32) : Op :=
  let i := (r.toNat >>> 8) % G007_NAMES
  let op := r.toNat % 100
  let create_pct := if iter < G007_ITERS / 3 then 50 else if iter < 2 * G007_ITERS / 3 then 75 else 25
  if op < 40 then .lookup i
  else if (op - 40) % 60 < create_pct * 60 / 100 then .create i
  else .remove i

def Op.name : Op → Nat
  | .create i | .remove i | .lookup i => i

/-! ## A conforming file system -/

/-- The inode numbers of the names that exist. -/
abbrev Dir := Nat → Option UInt64

/-- What a directory answers; a new name gets the number `fresh`, which others may have or have had. -/
def serve (fresh : UInt64) (dir : Dir) : Op → Answer × Dir
  | .create i =>
    match dir i with
    | some _ => (⟨- EEXIST, 0, 0⟩, dir)
    | none => (⟨0, 0, fresh⟩, Function.update dir i (some fresh))
  | .remove i =>
    match dir i with
    | some _ => (⟨0, 0, 0⟩, Function.update dir i none)
    | none => (⟨- ENOENT, 0, 0⟩, dir)
  | .lookup i =>
    match dir i with
    | some ino => (⟨0, 0, ino⟩, dir)
    | none => (⟨- ENOENT, 0, 0⟩, dir)

/-- What happens in a sequence of operations, and the directory after it. -/
def served (fresh : Nat → UInt64) : Nat → Dir → List Op → List Event × Dir
  | _, dir, [] => ([], dir)
  | k, dir, op :: ops =>
    let r := serve (fresh k) dir op
    let rest := served fresh (k + 1) r.2 ops
    (⟨op, r.1⟩ :: rest.1, rest.2)

/-- The table is the directory: the names that exist, and their inode numbers. -/
def Refines (tab : Table) (dir : Dir) : Prop :=
  ∀ i, (tab i).present = (dir i).isSome ∧ ∀ ino, dir i = some ino → (tab i).ino = ino

variable {tab tab' : Table} {dir : Dir}

theorem Refines.update (h : Refines tab dir) {i : Nat} {x : Option UInt64} {e : Entry} (hpresent : e.present = x.isSome)
    (hino : ∀ ino, x = some ino → e.ino = ino) : Refines (Function.update tab i e) (Function.update dir i x) := by
  intro j
  by_cases hj : j = i
  · subst hj
    simpa using ⟨hpresent, hino⟩
  · simpa [hj] using h j

/-- The table follows the directory through every operation. -/
theorem step_serve (h : Refines tab dir) (fresh : UInt64) (op : Op) :
    ∃ tab', step tab op (serve fresh dir op).1 = .ok tab' ∧ Refines tab' (serve fresh dir op).2 := by
  cases op with
  | create i =>
    have hpresent := (h i).1
    cases hdir : dir i with
    | some ino =>
      rw [hdir] at hpresent
      exact ⟨tab, by simp [step, serve, g007_create, hdir, hpresent, EEXIST], by simpa [serve, hdir] using h⟩
    | none =>
      rw [hdir] at hpresent
      refine ⟨_, by simp [step, serve, g007_create, hdir, hpresent]; rfl, ?_⟩
      simpa [serve, hdir] using h.update (e := ⟨true, fresh⟩) (x := some fresh) rfl (by simp)
  | remove i =>
    have hpresent := (h i).1
    cases hdir : dir i with
    | some ino =>
      rw [hdir] at hpresent
      refine ⟨_, by simp [step, serve, g007_remove, hdir, hpresent]; rfl, ?_⟩
      simpa [serve, hdir] using h.update (e := { tab i with present := false }) (x := none) rfl (by simp)
    | none =>
      rw [hdir] at hpresent
      exact ⟨tab, by simp [step, serve, g007_remove, hdir, hpresent, ENOENT], by simpa [serve, hdir] using h⟩
  | lookup i =>
    have hpresent := (h i).1
    cases hdir : dir i with
    | some ino =>
      rw [hdir] at hpresent
      have hino := (h i).2 ino hdir
      exact ⟨tab, by simp [step, serve, g007_lookup, hdir, hpresent, hino], by simpa [serve, hdir] using h⟩
    | none =>
      rw [hdir] at hpresent
      exact ⟨tab, by simp [step, serve, g007_lookup, hdir, hpresent, ENOENT], by simpa [serve, hdir] using h⟩

theorem run_served (fresh : Nat → UInt64) : ∀ (ops : List Op) (k : Nat) {tab : Table} {dir : Dir}, Refines tab dir →
    ∃ tab', run k tab (served fresh k dir ops).1 = .ok tab' ∧ Refines tab' (served fresh k dir ops).2 := by
  intro ops
  induction ops with
  | nil => exact fun k tab dir h => ⟨tab, rfl, h⟩
  | cons op ops ih =>
    intro k tab dir h
    obtain ⟨tab₁, hstep, h₁⟩ := step_serve h (fresh k) op
    obtain ⟨tab₂, hrun, h₂⟩ := ih (k + 1) h₁
    refine ⟨tab₂, ?_, h₂⟩
    simp only [served, run, hstep]
    exact hrun

/-! ## Any file system -/

/-- A successful create or remove of the name. -/
def Event.touches (e : Event) (i : Nat) : Bool :=
  match e.op with
  | .create j => j = i ∧ 0 ≤ e.answer.err
  | .remove j => j = i ∧ e.answer.err = 0
  | .lookup _ => false

/-- The inode number that the name has by the history: its last successful create or remove was a create. -/
def expected (history : List Event) (i : Nat) : Option UInt64 :=
  match (history.filter (·.touches i)).getLast? with
  | some ⟨.create _, a⟩ => some a.ino
  | _ => none

theorem expected_snoc (history : List Event) (e : Event) (i : Nat) : expected (history ++ [e]) i =
    if e.touches i then (match e.op with | .create _ => some e.answer.ino | _ => none) else expected history i := by
  unfold expected
  rw [List.filter_append]
  by_cases h : e.touches i
  · simp only [h, List.filter_cons_of_pos, List.filter_nil, List.getLast?_concat, if_true]
    obtain ⟨op, a⟩ := e
    cases op <;> rfl
  · simp [h]

/-- The answer is not what the history allows. -/
def Contradicts (history : List Event) (e : Event) : Prop :=
  match e.op with
  | .create i => 0 ≤ e.answer.err ∧ (expected history i).isSome ∨ e.answer.err = - EEXIST ∧ expected history i = none
  | .remove i => e.answer.err = 0 ∧ expected history i = none ∨ e.answer.err = - ENOENT ∧ (expected history i).isSome
  | .lookup i =>
    e.answer.err = 0 ∧ expected history i ≠ some e.answer.ino ∨ e.answer.err = - ENOENT ∧ (expected history i).isSome

/-- An error that no history allows; or the name that has just been created cannot be looked up. -/
def Unexpected (e : Event) : Prop :=
  match e.op with
  | .create _ => e.answer.err < 0 ∧ e.answer.err ≠ - EEXIST ∨ 0 ≤ e.answer.err ∧ e.answer.stat ≠ 0
  | _ => e.answer.err ≠ 0 ∧ e.answer.err ≠ - ENOENT

/-- An operation fails exactly if it should, and otherwise the table is what the history says. -/
def Judges (tab : Table) (history : List Event) (e : Event) : Prop :=
  Ends (fun tab' => ¬ (Contradicts history e ∨ Unexpected e) ∧ Refines tab' (expected (history ++ [e])))
    (fun _ => Contradicts history e ∨ Unexpected e) (step tab e.op e.answer)

variable {history : List Event}

theorem expected_untouched {e : Event} (h : ∀ i, e.touches i = false) :
    expected (history ++ [e]) = expected history := by
  funext i
  rw [expected_snoc, h i]
  rfl

theorem judges_lookup (h : Refines tab (expected history)) (i : Nat) (a : Answer) :
    Judges tab history ⟨.lookup i, a⟩ := by
  have hpresent := (h i).1
  have hino := (h i).2
  have hsame : expected (history ++ [⟨.lookup i, a⟩]) = expected history := expected_untouched fun _ => rfl
  unfold Judges
  rw [hsame]
  simp only [step, g007_lookup, Contradicts, Unexpected, ENOENT]
  by_cases herr : a.err = 0
  · cases hi : expected history i with
    | some ino =>
      rw [hi] at hpresent
      rw [hino ino hi]
      by_cases heq : a.ino = ino
      · simpa [Ends, herr, hpresent, heq] using h
      · simpa [Ends, herr, hpresent, heq] using Ne.symm heq
    | none =>
      rw [hi] at hpresent
      simp [Ends, herr, hpresent]
  · by_cases hnoent : a.err = -2
    · cases hi : expected history i with
      | some ino =>
        rw [hi] at hpresent
        simp [Ends, hnoent, hpresent]
      | none =>
        rw [hi] at hpresent
        simpa [Ends, hnoent, hpresent] using h
    · simp [Ends, herr, hnoent]

theorem judges_remove (h : Refines tab (expected history)) (i : Nat) (a : Answer) :
    Judges tab history ⟨.remove i, a⟩ := by
  have hpresent := (h i).1
  unfold Judges
  simp only [step, g007_remove, Contradicts, Unexpected, ENOENT]
  by_cases herr : a.err = 0
  · cases hi : expected history i with
    | some ino =>
      rw [hi] at hpresent
      have hnone : expected (history ++ [⟨.remove i, a⟩]) = Function.update (expected history) i none := by
        funext j
        rw [expected_snoc]
        by_cases hj : i = j
        · subst hj
          simp [Event.touches, herr]
        · simp [Event.touches, hj, Function.update_of_ne (Ne.symm hj)]
      simpa [Ends, herr, hpresent, hnone] using
        h.update (e := { tab i with present := false }) (x := none) rfl (by simp)
    | none =>
      rw [hi] at hpresent
      simp [Ends, herr, hpresent]
  · have hsame : expected (history ++ [⟨.remove i, a⟩]) = expected history :=
      expected_untouched fun j => by simp [Event.touches, herr]
    rw [hsame]
    by_cases hnoent : a.err = -2
    · cases hi : expected history i with
      | some ino =>
        rw [hi] at hpresent
        simp [Ends, hnoent, hpresent]
      | none =>
        rw [hi] at hpresent
        simpa [Ends, hnoent, hpresent] using h
    · simp [Ends, herr, hnoent]

theorem judges_create (h : Refines tab (expected history)) (i : Nat) (a : Answer) :
    Judges tab history ⟨.create i, a⟩ := by
  have hpresent := (h i).1
  unfold Judges
  simp only [step, g007_create, Contradicts, Unexpected, EEXIST]
  by_cases herr : 0 ≤ a.err
  · have hne : a.err ≠ -17 := by omega
    cases hi : expected history i with
    | some ino =>
      rw [hi] at hpresent
      simp [Ends, herr, hpresent]
    | none =>
      rw [hi] at hpresent
      by_cases hstat : a.stat = 0
      · have hsome : expected (history ++ [⟨.create i, a⟩]) = Function.update (expected history) i (some a.ino) := by
          funext j
          rw [expected_snoc]
          by_cases hj : i = j
          · subst hj
            simp [Event.touches, herr]
          · simp [Event.touches, hj, Function.update_of_ne (Ne.symm hj)]
        have hlt : ¬ a.err < 0 := by omega
        simpa [Ends, herr, hpresent, hsome, hstat, hne, hlt] using
          h.update (e := ⟨true, a.ino⟩) (x := some a.ino) rfl (by simp)
      · simp [Ends, herr, hpresent, hstat]
  · have hsame : expected (history ++ [⟨.create i, a⟩]) = expected history :=
      expected_untouched fun j => by simp [Event.touches, herr]
    rw [hsame]
    by_cases hexist : a.err = -17
    · cases hi : expected history i with
      | some ino =>
        rw [hi] at hpresent
        simpa [Ends, hexist, hpresent] using h
      | none =>
        rw [hi] at hpresent
        simp [Ends, hexist, hpresent]
    · have hlt : a.err < 0 := by omega
      simp [Ends, herr, hexist, hlt]

theorem judges (h : Refines tab (expected history)) (e : Event) : Judges tab history e := by
  obtain ⟨op, a⟩ := e
  cases op with
  | create i => exact judges_create h i a
  | remove i => exact judges_remove h i a
  | lookup i => exact judges_lookup h i a

/-! ## Runs -/

/-- What the test fails at. -/
def Bad (history : List Event) (e : Event) : Prop := Contradicts history e ∨ Unexpected e

/-- The event with this number is the first one to fail at. -/
def FirstBad (events : List Event) (k : Nat) : Prop := ∃ pre e post, events = pre ++ e :: post ∧ pre.length = k ∧
  Bad pre e ∧ ∀ pre' e' post', pre = pre' ++ e' :: post' → ¬ Bad pre' e'

/-- After a history the run goes up to the first event to fail at. -/
theorem run_spec : ∀ (events : List Event) (k : Nat) {tab : Table} {history : List Event},
    Refines tab (expected history) →
      Ends (fun tab' => Refines tab' (expected (history ++ events)) ∧
          ∀ pre e post, events = pre ++ e :: post → ¬ Bad (history ++ pre) e)
        (fun r => ∃ pre e post, events = pre ++ e :: post ∧ k + pre.length = r.1 ∧ Bad (history ++ pre) e ∧
          ∀ pre' e' post', pre = pre' ++ e' :: post' → ¬ Bad (history ++ pre') e') (run k tab events) := by
  intro events
  induction events with
  | nil =>
    intro k tab history h
    exact ⟨by simpa using h, by simp⟩
  | cons e events ih =>
    intro k tab history h
    have hjudges := judges h e
    unfold Judges at hjudges
    rw [run]
    cases hstep : step tab e.op e.answer with
    | error f =>
      rw [hstep] at hjudges
      exact ⟨[], e, events, rfl, rfl, by rw [List.append_nil]; exact hjudges, by simp⟩
    | ok tab₁ =>
      rw [hstep] at hjudges
      obtain ⟨hgood, hnext⟩ := hjudges
      have hgood' : ¬ Bad (history ++ []) e := by rw [List.append_nil]; exact hgood
      have hcons : ∀ pre : List Event, history ++ [e] ++ pre = history ++ e :: pre := fun pre => by simp
      refine (ih (k + 1) hnext).mono (fun tab' h' => ?_) (fun r h' => ?_)
      · rw [hcons] at h'
        refine ⟨h'.1, fun pre x post heq => ?_⟩
        cases pre with
        | nil =>
          rw [← (List.cons.inj heq).1]
          exact hgood'
        | cons y pre =>
          obtain ⟨rfl, hrest⟩ := List.cons.inj heq
          rw [← hcons]
          exact h'.2 pre x post hrest
      · obtain ⟨pre, x, post, rfl, hlen, hbad, hfirst⟩ := h'
        refine ⟨e :: pre, x, post, rfl, ?_, ?_, fun pre' y post' heq => ?_⟩
        · rw [List.length_cons, ← hlen]
          omega
        · rw [← hcons]
          exact hbad
        · cases pre' with
          | nil =>
            rw [← (List.cons.inj heq).1]
            exact hgood'
          | cons z pre' =>
            obtain ⟨rfl, hrest⟩ := List.cons.inj heq
            rw [← hcons]
            exact hfirst pre' y post' hrest

theorem refines_nothing : Refines noNames (expected []) := fun _ => ⟨rfl, by simp [expected]⟩

theorem FirstBad.eq {events : List Event} {k k' : Nat} (h : FirstBad events k) (h' : FirstBad events k') : k = k' := by
  have hle : ∀ {k k'}, FirstBad events k → FirstBad events k' → k' ≤ k := by
    rintro _ _ ⟨pre, e, post, rfl, rfl, hbad, -⟩ ⟨pre', e', post', heq, rfl, -, hfirst⟩
    by_contra hlt
    rcases List.append_eq_append_iff.1 heq with ⟨mid, rfl, hmid⟩ | ⟨mid, rfl, hmid⟩
    · cases mid with
      | nil => simp at hlt
      | cons x mid =>
        obtain ⟨rfl, -⟩ := List.cons.inj hmid
        exact hfirst pre e mid rfl hbad
    · simp at hlt
  exact Nat.le_antisymm (hle h' h) (hle h h')

/-- The run fails at the first event that a history forbids. -/
theorem run_error_iff (events : List Event) (k : Nat) :
    (∃ f, run 0 noNames events = .error (k, f)) ↔ FirstBad events k := by
  have hspec := run_spec events 0 refines_nothing
  have hfirst : ∀ k' f, run 0 noNames events = .error (k', f) → FirstBad events k' := by
    intro k' f hrun
    rw [hrun] at hspec
    simpa [Ends, FirstBad] using hspec
  constructor
  · rintro ⟨f, hrun⟩
    exact hfirst k f hrun
  · intro h
    cases hrun : run 0 noNames events with
    | error r =>
      rw [h.eq (hfirst r.1 r.2 hrun)]
      exact ⟨r.2, rfl⟩
    | ok tab =>
      rw [hrun] at hspec
      obtain ⟨pre, e, post, heq, -, hbad, -⟩ := h
      exact absurd hbad (hspec.2 pre e post heq)

/-- On a conforming directory the table is the directory after every sequence of operations, also where inode numbers
come again. On any file system the test fails exactly at the first event that a history forbids; in particular, once
it has got there, at an answer that contradicts the history. -/
theorem nametest_consistent (fresh : Nat → UInt64) (ops : List Op) (events : List Event) (k : Nat) :
    (∃ tab, run 0 noNames (served fresh 0 (fun _ => none) ops).1 = .ok tab ∧
      Refines tab (served fresh 0 (fun _ => none) ops).2) ∧
    ((∃ f, run 0 noNames events = .error (k, f)) ↔ FirstBad events k) ∧
    ∀ pre e post, events = pre ++ e :: post → (∃ tab, run 0 noNames pre = .ok tab) → Contradicts pre e →
      ∃ f, run 0 noNames events = .error (pre.length, f) := by
  refine ⟨run_served fresh ops 0 fun i => ⟨rfl, by simp⟩, run_error_iff events k, ?_⟩
  rintro pre e post rfl ⟨tab, hrun⟩ hbad
  have hspec := run_spec pre 0 refines_nothing
  rw [hrun] at hspec
  exact (run_error_iff _ _).2 ⟨pre, e, post, rfl, rfl, Or.inl hbad, hspec.2⟩

end NfsPlayground.Storms.G007
