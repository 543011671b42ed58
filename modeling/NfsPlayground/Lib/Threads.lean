import NfsPlayground.Lib.Runs
import Mathlib.Logic.Function.Basic

/-!
# A function and the threads it starts

A function is a graph of program points, and so is each thread it starts; they share the memory of the function's
frame. At every step of a run one of them moves, in whatever order, and a step that makes a call is given an answer.

`joined_iff` is for functions that wait for every thread before they return: in a run, such a function is never left
before all the threads it started are done, exactly when no check that leaves it fails before they are.
-/

namespace Threads

variable {T W M C A : Type}

/-- A step of the function: the call it makes, when it can be made, the check of what came back, what is stored, and
where the function goes on; the first argument of `next` says which threads are done. -/
structure Step (T M C A : Type) where
  call : M → Option C
  ready : A → M → Bool
  holds : A → M → Bool
  fatal : Bool
  store : A → M → M
  next : (Nat → Bool) → A → M → T

inductive Op (T M C A : Type)
  | step (o : Step T M C A)
  | start (i : Nat) (next : T)
  | wait (i : Nat) (next : T)
  | ret

inductive ThreadOp (W M C A : Type)
  | step (call : M → Option C) (store : A → M → M) (next : A → M → W)
  | complete (next : W)
  | exit

namespace Op

/-- A call whose answer is stored and then checked; if the check fails the function is left. -/
def assertStore (c : M → C) (holds : A → Bool) (store : A → M → M) (next : T) : Op T M C A :=
  .step ⟨fun m => some (c m), fun _ _ => true, fun a _ => holds a, true, store, fun _ _ _ => next⟩

def assert (c : M → C) (holds : A → Bool) (next : T) : Op T M C A := assertStore c holds (fun _ m => m) next

/-- A check of the frame. -/
def check (fatal : Bool) (holds : M → Bool) (next : T) : Op T M C A :=
  .step ⟨fun _ => none, fun _ _ => true, fun _ m => holds m, fatal, fun _ m => m, fun _ _ _ => next⟩

/-- A check of the frame; if it fails the function goes on. -/
def expect (holds : M → Bool) (next : T) : Op T M C A := check false holds next

/-- A call whose answer is checked; if the check fails the function goes on. -/
def expectCall (c : M → C) (holds : A → Bool) (next : T) : Op T M C A :=
  .step ⟨fun m => some (c m), fun _ _ => true, fun a _ => holds a, false, fun _ m => m, fun _ _ _ => next⟩

/-- A call whose answer is not looked at. -/
def call (c : M → C) (next : T) : Op T M C A := expectCall c (fun _ => true) next

def act (f : M → M) (next : T) : Op T M C A :=
  .step ⟨fun _ => none, fun _ _ => true, fun _ _ => true, false, fun _ m => f m, fun _ _ _ => next⟩

def branch (next : (Nat → Bool) → M → T) : Op T M C A :=
  .step ⟨fun _ => none, fun _ _ => true, fun _ _ => true, false, fun _ m => m, fun sig _ m => next sig m⟩

/-- A check of the frame that decides where the function goes on. -/
def expectOr (holds : M → Bool) (next otherwise : T) : Op T M C A :=
  .step ⟨fun _ => none, fun _ _ => true, fun _ m => holds m, false, fun _ m => m,
    fun _ _ m => if holds m then next else otherwise⟩

/-- What an operation at a program point with the live threads `now` has to leave live: all of them, also the thread
it starts, and not the one it waits for; where the function returns none may be left. -/
def Keeps (live : T → List Nat) (now : List Nat) : Op T M C A → Prop
  | .step o => ∀ d a m, now ⊆ live (o.next d a m)
  | .start i next => i ∈ live next ∧ now ⊆ live next
  | .wait i next => ∀ j ∈ now, j ≠ i → j ∈ live next
  | .ret => now = []

section Keeps

variable {live : T → List Nat} {now : List Nat}

theorem keeps_ite {c : Prop} [Decidable c] {x y : Op T M C A} (hx : c → x.Keeps live now) (hy : ¬c → y.Keeps live now) :
    (if c then x else y).Keeps live now := by
  split
  · exact hx ‹_›
  · exact hy ‹_›

theorem keeps_branch {next : (Nat → Bool) → M → T} (h : ∀ d m, now ⊆ live (next d m)) :
    (branch next : Op T M C A).Keeps live now := fun d _ m => h d m

end Keeps

/-- What the operation stores is related to what was there. -/
def Stores (R : M → M → Prop) : Op T M C A → Prop
  | .step o => ∀ a m, R m (o.store a m)
  | .start _ _ | .wait _ _ | .ret => True

theorem stores_ite {R : M → M → Prop} {c : Prop} [Decidable c] {x y : Op T M C A} (hx : x.Stores R) (hy : y.Stores R) :
    (if c then x else y).Stores R := by
  split
  · exact hx
  · exact hy

/-- The operation can be made whatever is answered, and goes on where `r` holds. -/
def Goes (r : T → Prop) : Op T M C A → Prop
  | .step o => (∀ a m, o.ready a m = true) ∧ ∀ d a m, r (o.next d a m)
  | .start _ next => r next
  | .wait _ _ | .ret => False

end Op

def ThreadOp.Stores (R : M → M → Prop) : ThreadOp W M C A → Prop
  | .step _ store _ => ∀ a m, R m (store a m)
  | .complete _ | .exit => True

structure Program (T W M C A : Type) where
  entry : T
  frame : M
  /-- Where thread `i` begins. -/
  first : Nat → W
  code : T → Op T M C A
  work : Nat → W → ThreadOp W M C A
  /-- The call that starts a thread, and whether it was refused. -/
  spawn : C
  refused : A → Bool

/-- `test` is `none` once the function is left; `failed` says that some check failed. -/
structure State (T W M : Type) where
  test : Option T
  started : Nat → Bool
  thread : Nat → W
  done : Nat → Bool
  mem : M
  failed : Bool

namespace Program

variable (p : Program T W M C A)

def init : State T W M := ⟨some p.entry, fun _ => false, p.first, fun _ => false, p.frame, false⟩

def testStep (a : A) (s : State T W M) : State T W M :=
  match s.test with
  | none => s
  | some t =>
    match p.code t with
    | .step o =>
      if o.ready a s.mem then
        { s with
          test := if o.fatal && !o.holds a s.mem then none else some (o.next s.done a s.mem)
          mem := o.store a s.mem
          failed := s.failed || !o.holds a s.mem }
      else s
    | .start i next =>
      if p.refused a then { s with test := none, failed := true }
      else { s with
        test := some next
        started := Function.update s.started i true
        thread := Function.update s.thread i (p.first i) }
    | .wait i next => if s.done i then { s with test := some next } else s
    | .ret => { s with test := none }

def threadStep (i : Nat) (a : A) (s : State T W M) : State T W M :=
  if s.started i then
    match p.work i (s.thread i) with
    | .step _ store next => { s with mem := store a s.mem, thread := Function.update s.thread i (next a s.mem) }
    | .complete next => { s with done := Function.update s.done i true, thread := Function.update s.thread i next }
    | .exit => s
  else s

/-- A step of the function (`none`) or of a thread, with the answer to the call it makes. -/
def step (s : State T W M) (i : Option Nat × A) : Unit × State T W M :=
  ((), match i.1 with
    | none => p.testStep i.2 s
    | some k => p.threadStep k i.2 s)

variable {p}

theorem testStep_mem {R : M → M → Prop} (hrefl : ∀ m, R m m) (hcode : ∀ t, (p.code t).Stores R) (a : A)
    (s : State T W M) : R s.mem (p.testStep a s).mem := by
  unfold testStep
  cases htest : s.test with
  | none => exact hrefl _
  | some t =>
    have hstores := hcode t
    dsimp only
    cases hop : p.code t with
    | step o =>
      rw [hop] at hstores
      dsimp only
      split
      · exact hstores a s.mem
      · exact hrefl _
    | start i next =>
      dsimp only
      split
      · exact hrefl _
      · exact hrefl _
    | wait i next =>
      dsimp only
      split
      · exact hrefl _
      · exact hrefl _
    | ret => exact hrefl _

theorem threadStep_mem {R : M → M → Prop} (hrefl : ∀ m, R m m) (hwork : ∀ i u, (p.work i u).Stores R) (i : Nat) (a : A)
    (s : State T W M) : R s.mem (p.threadStep i a s).mem := by
  unfold threadStep
  split
  · have hstores := hwork i (s.thread i)
    cases hop : p.work i (s.thread i) with
    | step c store next =>
      rw [hop] at hstores
      exact hstores a s.mem
    | complete next => exact hrefl _
    | exit => exact hrefl _
  · exact hrefl _

theorem threadStep_test (i : Nat) (a : A) (s : State T W M) : (p.threadStep i a s).test = s.test := by
  unfold threadStep
  split
  · split
    · rfl
    · rfl
    · rfl
  · rfl

variable (p)

/-- The call the next step of the function or of a thread makes. -/
def callOf (s : State T W M) : Option Nat → Option C
  | none =>
    match s.test with
    | none => none
    | some t =>
      match p.code t with
      | .step o => o.call s.mem
      | .start _ _ => some p.spawn
      | _ => none
  | some k =>
    if s.started k then
      match p.work k (s.thread k) with
      | .step c _ _ => c s.mem
      | _ => none
    else none

/-- At `t` the answer fails a check that leaves the function. -/
def rejects (t : T) (a : A) (m : M) : Bool :=
  match p.code t with
  | .step o => o.ready a m && (o.fatal && !o.holds a m)
  | .start _ _ => p.refused a
  | _ => false

theorem test_of_rejects {s : State T W M} {t : T} {a : A} (htest : s.test = some t) (h : p.rejects t a s.mem = true) :
    (p.testStep a s).test = none := by
  unfold rejects at h
  unfold testStep
  rw [htest]
  dsimp only
  cases hcode : p.code t with
  | step o =>
    rw [hcode] at h
    obtain ⟨hready, hfails⟩ := Bool.and_eq_true_iff.1 h
    dsimp only
    rw [if_pos hready]
    exact if_pos hfails
  | start i next =>
    rw [hcode] at h
    exact congrArg State.test (if_pos h)
  | wait i next => rw [hcode] at h; cases h
  | ret => rfl

/-- `live t` are the threads that may still run at the program point `t`. -/
structure WaitsFor (live : T → List Nat) : Prop where
  entry : live p.entry = []
  keeps : ∀ t, (p.code t).Keeps live (live t)

end Program

/-- A thread that was started and is not done. -/
def State.Running (s : State T W M) (i : Nat) : Prop := s.started i = true ∧ s.done i = false

/-- If the function has been left, every thread it started is done. -/
def State.Joined (s : State T W M) : Prop := s.test = none → ∀ i, s.started i = true → s.done i = true

section Join

variable {p : Program T W M C A} {live : T → List Nat}

/-- What the runs keep: the threads that run are among those the program point waits for. -/
def LiveInv (live : T → List Nat) (s : State T W M) : Prop :=
  s.Joined ∧ ∀ t, s.test = some t → ∀ i, s.Running i → i ∈ live t

theorem joined_of_not_running {s : State T W M} (h : ∀ i, ¬ s.Running i) : s.Joined := fun _ i hi => by
  by_contra hd
  exact h i ⟨hi, Bool.eq_false_iff.2 hd⟩

/-- A step that only ends threads keeps it. -/
theorem LiveInv.mono {s s' : State T W M} (h : LiveInv live s) (htest : s'.test = s.test)
    (hrun : ∀ i, s'.Running i → s.Running i) : LiveInv live s' := by
  refine ⟨fun hleft i hi => ?_, fun t ht i hi => h.2 t (htest ▸ ht) i (hrun i hi)⟩
  by_contra hd
  obtain ⟨hstarted, hnot⟩ := hrun i ⟨hi, Bool.eq_false_iff.2 hd⟩
  rw [h.1 (htest ▸ hleft) i hstarted] at hnot
  cases hnot

theorem LiveInv.left {s s' : State T W M} (htest : s'.test = none) (hrun : ∀ i, s'.Running i ↔ s.Running i) :
    LiveInv live s' ↔ ∀ i, ¬ s.Running i := by
  constructor
  · intro h i hi
    obtain ⟨hstarted, hnot⟩ := (hrun i).2 hi
    rw [h.1 htest i hstarted] at hnot
    cases hnot
  · intro h
    refine ⟨joined_of_not_running fun i hi => h i ((hrun i).1 hi), fun t ht => ?_⟩
    rw [htest] at ht
    cases ht

theorem LiveInv.at {s' : State T W M} {t : T} (htest : s'.test = some t) (hlive : ∀ i, s'.Running i → i ∈ live t) :
    LiveInv live s' := by
  constructor
  · intro hleft
    rw [htest] at hleft
    cases hleft
  · intro u hu
    rw [htest, Option.some.injEq] at hu
    exact hu ▸ hlive

theorem threadStep_inv {s : State T W M} (h : LiveInv live s) (k : Nat) (a : A) :
    LiveInv live (p.threadStep k a s) := by
  unfold Program.threadStep
  split
  · split
    · exact h.mono rfl fun i hi => hi
    · refine h.mono rfl fun i hi => ⟨hi.1, ?_⟩
      by_cases hik : i = k
      · subst hik
        have hd : Function.update s.done i true i = false := hi.2
        rw [Function.update_self] at hd
        cases hd
      · have hd : Function.update s.done k true i = false := hi.2
        rwa [Function.update_of_ne hik] at hd
    · exact h
  · exact h

/-- A step of the function keeps it exactly when it does not leave the function while a thread runs. -/
theorem testStep_inv (hp : p.WaitsFor live) {s : State T W M} (h : LiveInv live s) (a : A) :
    LiveInv live (p.testStep a s) ↔ ∀ t, s.test = some t → p.rejects t a s.mem = true → ∀ i, ¬ s.Running i := by
  unfold Program.testStep
  cases htest : s.test with
  | none => simpa using h
  | some t =>
    have hlive := h.2 t htest
    have hkeeps := hp.keeps t
    have hthis : (∀ u, some t = some u → p.rejects u a s.mem = true → ∀ i, ¬ s.Running i) ↔
        (p.rejects t a s.mem = true → ∀ i, ¬ s.Running i) := by simp
    rw [hthis]
    unfold Program.rejects
    dsimp only
    cases hcode : p.code t with
    | step o =>
      rw [hcode] at hkeeps
      dsimp only
      by_cases hready : o.ready a s.mem = true
      · rw [if_pos hready, hready, Bool.true_and]
        cases hleave : (o.fatal && !o.holds a s.mem) with
        | true =>
          exact Iff.trans (LiveInv.left rfl fun i => Iff.rfl) ⟨fun h _ => h, fun h => h rfl⟩
        | false =>
          refine iff_of_true (LiveInv.at rfl fun i hi => ?_) (by simp)
          exact hkeeps s.done a s.mem (hlive i hi)
      · rw [if_neg hready]
        simp only [hready, Bool.false_and]
        exact iff_of_true h (by simp)
    | start i next =>
      rw [hcode] at hkeeps
      dsimp only
      cases hrefused : p.refused a with
      | true =>
        rw [if_pos rfl]
        exact Iff.trans (LiveInv.left rfl fun i => Iff.rfl) ⟨fun h _ => h, fun h => h rfl⟩
      | false =>
        rw [if_neg Bool.false_ne_true]
        refine iff_of_true (LiveInv.at rfl fun j hj => ?_) (by simp)
        by_cases hij : j = i
        · exact hij ▸ hkeeps.1
        · have hstarted : Function.update s.started i true j = true := hj.1
          rw [Function.update_of_ne hij] at hstarted
          exact hkeeps.2 (hlive j ⟨hstarted, hj.2⟩)
    | wait i next =>
      rw [hcode] at hkeeps
      dsimp only
      refine iff_of_true ?_ (by simp)
      split
      · rename_i hdone
        refine LiveInv.at rfl fun j hj => hkeeps j (hlive j hj) ?_
        rintro rfl
        have hnot : s.done j = false := hj.2
        rw [hdone] at hnot
        cases hnot
      · exact h
    | ret =>
      rw [hcode] at hkeeps
      dsimp only
      have hleft : LiveInv live { s with test := none } ↔ ∀ i, ¬ s.Running i := LiveInv.left rfl fun i => Iff.rfl
      refine iff_of_true (hleft.2 fun i hi => ?_) (by simp)
      have hmem := hlive i hi
      rw [show live t = [] from hkeeps] at hmem
      exact List.not_mem_nil hmem

/-- The step of the function is not one that leaves it, by the exits `exits`, while a thread runs. -/
def LeavesAlone (exits : T → A → M → Bool) (s : State T W M) (i : Option Nat × A) : Prop :=
  i.1 = none → ∀ t, s.test = some t → exits t i.2 s.mem = true → ∀ k, ¬ s.Running k

/-- The exits matter only at the program points where a thread may run. -/
theorem leavesAlone_iff {exits : T → A → M → Bool} (hexits : ∀ t a m, live t ≠ [] → exits t a m = p.rejects t a m)
    {s : State T W M} (h : LiveInv live s) (a : A) :
    LeavesAlone exits s (none, a) ↔ ∀ t, s.test = some t → p.rejects t a s.mem = true → ∀ k, ¬ s.Running k := by
  unfold LeavesAlone
  simp only [true_implies]
  refine forall_congr' fun t => ⟨fun halone htest hrejects k hk => ?_, fun halone htest hexit k hk => ?_⟩
  · have hlive : live t ≠ [] := List.ne_nil_of_mem (h.2 t htest k hk)
    exact halone htest (hexits t a s.mem hlive ▸ hrejects) k hk
  · have hlive : live t ≠ [] := List.ne_nil_of_mem (h.2 t htest k hk)
    exact halone htest (hexits t a s.mem hlive ▸ hexit) k hk

/-- Where the live threads keep `J`, and `J` has the function not be left while a thread runs, `J` holds in every state
of a run exactly when the function is not left by one of the exits while a thread runs. -/
theorem holds_iff (hp : p.WaitsFor live) {exits : T → A → M → Bool}
    (hexits : ∀ t a m, live t ≠ [] → exits t a m = p.rejects t a m) {J : State T W M → Prop}
    (hlive : ∀ s, LiveInv live s → J s) (hjoins : ∀ s, J s → s.Joined) (is : List (Option Nat × A)) :
    (∀ n, J (Runs.exec p.step p.init (is.take n))) ↔ Runs.Along p.step (LeavesAlone exits) p.init is := by
  have hinit : LiveInv live p.init := by
    constructor
    · intro hleft
      cases hleft
    · intro t ht i hi
      cases hi.1
  refine Runs.forall_take_iff_along_of hlive ?_ is hinit
  rintro s ⟨_ | k, a⟩ h
  · have hkeeps := testStep_inv hp h a
    rw [leavesAlone_iff hexits h]
    refine ⟨fun hj t htest hrejects => hkeeps.1 ⟨hjoins _ hj, fun u hu => ?_⟩ t htest hrejects, hkeeps.2⟩
    have hnone : (p.testStep a s).test = none := p.test_of_rejects htest hrejects
    rw [hnone] at hu
    cases hu
  · refine ⟨fun _ hthread => ?_, fun _ => threadStep_inv h k a⟩
    cases hthread

/-- In a run the function is never left before every thread it started is done, exactly when it is not left by one of
the exits while one of them runs. -/
theorem joined_iff (hp : p.WaitsFor live) {exits : T → A → M → Bool}
    (hexits : ∀ t a m, live t ≠ [] → exits t a m = p.rejects t a m) (is : List (Option Nat × A)) :
    (∀ n, (Runs.exec p.step p.init (is.take n)).Joined) ↔ Runs.Along p.step (LeavesAlone exits) p.init is :=
  holds_iff hp hexits (fun _ h => h.1) (fun _ h => h) is

end Join

end Threads
