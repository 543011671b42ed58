import NfsPlayground.Lib.Threads

/-!
# A function and its threads in a world that answers

A world answers every call and is changed by it. The closed system of a program and a world has the state of both, and
its inputs say only who moves and what the world may choose.

`Op.Safe` and `ThreadOp.Safe` are the weakest preconditions of one operation: it fails no check, and what it leads to
has the property. `never_fails` is the induction rule: an invariant under which every operation is safe keeps every
check of a run from failing.
-/

namespace Threads

variable {T W M C A E X : Type}

/-- What the calls are answered, and the answer where no call is made. -/
structure World (X C A E : Type) where
  serve : X → C → E → A × E
  idle : A

namespace World

variable (w : World X C A E)

def reply (x : X) : Option C → E → A × E
  | none, e => (w.idle, e)
  | some c, e => w.serve x c e

end World

variable (w : World X C A E) (p : Program T W M C A)

def Program.stepIn (s : State T W M × E) (i : Option Nat × X) : Unit × (State T W M × E) :=
  let r := w.reply i.2 (p.callOf s.1 i.1) s.2
  ((), (p.step s.1 (i.1, r.1)).2, r.2)

namespace State

variable (s : State T W M)

def goto (t : T) (m : M) : State T W M := { s with test := some t, mem := m }

def spawn (i : Nat) (first : W) (t : T) : State T W M :=
  { s with
    test := some t
    started := Function.update s.started i true
    thread := Function.update s.thread i first }

def move (i : Nat) (u : W) (m : M) : State T W M := { s with mem := m, thread := Function.update s.thread i u }

def signal (i : Nat) (u : W) : State T W M :=
  { s with done := Function.update s.done i true, thread := Function.update s.thread i u }

def leave : State T W M := { s with test := none }

variable {s}

theorem of_spawn_started {i j : Nat} {first : W} {t : T} (h : (s.spawn i first t).started j = true) :
    j = i ∨ s.started j = true := by
  by_cases hji : j = i
  · exact Or.inl hji
  · have hj : Function.update s.started i true j = true := h
    rw [Function.update_of_ne hji] at hj
    exact Or.inr hj

theorem not_started_of_spawn {i j : Nat} {first : W} {t : T} (h : (s.spawn i first t).started j = false) :
    s.started j = false := by
  by_cases hji : j = i
  · subst hji
    have hj : Function.update s.started j true j = false := h
    rw [Function.update_self] at hj
    cases hj
  · have hj : Function.update s.started i true j = false := h
    rwa [Function.update_of_ne hji] at hj

theorem spawn_started (i : Nat) (first : W) (t : T) : (s.spawn i first t).started i = true := Function.update_self ..

theorem move_thread (i : Nat) (u : W) (m : M) : (s.move i u m).thread i = u := Function.update_self ..

theorem move_thread_ne {i j : Nat} (h : j ≠ i) (u : W) (m : M) : (s.move i u m).thread j = s.thread j :=
  Function.update_of_ne h ..

theorem signal_thread_ne {i j : Nat} (h : j ≠ i) (u : W) : (s.signal i u).thread j = s.thread j :=
  Function.update_of_ne h ..

theorem signal_thread (i : Nat) (u : W) : (s.signal i u).thread i = u := Function.update_self ..

theorem signal_done (i : Nat) (u : W) : (s.signal i u).done i = true :=
  show Function.update s.done i true i = true from Function.update_self ..

theorem signal_done_ne {i j : Nat} (h : j ≠ i) (u : W) : (s.signal i u).done j = s.done j := Function.update_of_ne h ..

theorem spawn_thread (i : Nat) (first : W) (t : T) : (s.spawn i first t).thread i = first := Function.update_self ..

end State

/-- The operation, made from the state `s`, fails no check and leads to a state with the property `Q`. -/
def Op.Safe (x : X) (s : State T W M) (e : E) (Q : State T W M → E → Prop) : Op T M C A → Prop
  | .step o =>
    let r := w.reply x (o.call s.mem) e
    if o.ready r.1 s.mem then
      o.holds r.1 s.mem = true ∧ Q (s.goto (o.next s.done r.1 s.mem) (o.store r.1 s.mem)) r.2
    else Q s r.2
  | .start i next =>
    let r := w.serve x p.spawn e
    p.refused r.1 = false ∧ Q (s.spawn i (p.first i) next) r.2
  | .wait i next => if s.done i then Q (s.goto next s.mem) e else Q s e
  | .ret => Q s.leave e

def ThreadOp.Safe (i : Nat) (x : X) (s : State T W M) (e : E) (Q : State T W M → E → Prop) :
    ThreadOp W M C A → Prop
  | .step c store next =>
    let r := w.reply x (c s.mem) e
    Q (s.move i (next r.1 s.mem) (store r.1 s.mem)) r.2
  | .complete next => Q (s.signal i next) e
  | .exit => Q s e

/-! ## The operations -/

section Ops

variable {w p} {x : X} {s : State T W M} {e : E} {Q : State T W M → E → Prop} {next : T}

theorem Op.safe_ite {c : Prop} [Decidable c] {o o' : Op T M C A} (h : c → o.Safe w p x s e Q)
    (h' : ¬c → o'.Safe w p x s e Q) : (if c then o else o').Safe w p x s e Q := by
  split
  · exact h ‹_›
  · exact h' ‹_›

theorem Op.safe_step {o : Step T M C A} {c : C} {r : A × E} (hc : o.call s.mem = some c) (hr : w.serve x c e = r)
    (hready : o.ready r.1 s.mem = true) (hholds : o.holds r.1 s.mem = true)
    (hQ : Q (s.goto (o.next s.done r.1 s.mem) (o.store r.1 s.mem)) r.2) : (Op.step o).Safe w p x s e Q := by
  subst hr
  dsimp only [Op.Safe]
  rw [hc]
  exact (if_pos hready).mpr ⟨hholds, hQ⟩

theorem Op.safe_assertStore {c : M → C} {holds : A → Bool} {store : A → M → M} {r : A × E}
    (hr : w.serve x (c s.mem) e = r) (h : holds r.1 = true) (hQ : Q (s.goto next (store r.1 s.mem)) r.2) :
    (assertStore c holds store next).Safe w p x s e Q := by
  subst hr
  exact ⟨h, hQ⟩

theorem Op.safe_assert {c : M → C} {holds : A → Bool} {r : A × E} (hr : w.serve x (c s.mem) e = r)
    (h : holds r.1 = true) (hQ : Q (s.goto next s.mem) r.2) : (assert c holds next).Safe w p x s e Q :=
  safe_assertStore hr h hQ

theorem Op.safe_expectCall {c : M → C} {holds : A → Bool} {r : A × E} (hr : w.serve x (c s.mem) e = r)
    (h : holds r.1 = true) (hQ : Q (s.goto next s.mem) r.2) : (expectCall c holds next).Safe w p x s e Q := by
  subst hr
  exact ⟨h, hQ⟩

theorem Op.safe_check {fatal : Bool} {holds : M → Bool} (h : holds s.mem = true) (hQ : Q (s.goto next s.mem) e) :
    (check fatal holds next).Safe w p x s e Q := ⟨h, hQ⟩

theorem Op.safe_act {f : M → M} (hQ : Q (s.goto next (f s.mem)) e) : (act f next).Safe w p x s e Q := ⟨rfl, hQ⟩

theorem Op.safe_branch {next : (Nat → Bool) → M → T} (hQ : Q (s.goto (next s.done s.mem) s.mem) e) :
    (branch next).Safe w p x s e Q := ⟨rfl, hQ⟩

theorem Op.safe_expectOr {holds : M → Bool} {otherwise : T} (h : holds s.mem = true) (hQ : Q (s.goto next s.mem) e) :
    (expectOr holds next otherwise).Safe w p x s e Q := by
  refine ⟨h, ?_⟩
  show Q (s.goto (if holds s.mem then next else otherwise) s.mem) e
  rwa [if_pos h]

theorem Op.safe_start {i : Nat} {r : A × E} (hr : w.serve x p.spawn e = r) (h : p.refused r.1 = false)
    (hQ : Q (s.spawn i (p.first i) next) r.2) : (Op.start i next : Op T M C A).Safe w p x s e Q := by
  subst hr
  exact ⟨h, hQ⟩

theorem Op.safe_wait {i : Nat} (h : s.done i = true → Q (s.goto next s.mem) e) (h' : Q s e) :
    (Op.wait i next : Op T M C A).Safe w p x s e Q := by
  show if s.done i then _ else _
  split
  · exact h ‹_›
  · exact h'

theorem ThreadOp.safe_ite {i : Nat} {c : Prop} [Decidable c] {o o' : ThreadOp W M C A} (h : c → o.Safe w i x s e Q)
    (h' : ¬c → o'.Safe w i x s e Q) : (if c then o else o').Safe w i x s e Q := by
  split
  · exact h ‹_›
  · exact h' ‹_›

theorem ThreadOp.safe_call {i : Nat} {c : M → C} {store : A → M → M} {next : A → M → W} {r : A × E}
    (hr : w.serve x (c s.mem) e = r) (hQ : Q (s.move i (next r.1 s.mem) (store r.1 s.mem)) r.2) :
    (ThreadOp.step (fun m => some (c m)) store next).Safe w i x s e Q := by
  subst hr
  exact hQ

end Ops

/-! ## Runs -/

variable {w p} {Inv : State T W M → E → Prop} {Good : State T W M × E → Option Nat × X → Prop}

/-- A thread's step that calls, in the closed system. -/
theorem stepIn_call {s : State T W M} {e : E} {x : X} {i : Nat} {c : M → C} {store : A → M → M} {next : A → M → W}
    {r : A × E} (hst : s.started i = true) (hwork : p.work i (s.thread i) = .step (fun m => some (c m)) store next)
    (hr : w.serve x (c s.mem) e = r) :
    (p.stepIn w (s, e) (some i, x)).2 = (s.move i (next r.1 s.mem) (store r.1 s.mem), r.2) := by
  subst hr
  have hcall : p.callOf s (some i) = some (c s.mem) := by
    unfold Program.callOf
    dsimp only
    rw [if_pos hst, hwork]
  unfold Program.stepIn Program.step Program.threadStep
  dsimp only
  rw [if_pos hst, hwork, hcall]
  rfl

theorem testStep_safe {s : State T W M} {e : E} {x : X}
    (h : ∀ t, s.test = some t → (p.code t).Safe w p x s e Inv) (hinv : Inv s e) :
    Inv (p.stepIn w (s, e) (none, x)).2.1 (p.stepIn w (s, e) (none, x)).2.2 ∧
      (p.stepIn w (s, e) (none, x)).2.1.failed = s.failed := by
  obtain ⟨r, hr⟩ : ∃ r, r = w.reply x (p.callOf s none) e := ⟨_, rfl⟩
  show Inv (p.testStep (w.reply x (p.callOf s none) e).1 s) (w.reply x (p.callOf s none) e).2 ∧
    (p.testStep (w.reply x (p.callOf s none) e).1 s).failed = s.failed
  rw [← hr]
  unfold Program.callOf at hr
  unfold Program.testStep
  cases htest : s.test with
  | none =>
    rw [htest] at hr
    subst hr
    exact ⟨hinv, rfl⟩
  | some t =>
    have hsafe := h t htest
    rw [htest] at hr
    dsimp only at hr ⊢
    cases hcode : p.code t with
    | step o =>
      rw [hcode] at hr hsafe
      dsimp only [Op.Safe] at hr hsafe ⊢
      rw [← hr] at hsafe
      split
      · rename_i hready
        rw [if_pos hready] at hsafe
        obtain ⟨hholds, hQ⟩ := hsafe
        rw [hholds, Bool.not_true, Bool.and_false, Bool.or_false]
        exact ⟨hQ, rfl⟩
      · rename_i hready
        rw [if_neg hready] at hsafe
        exact ⟨hsafe, rfl⟩
    | start i next =>
      rw [hcode] at hr hsafe
      obtain ⟨hrefused, hQ⟩ := hsafe
      change r = w.serve x p.spawn e at hr
      rw [← hr] at hrefused hQ
      dsimp only
      rw [if_neg (Bool.not_eq_true _ ▸ hrefused)]
      exact ⟨hQ, rfl⟩
    | wait i next =>
      rw [hcode] at hr hsafe
      subst hr
      dsimp only [Op.Safe] at hsafe
      dsimp only
      split
      · rename_i hdone
        rw [if_pos hdone] at hsafe
        exact ⟨hsafe, rfl⟩
      · rename_i hdone
        rw [if_neg hdone] at hsafe
        exact ⟨hsafe, rfl⟩
    | ret =>
      rw [hcode] at hr hsafe
      subst hr
      exact ⟨hsafe, rfl⟩

theorem threadStep_safe {s : State T W M} {e : E} {x : X} {i : Nat}
    (h : s.started i = true → (p.work i (s.thread i)).Safe w i x s e Inv) (hinv : Inv s e) :
    Inv (p.stepIn w (s, e) (some i, x)).2.1 (p.stepIn w (s, e) (some i, x)).2.2 ∧
      (p.stepIn w (s, e) (some i, x)).2.1.failed = s.failed := by
  obtain ⟨r, hr⟩ : ∃ r, r = w.reply x (p.callOf s (some i)) e := ⟨_, rfl⟩
  show Inv (p.threadStep i (w.reply x (p.callOf s (some i)) e).1 s) (w.reply x (p.callOf s (some i)) e).2 ∧
    (p.threadStep i (w.reply x (p.callOf s (some i)) e).1 s).failed = s.failed
  rw [← hr]
  unfold Program.callOf at hr
  unfold Program.threadStep
  dsimp only at hr
  by_cases hstarted : s.started i = true
  · have hsafe := h hstarted
    rw [if_pos hstarted] at hr ⊢
    cases hwork : p.work i (s.thread i) with
    | step c store next =>
      rw [hwork] at hr hsafe
      subst hr
      exact ⟨hsafe, rfl⟩
    | complete next =>
      rw [hwork] at hr hsafe
      subst hr
      exact ⟨hsafe, rfl⟩
    | exit =>
      rw [hwork] at hr hsafe
      subst hr
      exact ⟨hsafe, rfl⟩
  · rw [if_neg hstarted] at hr ⊢
    subst hr
    exact ⟨hinv, rfl⟩

theorem stepIn_mem {R : M → M → Prop} (hrefl : ∀ m, R m m) (hcode : ∀ t, (p.code t).Stores R)
    (hwork : ∀ i u, (p.work i u).Stores R) (y : State T W M × E) : ∀ i, R y.1.mem (p.stepIn w y i).2.1.mem
  | (none, _) => Program.testStep_mem hrefl hcode _ y.1
  | (some k, _) => Program.threadStep_mem hrefl hwork k _ y.1

/-- A safe step of the function that can be made goes on. -/
theorem testStep_goes {s : State T W M} {e : E} {x : X} {t : T} {Q : State T W M → E → Prop} {r : T → Prop}
    (ht : s.test = some t) (hsafe : (p.code t).Safe w p x s e Q) (hgoes : (p.code t).Goes r) :
    ∃ t', (p.stepIn w (s, e) (none, x)).2.1.test = some t' ∧ r t' := by
  obtain ⟨a, ha⟩ : ∃ a, a = w.reply x (p.callOf s none) e := ⟨_, rfl⟩
  show ∃ t', (p.testStep (w.reply x (p.callOf s none) e).1 s).test = some t' ∧ r t'
  rw [← ha]
  unfold Program.callOf at ha
  unfold Program.testStep
  rw [ht] at ha ⊢
  dsimp only at ha ⊢
  cases hcode : p.code t with
  | step o =>
    rw [hcode] at ha hsafe hgoes
    obtain ⟨hready, hnext⟩ := hgoes
    dsimp only [Op.Safe] at ha hsafe ⊢
    rw [← ha, if_pos (hready _ _)] at hsafe
    rw [if_pos (hready _ _), hsafe.1, Bool.not_true, Bool.and_false]
    exact ⟨_, rfl, hnext _ _ _⟩
  | start i next =>
    rw [hcode] at ha hsafe hgoes
    have hrefused : p.refused a.1 = false := by
      rw [ha]
      exact hsafe.1
    dsimp only
    rw [if_neg (Bool.not_eq_true _ ▸ hrefused)]
    exact ⟨next, rfl, hgoes⟩
  | wait i next =>
    rw [hcode] at hgoes
    cases hgoes
  | ret =>
    rw [hcode] at hgoes
    cases hgoes

/-- A good step keeps an invariant under which the good steps are safe, and fails no check. -/
theorem stepIn_safe
    (htest : ∀ s e x t, Inv s e → Good (s, e) (none, x) → s.test = some t → (p.code t).Safe w p x s e Inv)
    (hthread : ∀ s e x i, Inv s e → Good (s, e) (some i, x) → s.started i = true →
      (p.work i (s.thread i)).Safe w i x s e Inv)
    (s : State T W M × E) (i : Option Nat × X) (h : Inv s.1 s.2 ∧ s.1.failed = false) (hg : Good s i) :
    Inv (p.stepIn w s i).2.1 (p.stepIn w s i).2.2 ∧ (p.stepIn w s i).2.1.failed = false := by
  obtain ⟨s, e⟩ := s
  obtain ⟨hinv, hfailed⟩ := h
  match i with
  | (none, x) =>
    obtain ⟨hinv', heq⟩ := testStep_safe (fun t ht => htest s e x t hinv hg ht) hinv
    exact ⟨hinv', heq.trans hfailed⟩
  | (some k, x) =>
    obtain ⟨hinv', heq⟩ := threadStep_safe (fun hs => hthread s e x k hinv hg hs) hinv
    exact ⟨hinv', heq.trans hfailed⟩

/-- In a run of good steps the function comes as far as it makes steps, whatever the threads do in between; `ahead` says
how many steps it still has to make. -/
theorem reaches
    (htest : ∀ s e x t, Inv s e → Good (s, e) (none, x) → s.test = some t → (p.code t).Safe w p x s e Inv)
    (hthread : ∀ s e x i, Inv s e → Good (s, e) (some i, x) → s.started i = true →
      (p.work i (s.thread i)).Safe w i x s e Inv)
    {ahead : T → Option Nat} (hgoes : ∀ t n, ahead t = some (n + 1) → (p.code t).Goes fun t' => ahead t' = some n) :
    ∀ {is : List (Option Nat × X)} {y : State T W M × E} {t : T} {k : Nat}, Inv y.1 y.2 ∧ y.1.failed = false →
      Runs.Along (p.stepIn w) Good y is → y.1.test = some t → ahead t = some (k + is.countP (·.1.isNone)) →
      ∃ t', (Runs.exec (p.stepIn w) y is).1.test = some t' ∧ ahead t' = some k
  | [], _, t, _, _, _, ht, hk => ⟨t, ht, hk⟩
  | (none, x) :: is, y, t, k, h, hgood, ht, hk => by
    rw [List.countP_cons_of_pos (by rfl), ← Nat.add_assoc] at hk
    obtain ⟨t', ht', hk'⟩ := testStep_goes (x := x) ht (htest y.1 y.2 x t h.1 hgood.1 ht) (hgoes t _ hk)
    exact reaches htest hthread hgoes (y := (p.stepIn w y (none, x)).2)
      (stepIn_safe htest hthread y (none, x) h hgood.1) hgood.2 ht' hk'
  | (some i, x) :: is, y, t, k, h, hgood, ht, hk => by
    rw [List.countP_cons_of_neg (by simp)] at hk
    have ht' : (p.stepIn w y (some i, x)).2.1.test = some t := (Program.threadStep_test ..).trans ht
    exact reaches htest hthread hgoes (y := (p.stepIn w y (some i, x)).2)
      (stepIn_safe htest hthread y (some i, x) h hgood.1) hgood.2 ht' hk

/-- An invariant under which the good steps are safe keeps the checks of a run of good steps from failing. -/
theorem never_fails
    (htest : ∀ s e x t, Inv s e → Good (s, e) (none, x) → s.test = some t → (p.code t).Safe w p x s e Inv)
    (hthread : ∀ s e x i, Inv s e → Good (s, e) (some i, x) → s.started i = true →
      (p.work i (s.thread i)).Safe w i x s e Inv)
    {e : E} (hinit : Inv p.init e) {is : List (Option Nat × X)}
    (hgood : Runs.Along (p.stepIn w) Good (p.init, e) is) (n : Nat) :
    (Runs.exec (p.stepIn w) (p.init, e) (is.take n)).1.failed = false := by
  have hsplit := (Runs.along_append Good (is.take n) (is.drop n) (p.init, e)).1
    ((List.take_append_drop n is).symm ▸ hgood)
  exact (Runs.exec_inv (stepIn_safe htest hthread) (is.take n) ⟨hinit, rfl⟩ hsplit.1).2

/-- Where every step is safe, the invariant holds in every state of every run, and no check has failed. -/
theorem always_safe
    (htest : ∀ s e x t, Inv s e → s.test = some t → (p.code t).Safe w p x s e Inv)
    (hthread : ∀ s e x i, Inv s e → s.started i = true → (p.work i (s.thread i)).Safe w i x s e Inv)
    {e : E} (hinit : Inv p.init e) (is : List (Option Nat × X)) :
    Inv (Runs.exec (p.stepIn w) (p.init, e) is).1 (Runs.exec (p.stepIn w) (p.init, e) is).2 ∧
      (Runs.exec (p.stepIn w) (p.init, e) is).1.failed = false :=
  Runs.exec_inv' (I := fun y : State T W M × E => Inv y.1 y.2 ∧ y.1.failed = false) (fun s i h =>
    @stepIn_safe _ _ _ _ _ _ _ _ _ _ (fun _ _ => True) (fun s e x t hinv _ => htest s e x t hinv)
      (fun s e x i hinv _ => hthread s e x i hinv) s i h trivial) is ⟨hinit, rfl⟩

end Threads
