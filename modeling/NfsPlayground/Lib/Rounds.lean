import NfsPlayground.Lib.Closed

/-!
# Functions that go through rounds, with a thread in each

In the round `r` the function starts the thread `r`, does something while it runs, and waits for it. The shape of such a
function says of each program point which round it is in, whose thread may run there, and how many threads have been
started; what holds of the frame, at each program point and at the end is a parameter. `Inv` has of the threads what
the shape asks for, and a lemma for each kind of step.

Where the live threads of a program point are those of its round, a thread runs within its round exactly when the
function is not left by an exit while it runs (`within_iff`).
-/

namespace Threads

variable {T W M C A E X : Type}

structure Shape (T : Type) where
  /-- The round that the function is in. -/
  round : T → Option Nat
  /-- The thread that may run. -/
  runs : T → Option Nat
  /-- How many threads have been started, for as long as there may be more. -/
  opened : T → Option Nat
  round_of_runs : ∀ {t r}, runs t = some r → round t = some r

namespace Shape

variable (d : Shape T)

def live (t : T) : List Nat := (d.runs t).toList

/-- A thread runs only while the function is in the round that started it. -/
def Within (s : State T W M) : Prop := ∀ r, s.Running r → ∃ t, s.test = some t ∧ d.round t = some r

variable {d}

theorem mem_live {t : T} {r : Nat} : r ∈ d.live t ↔ d.runs t = some r := Option.mem_toList.trans Option.mem_def

theorem within_iff {p : Program T W M C A} (hp : p.WaitsFor d.live) {exits : T → A → M → Bool}
    (hexits : ∀ t a m, d.live t ≠ [] → exits t a m = p.rejects t a m) (is : List (Option Nat × A)) :
    (∀ n, d.Within (Runs.exec p.step p.init (is.take n))) ↔ Runs.Along p.step (LeavesAlone exits) p.init is := by
  refine holds_iff hp hexits (fun s h r hr => ?_) (fun s h hleft i hi => ?_) is
  · cases htest : s.test with
    | none =>
      have hdone := h.1 htest r hr.1
      cases hr.2.symm.trans hdone
    | some t => exact ⟨t, rfl, d.round_of_runs (mem_live.1 (h.2 t htest r hr))⟩
  · by_contra hd
    obtain ⟨t, ht, -⟩ := h i ⟨hi, Bool.eq_false_iff.2 hd⟩
    cases hleft.symm.trans ht

/-- A function that has no exit while a thread runs. -/
theorem always_within {p : Program T W M C A} (hp : p.WaitsFor d.live)
    (hstays : ∀ t a m, d.live t ≠ [] → p.rejects t a m = false) (is : List (Option Nat × A)) (n : Nat) :
    d.Within (Runs.exec p.step p.init (is.take n)) := by
  have hexits : ∀ t a m, d.live t ≠ [] → false = p.rejects t a m := fun t a m h => (hstays t a m h).symm
  refine (within_iff hp hexits is).2 ?_ n
  exact Runs.along_of fun s i _ t _ hfalse => absurd hfalse Bool.false_ne_true

end Shape

/-- A shape, the number of rounds, where the threads end, and what holds of the frame, at the program points and once
the function has returned. -/
structure Rounds (T W M E : Type) extends Shape T where
  count : Nat
  exit : W
  frame : M → Prop
  body : T → State T W M → E → Prop
  left : E → Prop

namespace Rounds

structure Inv (d : Rounds T W M E) (s : State T W M) (e : E) : Prop where
  frame : d.frame s.mem
  done : ∀ r, s.done r = true → s.started r = true ∧ s.thread r = d.exit
  unstarted : ∀ t n, s.test = some t → d.opened t = some n → ∀ r, n ≤ r → s.started r = false
  /-- A thread that has not ended is the one of the round that waits for it. -/
  moving : ∀ r, s.started r = true → s.thread r ≠ d.exit → ∃ t, s.test = some t ∧ d.runs t = some r
  round : ∀ t r, s.test = some t → d.round t = some r → r < d.count
  body : ∀ t, s.test = some t → d.body t s e
  left : s.test = none → d.left e

variable {d : Rounds T W M E} {s : State T W M} {e e' : E} {t u : T} {m : M} {r : Nat}

/-! ## Steps of the function -/

theorem Inv.goto (h : d.Inv s e) (ht : s.test = some t) (hframe : d.frame m)
    (hopened : ∀ n, d.opened u = some n → d.opened t = some n) (hround : ∀ r, d.round u = some r → r < d.count)
    (hruns : ∀ r, d.runs t = some r → d.runs u = some r ∨ s.thread r = d.exit) (hbody : d.body u (s.goto u m) e') :
    d.Inv (s.goto u m) e' := by
  refine ⟨hframe, h.done, fun v n hv hn => ?_, fun r hst hne => ?_, fun v r hv hr => ?_, fun v hv => ?_,
    fun hleft => ?_⟩
  · cases hv
    exact h.unstarted t n ht (hopened n hn)
  · obtain ⟨v, hv, hr⟩ := h.moving r hst hne
    cases ht.symm.trans hv
    exact ⟨u, rfl, (hruns r hr).resolve_right hne⟩
  · cases hv
    exact hround r hr
  · cases hv
    exact hbody
  · cases hleft

/-- The function moves on within a round, and waits for nobody. -/
theorem Inv.within (h : d.Inv s e) (ht : s.test = some t) (hframe : d.frame m)
    (hsame : d.opened u = d.opened t ∧ d.round u = d.round t ∧ d.runs u = d.runs t)
    (hbody : d.body u (s.goto u m) e') : d.Inv (s.goto u m) e' :=
  h.goto ht hframe (fun _ hn => hsame.1 ▸ hn) (fun r hr => h.round t r ht (hsame.2.1 ▸ hr))
    (fun _ hr => Or.inl (hsame.2.2.trans hr)) hbody

/-- It moves on once the thread of the round is done. -/
theorem Inv.joined (h : d.Inv s e) (ht : s.test = some t) (hruns : d.runs t = some r) (hdone : s.done r = true)
    (hsame : d.opened u = d.opened t ∧ d.round u = d.round t) (hbody : d.body u (s.goto u s.mem) e) :
    d.Inv (s.goto u s.mem) e := by
  refine h.goto ht h.frame (fun _ hn => hsame.1 ▸ hn) (fun q hq => h.round t q ht (hsame.2 ▸ hq)) (fun q hq => ?_) hbody
  cases hruns.symm.trans hq
  exact Or.inr (h.done r hdone).2

/-- The thread of the round is started. -/
theorem Inv.spawn (h : d.Inv s e) (ht : s.test = some t) {first : W} (hopened : d.opened t = some r)
    (hruns : d.runs t = none) (hu : d.opened u = some (r + 1) ∧ d.runs u = some r ∧ d.round u = d.round t)
    (hbody : d.body u (s.spawn r first u) e) : d.Inv (s.spawn r first u) e := by
  have hidle : ∀ q, r ≤ q → s.started q = false := h.unstarted t r ht hopened
  have hne : ∀ {q}, s.started q = true → q ≠ r := fun hst heq => by
    rw [heq, hidle r (Nat.le_refl r)] at hst
    cases hst
  refine ⟨h.frame, fun q hq => ?_, fun v n hv hn q hq => ?_, fun q hst hgo => ?_, fun v q hv hq => ?_, fun v hv => ?_,
    fun hleft => ?_⟩
  · have hold := h.done q hq
    refine ⟨?_, ?_⟩
    · exact (Function.update_of_ne (hne hold.1) ..).trans hold.1
    · exact (Function.update_of_ne (hne hold.1) ..).trans hold.2
  · cases hv
    cases hu.1.symm.trans hn
    exact (Function.update_of_ne (by omega) ..).trans (hidle q (by omega))
  · rcases State.of_spawn_started hst with rfl | hold
    · exact ⟨u, rfl, hu.2.1⟩
    · have hthread : (s.spawn r first u).thread q = s.thread q := Function.update_of_ne (hne hold) ..
      obtain ⟨v, hv, hq⟩ := h.moving q hold (hthread ▸ hgo)
      cases ht.symm.trans hv
      cases hruns.symm.trans hq
  · cases hv
    exact h.round t q ht (hu.2.2 ▸ hq)
  · cases hv
    exact hbody
  · cases hleft

theorem Inv.leave (h : d.Inv s e) (ht : s.test = some t) (hruns : d.runs t = none) (hleft : d.left e) :
    d.Inv s.leave e := by
  refine ⟨h.frame, h.done, fun v n hv => ?_, fun q hst hne => ?_, fun v q hv => ?_, fun v hv => ?_, fun _ => hleft⟩
  · cases hv
  · obtain ⟨v, hv, hq⟩ := h.moving q hst hne
    cases ht.symm.trans hv
    cases hruns.symm.trans hq
  · cases hv
  · cases hv

/-! ## Steps of a thread -/

/-- A thread that has not ended moves, and the program point of its round holds of where it is then. -/
theorem Inv.move (h : d.Inv s e) (hst : s.started r = true) (hne : s.thread r ≠ d.exit) {v : W}
    (hbody : ∀ t, s.test = some t → d.runs t = some r → d.body t (s.move r v s.mem) e') :
    d.Inv (s.move r v s.mem) e' := by
  obtain ⟨t, ht, hr⟩ := h.moving r hst hne
  refine ⟨h.frame, fun q hq => ?_, h.unstarted, fun q hq hgo => ?_, h.round, fun u hu => ?_, fun hleft => ?_⟩
  · obtain ⟨hstarted, hexit⟩ := h.done q hq
    have hqr : q ≠ r := fun heq => hne (heq ▸ hexit)
    exact ⟨hstarted, (State.move_thread_ne hqr ..).trans hexit⟩
  · by_cases hqr : q = r
    · exact ⟨t, ht, hqr ▸ hr⟩
    · exact h.moving q hq (State.move_thread_ne hqr v s.mem ▸ hgo)
  · cases ht.symm.trans hu
    exact hbody t ht hr
  · cases ht.symm.trans hleft

/-- Its end is signalled. -/
theorem Inv.signal (h : d.Inv s e) (hst : s.started r = true) (hne : s.thread r ≠ d.exit)
    (hbody : ∀ t, s.test = some t → d.runs t = some r → d.body t (s.signal r d.exit) e) :
    d.Inv (s.signal r d.exit) e := by
  obtain ⟨t, ht, hr⟩ := h.moving r hst hne
  refine ⟨h.frame, fun q hq => ?_, h.unstarted, fun q hq hgo => ?_, h.round, fun u hu => ?_, fun hleft => ?_⟩
  · by_cases hqr : q = r
    · subst hqr
      exact ⟨hst, State.signal_thread ..⟩
    · have hold := h.done q ((State.signal_done_ne hqr d.exit).symm.trans hq)
      exact ⟨hold.1, (State.signal_thread_ne hqr ..).trans hold.2⟩
  · by_cases hqr : q = r
    · exact ⟨t, ht, hqr ▸ hr⟩
    · exact h.moving q hq (State.signal_thread_ne hqr d.exit ▸ hgo)
  · cases ht.symm.trans hu
    exact hbody t ht hr
  · cases ht.symm.trans hleft

/-! ## Runs -/

theorem Inv.init {p : Program T W M C A} (hframe : d.frame p.frame) (hround : d.round p.entry = none)
    (hbody : d.body p.entry p.init e) : d.Inv p.init e := by
  refine ⟨hframe, fun r hr => ?_, fun t n _ _ r _ => rfl, fun r hr => ?_, fun t r ht hr => ?_, fun t ht => ?_,
    fun hleft => ?_⟩
  · cases hr
  · cases hr
  · cases ht
    cases hround.symm.trans hr
  · cases ht
    exact hbody
  · cases hleft

/-- If every step is safe no check fails in a run, and the end has been reached when the function has returned. -/
theorem never_fails {w : World X C A E} {p : Program T W M C A}
    (htest : ∀ s e x t, d.Inv s e → s.test = some t → (p.code t).Safe w p x s e d.Inv)
    (hthread : ∀ s e x i, d.Inv s e → s.started i = true → (p.work i (s.thread i)).Safe w i x s e d.Inv)
    (hinit : d.Inv p.init e) (is : List (Option Nat × X)) :
    (∀ n, (Runs.exec (p.stepIn w) (p.init, e) (is.take n)).1.failed = false) ∧
      ((Runs.exec (p.stepIn w) (p.init, e) is).1.test = none →
        d.left (Runs.exec (p.stepIn w) (p.init, e) is).2) :=
  ⟨fun n => (always_safe htest hthread hinit (is.take n)).2, (always_safe htest hthread hinit is).1.left⟩

end Rounds

end Threads
