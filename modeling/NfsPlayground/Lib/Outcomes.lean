import NfsPlayground.Lib.Closed

/-!
# Runs whose checks may fail

`Op.Leads` is the weakest precondition of one operation where its check may come out either way: a failed check that
leaves the function leads to the state without it. `always` is the induction rule for what holds in every state of a
run, whatever the world answers.
-/

namespace Threads

variable {T W M C A E X : Type}

namespace State

/-- The function is left by a check after something was stored. -/
def leaveWith (s : State T W M) (m : M) : State T W M := { s with test := none, mem := m }

def fail (s : State T W M) (b : Bool) : State T W M := { s with failed := b }

end State

variable (w : World X C A E) (p : Program T W M C A)

/-- The operation, made from the state `s`, leads to a state with the property `Q`. -/
def Op.Leads (x : X) (s : State T W M) (e : E) (Q : State T W M → E → Prop) : Op T M C A → Prop
  | .step o =>
    let r := w.reply x (o.call s.mem) e
    if o.ready r.1 s.mem then
      if o.fatal && !o.holds r.1 s.mem then Q (s.leaveWith (o.store r.1 s.mem)) r.2
      else Q (s.goto (o.next s.done r.1 s.mem) (o.store r.1 s.mem)) r.2
    else Q s r.2
  | .start i next =>
    let r := w.serve x p.spawn e
    if p.refused r.1 then Q s.leave r.2 else Q (s.spawn i (p.first i) next) r.2
  | .wait i next => if s.done i then Q (s.goto next s.mem) e else Q s e
  | .ret => Q s.leave e

/-! ## The operations -/

section Ops

variable {w p} {x : X} {s : State T W M} {e : E} {Q : State T W M → E → Prop} {next : T}

theorem Op.leads_assertStore {c : M → C} {holds : A → Bool} {store : A → M → M} {r : A × E}
    (hr : w.serve x (c s.mem) e = r) (h : holds r.1 = true → Q (s.goto next (store r.1 s.mem)) r.2)
    (hfails : holds r.1 = false → Q (s.leaveWith (store r.1 s.mem)) r.2) :
    (assertStore c holds store next).Leads w p x s e Q := by
  subst hr
  show if true && !holds (w.serve x (c s.mem) e).1 then _ else _
  cases hholds : holds (w.serve x (c s.mem) e).1 with
  | true => exact h hholds
  | false => exact hfails hholds

theorem Op.leads_assert {c : M → C} {holds : A → Bool} {r : A × E} (hr : w.serve x (c s.mem) e = r)
    (h : holds r.1 = true → Q (s.goto next s.mem) r.2) (hfails : holds r.1 = false → Q (s.leaveWith s.mem) r.2) :
    (assert c holds next).Leads w p x s e Q := leads_assertStore hr h hfails

theorem Op.leads_expectCall {c : M → C} {holds : A → Bool} {r : A × E} (hr : w.serve x (c s.mem) e = r)
    (hQ : Q (s.goto next s.mem) r.2) : (expectCall c holds next).Leads w p x s e Q := by
  subst hr
  exact hQ

theorem Op.leads_check {fatal : Bool} {holds : M → Bool} (h : Q (s.goto next s.mem) e)
    (hfails : Q (s.leaveWith s.mem) e) : (check fatal holds next).Leads w p x s e Q := by
  show if fatal && !holds s.mem then _ else _
  split
  · exact hfails
  · exact h

theorem Op.leads_expect {holds : M → Bool} (h : Q (s.goto next s.mem) e) : (expect holds next).Leads w p x s e Q := h

theorem Op.leads_act {f : M → M} (hQ : Q (s.goto next (f s.mem)) e) : (act f next).Leads w p x s e Q := hQ

theorem Op.leads_start {i : Nat} {r : A × E} (hr : w.serve x p.spawn e = r) (h : Q (s.spawn i (p.first i) next) r.2)
    (hrefused : Q s.leave r.2) : (Op.start i next : Op T M C A).Leads w p x s e Q := by
  subst hr
  show if p.refused (w.serve x p.spawn e).1 then _ else _
  split
  · exact hrefused
  · exact h

theorem Op.leads_wait {i : Nat} (h : s.done i = true → Q (s.goto next s.mem) e) (h' : Q s e) :
    (Op.wait i next : Op T M C A).Leads w p x s e Q := by
  show if s.done i then _ else _
  split
  · exact h ‹_›
  · exact h'

end Ops

/-- An operation that fails no check leads to what it leads to. -/
theorem Op.Safe.leads {w : World X C A E} {p : Program T W M C A} {x : X} {s : State T W M} {e : E}
    {Q : State T W M → E → Prop} {o : Op T M C A} (h : o.Safe w p x s e Q) : o.Leads w p x s e Q := by
  cases o with
  | step o =>
    dsimp only [Op.Safe] at h
    dsimp only [Op.Leads]
    split
    · rename_i hready
      rw [if_pos hready] at h
      rw [h.1, Bool.not_true, Bool.and_false]
      exact h.2
    · rename_i hready
      rwa [if_neg hready] at h
  | start i next =>
    dsimp only [Op.Leads]
    rw [h.1]
    exact h.2
  | wait => exact h
  | ret => exact h

/-- Where an operation fails no check, the answer is not rejected. -/
theorem Op.Safe.not_rejects {w : World X C A E} {p : Program T W M C A} {x : X} {s : State T W M} {e : E}
    {Q : State T W M → E → Prop} {t : T} (ht : s.test = some t) (h : (p.code t).Safe w p x s e Q) :
    p.rejects t (w.reply x (p.callOf s none) e).1 s.mem = false := by
  unfold Program.rejects Program.callOf
  rw [ht]
  dsimp only
  cases hcode : p.code t with
  | step o =>
    rw [hcode] at h
    dsimp only [Op.Safe] at h
    dsimp only
    cases hready : o.ready (w.reply x (o.call s.mem) e).1 s.mem with
    | false => rfl
    | true =>
      rw [if_pos hready] at h
      rw [h.1, Bool.not_true, Bool.and_false, Bool.and_false]
  | start i next =>
    rw [hcode] at h
    exact h.1
  | wait => rfl
  | ret => rfl

/-! ## Runs -/

variable {w p} {Inv : State T W M → E → Prop}

theorem testStep_leads (hfailed : ∀ s e b, Inv s e → Inv (s.fail b) e) {s : State T W M} {e : E} {x : X}
    (h : ∀ t, s.test = some t → (p.code t).Leads w p x s e Inv) (hinv : Inv s e) :
    Inv (p.stepIn w (s, e) (none, x)).2.1 (p.stepIn w (s, e) (none, x)).2.2 := by
  obtain ⟨r, hr⟩ : ∃ r, r = w.reply x (p.callOf s none) e := ⟨_, rfl⟩
  show Inv (p.testStep (w.reply x (p.callOf s none) e).1 s) (w.reply x (p.callOf s none) e).2
  rw [← hr]
  unfold Program.callOf at hr
  unfold Program.testStep
  cases htest : s.test with
  | none =>
    rw [htest] at hr
    subst hr
    exact hinv
  | some t =>
    have hleads := h t htest
    rw [htest] at hr
    dsimp only at hr ⊢
    cases hcode : p.code t with
    | step o =>
      rw [hcode] at hr hleads
      dsimp only [Op.Leads] at hr hleads ⊢
      rw [← hr] at hleads
      split
      · rename_i hready
        rw [if_pos hready] at hleads
        split
        · rename_i hfails
          rw [if_pos hfails] at hleads
          exact hfailed _ _ _ hleads
        · rename_i hholds
          rw [if_neg hholds] at hleads
          exact hfailed _ _ _ hleads
      · rename_i hready
        rw [if_neg hready] at hleads
        exact hleads
    | start i next =>
      rw [hcode] at hr hleads
      change r = w.serve x p.spawn e at hr
      dsimp only [Op.Leads] at hleads ⊢
      rw [← hr] at hleads
      split
      · rename_i hrefused
        rw [if_pos hrefused] at hleads
        exact hfailed _ _ true hleads
      · rename_i hrefused
        rw [if_neg hrefused] at hleads
        exact hleads
    | wait i next =>
      rw [hcode] at hr hleads
      subst hr
      dsimp only [Op.Leads] at hleads ⊢
      split
      · rename_i hdone
        rw [if_pos hdone] at hleads
        exact hleads
      · exact hinv
    | ret =>
      rw [hcode] at hr hleads
      subst hr
      exact hleads

/-- What every operation leads to holds in every state of a run. -/
theorem always_from (hfailed : ∀ s e b, Inv s e → Inv (s.fail b) e)
    (htest : ∀ s e x t, Inv s e → s.test = some t → (p.code t).Leads w p x s e Inv)
    (hthread : ∀ s e x i, Inv s e → s.started i = true → (p.work i (s.thread i)).Safe w i x s e Inv)
    {y : State T W M × E} (hinit : Inv y.1 y.2) (is : List (Option Nat × X)) :
    Inv (Runs.exec (p.stepIn w) y is).1 (Runs.exec (p.stepIn w) y is).2 := by
  refine Runs.exec_inv' (I := fun y : State T W M × E => Inv y.1 y.2) ?_ is hinit
  rintro ⟨s, e⟩ ⟨_ | k, x⟩ hinv
  · exact testStep_leads hfailed (fun t ht => htest s e x t hinv ht) hinv
  · exact (threadStep_safe (fun hs => hthread s e x k hinv hs) hinv).1

theorem always (hfailed : ∀ s e b, Inv s e → Inv (s.fail b) e)
    (htest : ∀ s e x t, Inv s e → s.test = some t → (p.code t).Leads w p x s e Inv)
    (hthread : ∀ s e x i, Inv s e → s.started i = true → (p.work i (s.thread i)).Safe w i x s e Inv)
    {e : E} (hinit : Inv p.init e) (is : List (Option Nat × X)) :
    Inv (Runs.exec (p.stepIn w) (p.init, e) is).1 (Runs.exec (p.stepIn w) (p.init, e) is).2 :=
  always_from hfailed htest hthread hinit is

end Threads
