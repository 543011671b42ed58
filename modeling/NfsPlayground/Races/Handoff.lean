import NfsPlayground.Races.G761

/-!
# The buffer is handed over and back

In generic/761 the two threads alternate: the invariant says for each point of the test function where the modifier is
and what both completions count.

While a block is written the modifier goes through `Handed`, from the signal that gives it the buffer to the one that
gives it back; at the end it goes through `Stopping`. Everywhere else it waits, with both completions at zero, or has
not been started, or is done. `Holds` says what is in the buffer at each point.
-/

namespace NfsPlayground.Races.G761

open Blocking

/-- Where the modifier is while it has the buffer, the counts of `go` and `done`, and how many clearings are due. -/
inductive Handed : Modifying → Nat → Nat → Nat → Prop
  | signalled : Handed .wait 1 0 1
  | readStop : Handed .readStop 0 0 1
  | clear (i : Nat) : Handed (.clear i) 0 0 1
  | complete : Handed .complete 0 0 0
  | back : Handed .wait 0 1 0

/-- Where the modifier is after the signal to stop, and the counts. -/
inductive Stopping : Modifying → Nat → Nat → Prop
  | signalled : Stopping .wait 1 0
  | readStop : Stopping .readStop 0 0
  | lastComplete : Stopping .lastComplete 0 0
  | exit : Stopping .exit 0 1

/-- The modifier is in its loop and both completions are zero. -/
structure Idle (w : Option Modifying) (go done : Nat) : Prop where
  modifier : w = some .wait
  go : go = 0
  done : done = 0

/-- The modifier was not started, or is done. -/
structure Away (w : Option Modifying) (go done : Nat) : Prop where
  modifier : w = none ∨ w = some .exit
  go : go = 0
  done : done = 0

/-- What holds at a point of the test function. -/
def At (w : Option Modifying) (go done : Nat) (stop : Bool) (begun cleared : Nat) : Option Point → Prop
  | none => Away w go done ∧ begun = cleared
  | some t =>
    match t with
    | .head _ | .check _ _ | .setStop => Idle w go done ∧ begun = cleared ∧ stop = false
    | .fill _ _ | .go _ => Idle w go done ∧ begun = cleared + 1 ∧ stop = false
    | .write _ | .wait _ _ => ∃ u due, w = some u ∧ Handed u go done due ∧ begun = cleared + due ∧ stop = false
    | .lastGo => Idle w go done ∧ begun = cleared ∧ stop = true
    | .lastWait => ∃ u, w = some u ∧ Stopping u go done ∧ begun = cleared ∧ stop = true
    | .close | .kmallocRead | .readHead _ | .read _ => Away w go done ∧ begun = cleared ∧ w = some .exit
    | _ => Away w go done ∧ begun = cleared ∧ w = none ∧ stop = false

def Inv (s : State) : Prop := At s.modifier s.mem.go s.mem.done s.mem.stop s.begun s.cleared s.test

theorem init_inv : Inv init := ⟨⟨Or.inl rfl, rfl, rfl⟩, rfl, rfl, rfl⟩

/-! ## What a move does -/

theorem of_wait {n k : Nat} (h : wait n = some k) : n = k + 1 := by
  cases n with
  | zero => cases h
  | succ n => rw [Option.some.inj h]

/-- The wait of the test function is over only once the buffer is back. -/
theorem Handed.of_done {u : Modifying} {go d due : Nat} (h : Handed u go (d + 1) due) :
    u = .wait ∧ go = 0 ∧ d = 0 ∧ due = 0 := by
  cases h
  exact ⟨rfl, rfl, rfl, rfl⟩

theorem Stopping.of_done {u : Modifying} {go d : Nat} (h : Stopping u go (d + 1)) : u = .exit ∧ go = 0 ∧ d = 0 := by
  cases h
  exact ⟨rfl, rfl, rfl⟩

variable {size : Nat} {a : Answer} {s s' : State}

theorem testStep_spec {t : Point} (ht : s.test = some t) (h : testStep size a s = some s') :
    ∃ r, code size a t s.mem = some r ∧ s' =
      { test := r.1.point
        modifier := if t = .start ∧ !a.isErr then some .wait else s.modifier
        mem := r.2
        failed := s.failed || r.1.failed
        begun := countBegun s.begun t r.1.point
        cleared := s.cleared } := by
  unfold testStep at h
  rw [ht] at h
  obtain ⟨r, hr, heq⟩ := Option.map_eq_some_iff.1 h
  exact ⟨r, hr, heq.symm⟩

theorem modifierStep_spec {w : Modifying} (hw : s.modifier = some w) (h : modifierStep s = some s') :
    ∃ r, modify w s.mem = some r ∧ s' =
      { s with
        modifier := some r.1
        mem := r.2
        cleared := countCleared s.cleared w r.1 } := by
  unfold modifierStep at h
  rw [hw] at h
  obtain ⟨r, hr, heq⟩ := Option.map_eq_some_iff.1 h
  exact ⟨r, hr, heq.symm⟩

/-- An assertion goes on, or leaves the function. -/
theorem at_assert {w : Option Modifying} {go done : Nat} {stop : Bool} {begun cleared : Nat} {b : Bool} {t : Point}
    (ht : At w go done stop begun cleared (some t)) (hleft : At w go done stop begun cleared none) :
    At w go done stop begun cleared (assert b t).point := by
  cases b with
  | true => exact ht
  | false => exact hleft

theorem test_inv (hinv : Inv s) (h : testStep size a s = some s') : Inv s' := by
  cases ht : s.test with
  | none =>
    rw [testStep, ht] at h
    cases h
  | some t =>
    obtain ⟨r, hr, rfl⟩ := testStep_spec ht h
    unfold Inv at hinv ⊢
    rw [ht] at hinv
    cases t with
    | mounted | mkdir | addAction | statfs | assertSize | kmalloc | openFile =>
      cases hr
      exact at_assert hinv ⟨hinv.1, hinv.2.1⟩
    | init =>
      cases hr
      exact ⟨⟨hinv.1.modifier, rfl, rfl⟩, hinv.2⟩
    | start =>
      cases hr
      obtain ⟨haway, hbegun, hnone, hstop⟩ := hinv
      cases herr : a.isErr with
      | true => exact ⟨haway, hbegun, hnone, hstop⟩
      | false => exact ⟨⟨rfl, haway.go, haway.done⟩, hbegun, hstop⟩
    | closeRefused =>
      cases hr
      exact ⟨hinv.1, hinv.2.1⟩
    | head filepos =>
      cases hr
      obtain ⟨hidle, hbegun, hstop⟩ := hinv
      by_cases hlt : filepos < size
      · simp only [if_pos hlt]
        exact ⟨hidle, congrArg (· + 1) hbegun, hstop⟩
      · simp only [if_neg hlt]
        exact ⟨hidle, hbegun, hstop⟩
    | fill filepos i =>
      rw [code] at hr
      split at hr
      · cases hr
        exact hinv
      · cases hr
        exact hinv
    | go filepos =>
      cases hr
      obtain ⟨hidle, hbegun, hstop⟩ := hinv
      refine ⟨.wait, 1, hidle.modifier, ?_, hbegun, hstop⟩
      show Handed .wait (s.mem.go + 1) s.mem.done 1
      rw [hidle.go, hidle.done]
      exact .signalled
    | write filepos =>
      cases hr
      exact hinv
    | wait filepos n =>
      obtain ⟨u, due, hw, hhanded, hbegun, hstop⟩ := hinv
      obtain ⟨d, hd, rfl⟩ := Option.map_eq_some_iff.1 hr
      rw [of_wait hd] at hhanded
      obtain ⟨rfl, hgo, rfl, rfl⟩ := hhanded.of_done
      exact ⟨⟨hw, hgo, rfl⟩, hbegun, hstop⟩
    | check filepos n =>
      cases hr
      by_cases hn : n ≠ s.mem.blocksize
      · simp only [if_pos hn]
        exact hinv
      · simp only [if_neg hn]
        exact hinv
    | setStop =>
      cases hr
      exact ⟨hinv.1, hinv.2.1, rfl⟩
    | lastGo =>
      cases hr
      obtain ⟨hidle, hbegun, hstop⟩ := hinv
      refine ⟨.wait, hidle.modifier, ?_, hbegun, hstop⟩
      show Stopping .wait (s.mem.go + 1) s.mem.done
      rw [hidle.go, hidle.done]
      exact .signalled
    | lastWait =>
      obtain ⟨u, hw, hstopping, hbegun, hstop⟩ := hinv
      obtain ⟨d, hd, rfl⟩ := Option.map_eq_some_iff.1 hr
      rw [of_wait hd] at hstopping
      obtain ⟨rfl, hgo, rfl⟩ := hstopping.of_done
      exact ⟨⟨Or.inr hw, hgo, rfl⟩, hbegun, hw⟩
    | close =>
      cases hr
      exact hinv
    | kmallocRead =>
      cases hr
      exact at_assert hinv ⟨hinv.1, hinv.2.1⟩
    | readHead off =>
      cases hr
      by_cases hlt : off < size
      · simp only [if_pos hlt]
        exact hinv
      · simp only [if_neg hlt]
        exact ⟨hinv.1, hinv.2.1⟩
    | read off =>
      cases hr
      by_cases hbad : a.ret ≠ G761_READ ∨ ∃ b ∈ a.bytes, b ≠ 0xff ∧ b ≠ 0x00
      · simp only [if_pos hbad]
        exact ⟨hinv.1, hinv.2.1⟩
      · simp only [if_neg hbad]
        exact hinv

/-- A move of the modifier while it has the buffer. -/
theorem modify_handed {u : Modifying} {m : Frame} {r : Modifying × Frame} {due begun cleared : Nat}
    (h : Handed u m.go m.done due) (hbegun : begun = cleared + due) (hstop : m.stop = false)
    (hr : modify u m = some r) : ∃ due', Handed r.1 r.2.go r.2.done due' ∧ begun = countCleared cleared u r.1 + due' ∧
      r.2.stop = false := by
  obtain ⟨f, buf, blocksize, stop, go, done⟩ := m
  dsimp only at h hstop
  cases h with
  | signalled =>
    cases hr
    exact ⟨1, .readStop, hbegun, hstop⟩
  | readStop =>
    subst hstop
    cases hr
    exact ⟨1, .clear 0, hbegun, rfl⟩
  | clear i =>
    rw [modify] at hr
    split at hr
    · cases hr
      exact ⟨1, .clear (i + 1), hbegun, hstop⟩
    · cases hr
      exact ⟨0, .complete, hbegun, hstop⟩
  | complete =>
    cases hr
    exact ⟨0, .back, hbegun, hstop⟩
  | back => cases hr

theorem modify_stopping {u : Modifying} {m : Frame} {r : Modifying × Frame} {begun cleared : Nat}
    (h : Stopping u m.go m.done) (hbegun : begun = cleared) (hstop : m.stop = true) (hr : modify u m = some r) :
    Stopping r.1 r.2.go r.2.done ∧ begun = countCleared cleared u r.1 ∧ r.2.stop = true := by
  obtain ⟨f, buf, blocksize, stop, go, done⟩ := m
  dsimp only at h hstop
  cases h with
  | signalled =>
    cases hr
    exact ⟨.readStop, hbegun, hstop⟩
  | readStop =>
    subst hstop
    cases hr
    exact ⟨.lastComplete, hbegun, rfl⟩
  | lastComplete =>
    cases hr
    exact ⟨.exit, hbegun, hstop⟩
  | exit => cases hr

/-- The modifier waits for its signal. -/
theorem Idle.waits {w : Modifying} {m : Frame} (h : Idle (some w) m.go m.done) : modify w m = none := by
  obtain ⟨hw, hgo, -⟩ := h
  cases hw
  rw [modify, hgo]
  rfl

theorem Away.waits {w : Modifying} {m : Frame} (h : Away (some w) m.go m.done) : modify w m = none := by
  rcases h.modifier with hw | hw
  · cases hw
  · cases hw
    rfl

theorem modifier_inv (hinv : Inv s) (h : modifierStep s = some s') : Inv s' := by
  cases hw : s.modifier with
  | none =>
    rw [modifierStep, hw] at h
    cases h
  | some w =>
    obtain ⟨r, hr, rfl⟩ := modifierStep_spec hw h
    unfold Inv at hinv ⊢
    rw [hw] at hinv
    dsimp only
    cases ht : s.test with
    | none =>
      rw [ht] at hinv
      cases hr.symm.trans hinv.1.waits
    | some t =>
      rw [ht] at hinv
      cases t with
      | write filepos | wait filepos n =>
        obtain ⟨u, due, hu, hhanded, hbegun, hstop⟩ := hinv
        cases hu
        obtain ⟨due', hmove⟩ := modify_handed hhanded hbegun hstop hr
        exact ⟨r.1, due', rfl, hmove⟩
      | lastWait =>
        obtain ⟨u, hu, hstopping, hbegun, hstop⟩ := hinv
        cases hu
        exact ⟨r.1, rfl, modify_stopping hstopping hbegun hstop hr⟩
      | _ => cases hr.symm.trans hinv.1.waits

theorem step_inv {i : Option Answer} (hinv : Inv s) (h : step size s i = some s') : Inv s' := by
  cases i with
  | none => exact modifier_inv hinv h
  | some a => exact test_inv hinv h

/-! ## What is in the buffer -/

/-- Every byte of the buffer is 0xff. -/
def Filled (m : Frame) : Prop := ∀ j < m.blocksize, m.buf j = 0xff

/-- Every byte of the buffer is 0x00. -/
def Zeroed (m : Frame) : Prop := ∀ j < m.blocksize, m.buf j = 0x00

/-- What the modifier finds in the buffer, and leaves there, while it has it. -/
def Lends (m : Frame) : Modifying → Prop
  | .wait => if m.go = 0 then Zeroed m else Filled m
  | .readStop => Filled m
  | .clear i => (∀ j < i, m.buf j = 0x00) ∧ ∀ j, i ≤ j → j < m.blocksize → m.buf j = 0xff
  | .complete => Zeroed m
  | .lastComplete | .exit => False

/-- What is in the buffer at a point of the test function. -/
def Holds (w : Option Modifying) (m : Frame) : Option Point → Prop
  | some (.fill _ i) => ∀ j < i, m.buf j = 0xff
  | some (.go _) => Filled m
  | some (.write _) | some (.wait _ _) => ∀ u, w = some u → Lends m u
  | some (.check _ _) => Zeroed m
  | _ => True

theorem lends_signalled {m : Frame} (h : Filled m) (hgo : m.go ≠ 0) : Lends m .wait := by
  rw [Lends, if_neg hgo]
  exact h

theorem update_byte {buf : Nat → UInt8} {x : UInt8} {i : Nat} (h : ∀ j < i, buf j = x) :
    ∀ j < i + 1, Function.update buf i x j = x := by
  intro j hj
  by_cases hji : j = i
  · rw [hji, Function.update_self]
  · rw [Function.update_of_ne hji]
    exact h j (by omega)

theorem holds_assert {w : Option Modifying} {m : Frame} {b : Bool} {t : Point} (ht : Holds w m (some t)) :
    Holds w m (assert b t).point := by
  cases b with
  | true => exact ht
  | false => trivial

theorem test_holds (hinv : Inv s) (hholds : Holds s.modifier s.mem s.test) (h : testStep size a s = some s') :
    Holds s'.modifier s'.mem s'.test := by
  cases ht : s.test with
  | none =>
    rw [testStep, ht] at h
    cases h
  | some t =>
    obtain ⟨r, hr, rfl⟩ := testStep_spec ht h
    unfold Inv at hinv
    rw [ht] at hinv hholds
    cases t with
    | mounted | mkdir | addAction | statfs | assertSize | kmalloc | openFile | kmallocRead =>
      cases hr
      exact holds_assert trivial
    | init | closeRefused | setStop | lastGo | close =>
      cases hr
      trivial
    | start =>
      cases hr
      cases herr : a.isErr <;> trivial
    | head filepos =>
      cases hr
      by_cases hlt : filepos < size
      · simp only [if_pos hlt]
        exact fun j hj => absurd hj (Nat.not_lt_zero j)
      · simp only [if_neg hlt]
        trivial
    | fill filepos i =>
      rw [code] at hr
      split at hr
      · cases hr
        exact update_byte hholds
      · rename_i hi
        cases hr
        exact fun j hj => hholds j (Nat.lt_of_lt_of_le hj (Nat.not_lt.1 hi))
    | go filepos =>
      cases hr
      intro u hu
      have hwait : some Modifying.wait = some u := hinv.1.modifier.symm.trans hu
      cases hwait
      exact lends_signalled hholds (Nat.succ_ne_zero _)
    | write filepos =>
      cases hr
      exact hholds
    | wait filepos n =>
      obtain ⟨u, due, hw, hhanded, -⟩ := hinv
      obtain ⟨d, hd, rfl⟩ := Option.map_eq_some_iff.1 hr
      rw [of_wait hd] at hhanded
      obtain ⟨rfl, hgo, -⟩ := hhanded.of_done
      have hlends := hholds .wait hw
      rw [Lends, if_pos hgo] at hlends
      exact hlends
    | check filepos n =>
      cases hr
      by_cases hn : n ≠ s.mem.blocksize
      · simp only [if_pos hn]
        trivial
      · simp only [if_neg hn]
        trivial
    | lastWait =>
      obtain ⟨d, -, rfl⟩ := Option.map_eq_some_iff.1 hr
      trivial
    | readHead off =>
      cases hr
      by_cases hlt : off < size
      · simp only [if_pos hlt]
        trivial
      · simp only [if_neg hlt]
        trivial
    | read off =>
      cases hr
      by_cases hbad : a.ret ≠ G761_READ ∨ ∃ b ∈ a.bytes, b ≠ 0xff ∧ b ≠ 0x00
      · simp only [if_pos hbad]
        trivial
      · simp only [if_neg hbad]
        trivial

/-- The modifier clears what it was lent, byte by byte. -/
theorem modify_lends {u : Modifying} {m : Frame} {r : Modifying × Frame} {due : Nat} (h : Handed u m.go m.done due)
    (hstop : m.stop = false) (hlends : Lends m u) (hr : modify u m = some r) : Lends r.2 r.1 := by
  obtain ⟨f, buf, blocksize, stop, go, done⟩ := m
  dsimp only at h hstop
  cases h with
  | signalled =>
    cases hr
    exact hlends
  | readStop =>
    subst hstop
    cases hr
    exact ⟨fun j hj => absurd hj (Nat.not_lt_zero j), fun j _ hj => hlends j hj⟩
  | clear i =>
    obtain ⟨hzero, hrest⟩ := hlends
    rw [modify] at hr
    split at hr
    · cases hr
      refine ⟨update_byte hzero, fun j hij hj => ?_⟩
      have hne : j ≠ i := by omega
      exact (Function.update_of_ne hne ..).trans (hrest j (by omega) hj)
    · rename_i hi
      cases hr
      exact fun j hj => hzero j (Nat.lt_of_lt_of_le hj (Nat.not_lt.1 hi))
  | complete =>
    cases hr
    exact hlends
  | back => cases hr

theorem modifier_holds (hinv : Inv s) (hholds : Holds s.modifier s.mem s.test) (h : modifierStep s = some s') :
    Holds s'.modifier s'.mem s'.test := by
  cases hw : s.modifier with
  | none =>
    rw [modifierStep, hw] at h
    cases h
  | some w =>
    obtain ⟨r, hr, rfl⟩ := modifierStep_spec hw h
    unfold Inv at hinv
    rw [hw] at hinv hholds
    dsimp only
    cases ht : s.test with
    | none => trivial
    | some t =>
      rw [ht] at hinv hholds
      cases t with
      | write filepos | wait filepos n =>
        obtain ⟨u, due, hu, hhanded, -, hstop⟩ := hinv
        cases hu
        intro v hv
        cases hv
        exact modify_lends hhanded hstop (hholds w rfl) hr
      | fill | go | check => cases hr.symm.trans hinv.1.waits
      | _ => trivial

theorem step_holds {i : Option Answer} (hinv : Inv s) (hholds : Holds s.modifier s.mem s.test)
    (h : step size s i = some s') : Holds s'.modifier s'.mem s'.test := by
  cases i with
  | none => exact modifier_holds hinv hholds h
  | some a => exact test_holds hinv hholds h

/-! ## What every state of a run has -/

/-- The test function is between the signal for a block and the return of the wait for it. -/
def Lent : Option Point → Prop
  | some (.write _) | some (.wait _ _) => True
  | _ => False

/-- The test function is where the file is closed, or further on. -/
def Closing : Option Point → Prop
  | some .close | some .kmallocRead | some (.readHead _) | some (.read _) => True
  | _ => False

def TestWaits (s : State) : Prop :=
  ((∃ filepos n, s.test = some (.wait filepos n)) ∨ s.test = some .lastWait) ∧ s.mem.done = 0

def ModifierWaits (s : State) : Prop := s.modifier = some .wait ∧ s.mem.go = 0

/-- Who has the buffer, and what the completions count. -/
structure Turns (s : State) : Prop where
  /-- The buffer is cleared for the block that was begun last, and while it is lent. -/
  lent : ∀ i, s.modifier = some (.clear i) → Lent s.test ∧ s.begun = s.cleared + 1
  apart : ∀ filepos i j, s.test = some (.fill filepos i) → s.modifier ≠ some (.clear j)
  once : s.cleared ≤ s.begun ∧ s.begun ≤ s.cleared + 1
  /-- When the wait has returned, the buffer was cleared for each block that was begun. -/
  back : ∀ filepos n, s.test = some (.check filepos n) → s.begun = s.cleared
  go_le : s.mem.go ≤ 1
  done_le : s.mem.done ≤ 1
  waits : ¬ (TestWaits s ∧ ModifierWaits s)
  /-- The modifier has left its loop for good. -/
  closing : Closing s.test → s.modifier = some .exit ∧ modifierStep s = none ∧ s.begun = s.cleared
  left : s.test = none → modifierStep s = none ∧ s.begun = s.cleared

/-- The two threads take turns, and the buffer is what each of them leaves: 0xff where the test function signals that a
block is to be written, 0x00 where the modifier counts a clearing and where the wait for it has returned. -/
structure Alternates (s : State) : Prop extends Turns s where
  filled : ∀ filepos, s.test = some (.go filepos) → Filled s.mem
  clearing : ∀ i, s.modifier = some (.clear i) →
    (∀ j < i, s.mem.buf j = 0x00) ∧ ∀ j, i ≤ j → j < s.mem.blocksize → s.mem.buf j = 0xff
  zeroed : s.modifier = some .complete → Zeroed s.mem
  returned : ∀ filepos n, s.test = some (.check filepos n) → Zeroed s.mem
  /-- A move that counts a clearing leaves every byte of the buffer 0x00. -/
  counted : ∀ s', modifierStep s = some s' → s'.cleared ≠ s.cleared → Zeroed s'.mem

theorem Handed.counts {u : Modifying} {go done due : Nat} (h : Handed u go done due) : go ≤ 1 ∧ done ≤ 1 ∧ due ≤ 1 := by
  cases h <;> decide

theorem Handed.due_of_clear {i go done due : Nat} (h : Handed (.clear i) go done due) : due = 1 := by
  cases h
  rfl

theorem Stopping.counts {u : Modifying} {go done : Nat} (h : Stopping u go done) : go ≤ 1 ∧ done ≤ 1 := by
  cases h <;> decide

/-- Where the modifier waits or is away, it does not clear. -/
theorem not_clear {w : Option Modifying} (h : w = some .wait ∨ w = none ∨ w = some .exit) (i : Nat) :
    w ≠ some (.clear i) := by
  rintro rfl
  rcases h with h | h | h <;> cases h

theorem modifierStep_away (h : Away s.modifier s.mem.go s.mem.done) : modifierStep s = none := by
  unfold modifierStep
  cases hw : s.modifier with
  | none => rfl
  | some w =>
    rw [hw] at h
    rw [Option.bind_some, h.waits]
    rfl

/-- Where the modifier has nothing to do and the test function does not wait. -/
theorem turns_quiet (hw : s.modifier = some .wait ∨ s.modifier = none ∨ s.modifier = some .exit) (hgo : s.mem.go = 0)
    (hdone : s.mem.done = 0) (hbegun : s.begun = s.cleared ∨ s.begun = s.cleared + 1)
    (hback : ∀ filepos n, s.test = some (.check filepos n) → s.begun = s.cleared) (hwaits : ¬ TestWaits s)
    (hclosing : Closing s.test → s.modifier = some .exit ∧ modifierStep s = none ∧ s.begun = s.cleared)
    (hleft : s.test = none → modifierStep s = none ∧ s.begun = s.cleared) : Turns s where
  lent i hi := absurd hi (not_clear hw i)
  apart _ _ j _ := not_clear hw j
  once := by omega
  back := hback
  go_le := by omega
  done_le := by omega
  waits h := hwaits h.1
  closing := hclosing
  left := hleft

theorem Inv.turns (hinv : Inv s) : Turns s := by
  unfold Inv at hinv
  cases ht : s.test with
  | none =>
    rw [ht] at hinv
    obtain ⟨haway, hbegun⟩ := hinv
    refine turns_quiet (Or.inr haway.modifier) haway.go haway.done (Or.inl hbegun) ?_ ?_ ?_ ?_
    · simp [ht]
    · simp [TestWaits, ht]
    · simp [ht, Closing]
    · exact fun _ => ⟨modifierStep_away haway, hbegun⟩
  | some t =>
    rw [ht] at hinv
    cases t with
    | head | check | setStop | lastGo =>
      obtain ⟨hidle, hbegun, -⟩ := hinv
      refine turns_quiet (Or.inl hidle.modifier) hidle.go hidle.done (Or.inl hbegun) (fun _ _ _ => hbegun) ?_ ?_ ?_
      · simp [TestWaits, ht]
      · simp [ht, Closing]
      · simp [ht]
    | fill | go =>
      obtain ⟨hidle, hbegun, -⟩ := hinv
      refine turns_quiet (Or.inl hidle.modifier) hidle.go hidle.done (Or.inr hbegun) ?_ ?_ ?_ ?_
      · simp [ht]
      · simp [TestWaits, ht]
      · simp [ht, Closing]
      · simp [ht]
    | write | wait =>
      obtain ⟨u, due, hw, hhanded, hbegun, -⟩ := hinv
      have hcounts := hhanded.counts
      refine ⟨fun i hi => ?_, ?_, by omega, ?_, hcounts.1, hcounts.2.1, ?_, ?_, ?_⟩
      · rw [hw] at hi
        cases hi
        exact ⟨ht ▸ trivial, hhanded.due_of_clear ▸ hbegun⟩
      · simp [ht]
      · simp [ht]
      · rintro ⟨⟨-, hdone⟩, hwait, hgo⟩
        rw [hw, Option.some.injEq] at hwait
        rw [hwait, hgo, hdone] at hhanded
        cases hhanded
      · simp [ht, Closing]
      · simp [ht]
    | lastWait =>
      obtain ⟨u, hw, hstopping, hbegun, -⟩ := hinv
      have hcounts := hstopping.counts
      refine ⟨fun i hi => ?_, ?_, by omega, ?_, hcounts.1, hcounts.2, ?_, ?_, ?_⟩
      · rw [hw] at hi
        cases hi
        cases hstopping
      · simp [ht]
      · simp [ht]
      · rintro ⟨⟨-, hdone⟩, hwait, hgo⟩
        rw [hw, Option.some.injEq] at hwait
        rw [hwait, hgo, hdone] at hstopping
        cases hstopping
      · simp [ht, Closing]
      · simp [ht]
    | close | kmallocRead | readHead | read =>
      obtain ⟨haway, hbegun, hexit⟩ := hinv
      refine turns_quiet (Or.inr haway.modifier) haway.go haway.done (Or.inl hbegun) ?_ ?_ ?_ ?_
      · simp [ht]
      · simp [TestWaits, ht]
      · exact fun _ => ⟨hexit, modifierStep_away haway, hbegun⟩
      · simp [ht]
    | _ =>
      obtain ⟨haway, hbegun, -⟩ := hinv
      refine turns_quiet (Or.inr haway.modifier) haway.go haway.done (Or.inl hbegun) ?_ ?_ ?_ ?_
      · simp [ht]
      · simp [TestWaits, ht]
      · simp [ht, Closing]
      · simp [ht]

/-- While the modifier is at the buffer, the buffer is lent to it. -/
theorem lends_of_lent (hinv : Inv s) (hholds : Holds s.modifier s.mem s.test) {u : Modifying} (hu : s.modifier = some u)
    (hat : (∃ i, u = .clear i) ∨ u = .complete) : Lends s.mem u := by
  have hnot : ∀ w : Option Modifying, w = some .wait ∨ w = none ∨ w = some .exit → w ≠ some u := by
    rintro w hw rfl
    rcases hat with ⟨i, rfl⟩ | rfl <;> rcases hw with hw | hw | hw <;> cases hw
  unfold Inv at hinv
  cases ht : s.test with
  | none =>
    rw [ht] at hinv
    exact absurd hu (hnot _ (Or.inr hinv.1.modifier))
  | some t =>
    rw [ht] at hinv hholds
    cases t with
    | write | wait => exact hholds u hu
    | head | check | setStop | lastGo | fill | go => exact absurd hu (hnot _ (Or.inl hinv.1.modifier))
    | lastWait =>
      obtain ⟨v, hv, hstopping, -⟩ := hinv
      obtain rfl := Option.some.inj (hu.symm.trans hv)
      rcases hat with ⟨i, rfl⟩ | rfl <;> cases hstopping
    | _ => exact absurd hu (hnot _ (Or.inr hinv.1.modifier))

/-- A clearing is counted where the modifier goes on to `complete()`. -/
theorem countCleared_ne {n : Nat} {u v : Modifying} (h : countCleared n u v ≠ n) : v = .complete := by
  cases u <;> cases v <;> first | rfl | exact absurd rfl h

theorem Inv.alternates (hinv : Inv s) (hholds : Holds s.modifier s.mem s.test) : Alternates s where
  toTurns := hinv.turns
  filled filepos ht := by
    rw [ht] at hholds
    exact hholds
  clearing i hw := lends_of_lent hinv hholds hw (Or.inl ⟨i, rfl⟩)
  zeroed hw := lends_of_lent hinv hholds hw (Or.inr rfl)
  returned filepos n ht := by
    rw [ht] at hholds
    exact hholds
  counted s' hs' hcleared := by
    have hcomplete : s'.modifier = some .complete := by
      cases hw : s.modifier with
      | none =>
        rw [modifierStep, hw] at hs'
        cases hs'
      | some w =>
        obtain ⟨r, -, rfl⟩ := modifierStep_spec hw hs'
        exact congrArg some (countCleared_ne hcleared)
    exact lends_of_lent (modifier_inv hinv hs') (modifier_holds hinv hholds hs') hcomplete (Or.inr rfl)

/-- The two threads alternate, in every state of every run. -/
theorem handoff_alternates {is : List (Option Answer)} (h : Run (step size) (fun _ _ => True) init is s) :
    Alternates s := by
  have hrun := h.inv (I := fun s => Inv s ∧ Holds s.modifier s.mem s.test)
    (fun _ _ _ hinv _ hs => ⟨step_inv hinv.1 hs, step_holds hinv.1 hinv.2 hs⟩) ⟨init_inv, trivial⟩
  exact hrun.1.alternates hrun.2

/-- One block of 2 bytes, which the modifier clears while it is written, and the last byte of the next one. -/
def roundMoves : List (Option Answer) :=
  [some { ret := 1 }, some { ret := 0 }, some { ret := 0 }, some { ret := 0, frsize := 2 }, some { ret := 0 },
    some { ret := 1 }, some { ret := 3 }, some { ret := 0 }, some { ret := 5 }, some { ret := 0 }, some { ret := 0 },
    some { ret := 0 }, some { ret := 0 }, some { ret := 0 }, none, none, none, some { ret := 2 }, none, none, none,
    some { ret := 0 }, some { ret := 0 }, some { ret := 0 }, some { ret := 0 }, some { ret := 0 }, some { ret := 0 },
    some { ret := 0 }, none, none, none]

theorem handoff_alternates_start :
    ∃ s', exec (step 4) (fun _ _ => True) init roundMoves = some s' ∧ s'.modifier = some (.clear 1) ∧
    s'.begun = 2 ∧ s'.cleared = 1 ∧ Alternates s' :=
  ⟨_, rfl, rfl, rfl, rfl, handoff_alternates (@run_exec _ _ (step 4) (fun _ _ => True) _ roundMoves init _ rfl)⟩

end NfsPlayground.Races.G761
