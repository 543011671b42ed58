import Mathlib.Algebra.Group.Int.Defs
import Mathlib.Algebra.Group.Nat.Defs
import Mathlib.Data.List.Induction
import NfsPlayground.Fixture.Spec

/-!
# The count, the flags and the root stay in step

`Counted s`: the count is not negative; while it is positive all four flags are set and the fixture holds exactly one
reference, on the captured root; while it is `0` no flag is set and no reference is held. Every public call that does
not overflow the `int` keeps it and moves the count by its weight (`step_counted`), so it holds after every run in
which fewer than `2 ^ 31` gets are outstanding at any time (`counted_after`).
-/

namespace NfsPlayground.Fixture

/-- The references of a holder of one reference, on `p`. -/
def oneRef (p : Path) : Path → Int := fun q => if q = p then 1 else 0

structure Counted (s : State) : Prop where
  nonneg : 0 ≤ s.refs.toInt
  live : 0 < s.refs.toInt → s.env = ⟨true, true, true, true⟩ ∧ ∃ p, s.bringupRoot = some p ∧ s.pathRefs = oneRef p
  idle : s.refs = 0 → s.env = ⟨false, false, false, false⟩ ∧ s.bringupRoot = none ∧ s.pathRefs = fun _ => 0

/-- A successful get counts one, a put that is not rejected takes one off. -/
def weight : PublicCall → Ret → Int
  | .exportOpts _, _ => 0
  | .get _ _, r => if r.err = 0 then 1 else 0
  | .put _, r => if r.warned then 0 else -1

/-- The successful gets less the accepted puts of a sequence of calls on the freshly loaded module. -/
def outstanding (cs : List PublicCall) : Int := Runs.total step weight initial cs

theorem counted_initial : Counted initial where
  nonneg := by decide
  live h := absurd h (by decide)
  idle _ := ⟨rfl, rfl, rfl⟩

/-! ## The counter -/

theorem refs_eq_zero_iff (s : State) : s.refs = 0 ↔ s.refs.toInt = 0 := by
  rw [← Int32.toInt_inj]; rfl

theorem refs_eq_one_iff (s : State) : s.refs = 1 ↔ s.refs.toInt = 1 := by
  rw [← Int32.toInt_inj]; rfl

theorem refs_le_zero_iff (s : State) : s.refs ≤ 0 ↔ s.refs.toInt ≤ 0 := by
  rw [Int32.le_iff_toInt_le]; rfl

theorem toInt_incr {r : Int32} (h0 : 0 ≤ r.toInt) (h1 : r.toInt + 1 < 2 ^ 31) : (r + 1).toInt = r.toInt + 1 := by
  rw [Int32.toInt_add]
  exact Int.bmod_eq_of_le (by simp; omega) (by simp; omega)

theorem toInt_decr {r : Int32} (h0 : 0 < r.toInt) : (r - 1).toInt = r.toInt - 1 := by
  have := r.toInt_lt
  rw [Int32.toInt_sub]
  exact Int.bmod_eq_of_le (by simp; omega) (by simp; omega)

/-! ## The public calls, by what they run -/

section Get

variable (b : BringupAnswer) (t : TeardownAnswer) {s : State}

theorem get_shared (h : s.refs ≠ 0) : xfstestsNfsGet b t s = (0, { s with refs := s.refs + 1 }) := by
  simp [xfstestsNfsGet, h]

theorem get_first (h : s.refs = 0) (h0 : (xfsBringup b s).1 = 0) :
    xfstestsNfsGet b t s = (0, { (xfsBringup b s).2 with refs := (xfsBringup b s).2.refs + 1 }) := by
  simp [xfstestsNfsGet, h, h0]

theorem get_failed (h : s.refs = 0) (h0 : (xfsBringup b s).1 ≠ 0) :
    xfstestsNfsGet b t s = ((xfsBringup b s).1, xfsTeardown t (xfsBringup b s).2) := by
  simp [xfstestsNfsGet, h, h0]

theorem put_rejected (h : s.refs ≤ 0) : xfstestsNfsPut t s = (true, s) := by
  simp [xfstestsNfsPut, h]

theorem put_last (h : s.refs = 1) : xfstestsNfsPut t s = (false, xfsTeardown t { s with refs := 0 }) := by
  simp [xfstestsNfsPut, h]

theorem put_shared (h : ¬ s.refs ≤ 0) (h1 : s.refs ≠ 1) :
    xfstestsNfsPut t s = (false, { s with refs := s.refs - 1 }) := by
  have h2 : s.refs - 1 ≠ 0 := by
    rw [ne_eq, refs_eq_one_iff] at h1
    rw [refs_le_zero_iff] at h
    rw [ne_eq, ← Int32.toInt_inj, toInt_decr (by omega)]
    show ¬ s.refs.toInt - 1 = 0
    omega
  simp [xfstestsNfsPut, h, h2]

end Get

/-! ## One call keeps the invariant -/

theorem Counted.fresh {s : State} (hs : Counted s) : Counted s.fresh := ⟨hs.nonneg, hs.live, hs.idle⟩

/-- The first get: the deployment is up with one reference held, or it failed and everything is as before. -/
theorem get_counted_first (b : BringupAnswer) (t : TeardownAnswer) {s : State} (hs : Counted s) (h : s.refs = 0) :
    Counted (xfstestsNfsGet b t s).2 ∧
      (xfstestsNfsGet b t s).2.refs.toInt = if (xfstestsNfsGet b t s).1 = 0 then 1 else 0 := by
  obtain ⟨-, hroot, hrefs⟩ := hs.idle h
  by_cases h0 : (xfsBringup b s).1 = 0
  · obtain ⟨henv, hroot', hrefs'⟩ := bringup_ok h0 hroot
    have hcount : (xfsBringup b s).2.refs + 1 = 1 := by rw [bringup_refs, h]; rfl
    simp only [get_first b t h h0, hcount, if_true]
    refine ⟨⟨show 0 ≤ Int32.toInt 1 by decide, fun _ => ⟨henv, b.root, hroot', ?_⟩, fun h1 => ?_⟩, by decide⟩
    swap
    · exact absurd h1 (show ¬ (1 : Int32) = 0 by decide)
    rw [hrefs', hrefs]
    funext q
    simp [Function.update_apply, oneRef]
  · obtain ⟨hroot', hrefs'⟩ := bringup_err_root h0
    have hcount : (xfsTeardown t (xfsBringup b s).2).refs = 0 := by rw [teardown_refs, bringup_refs, h]
    simp only [get_failed b t h h0, if_neg h0, hcount]
    refine ⟨⟨?_, fun h1 => ?_, fun _ => ⟨teardown_env _ _, teardown_root _ _, ?_⟩⟩, by decide⟩
    · rw [hcount]; decide
    · rw [hcount] at h1
      exact absurd h1 (by decide)
    · rw [teardown_pathRefs, State.putRoot, hroot', hroot]
      simp only [hrefs', hrefs]

/-- A get on a live deployment only counts. -/
theorem get_counted_shared (b : BringupAnswer) (t : TeardownAnswer) {s : State} (hs : Counted s) (h : s.refs ≠ 0)
    (hlt : s.refs.toInt + 1 < 2 ^ 31) :
    Counted (xfstestsNfsGet b t s).2 ∧ (xfstestsNfsGet b t s).2.refs.toInt = s.refs.toInt + 1 := by
  have hpos := hs.nonneg
  have hne : s.refs.toInt ≠ 0 := fun h1 => h ((refs_eq_zero_iff s).2 h1)
  have hinc := toInt_incr hpos hlt
  simp only [get_shared b t h]
  refine ⟨⟨?_, fun _ => hs.live (by omega), fun h1 => ?_⟩, hinc⟩
  · show 0 ≤ (s.refs + 1).toInt
    omega
  · rw [show s.refs + 1 = 0 from h1, Int32.toInt_zero] at hinc
    omega

/-- The last put gives the root's reference back and clears the flags. -/
theorem put_counted_last (t : TeardownAnswer) {s : State} (hs : Counted s) (h1 : s.refs = 1) :
    Counted (xfstestsNfsPut t s).2 ∧ (xfstestsNfsPut t s).2.refs = 0 := by
  obtain ⟨-, p, hroot, hrefs⟩ := hs.live (by rw [h1]; decide)
  have hcount : (xfsTeardown t { s with refs := 0 }).refs = 0 := teardown_refs _ _
  simp only [put_last t h1]
  refine ⟨⟨?_, fun hp => ?_, fun _ => ⟨teardown_env _ _, teardown_root _ _, ?_⟩⟩, hcount⟩
  · rw [hcount]; decide
  · rw [hcount] at hp
    exact absurd hp (by decide)
  · simp only [teardown_pathRefs, State.putRoot, hroot, State.pathPut, hrefs]
    funext q
    by_cases hq : q = p <;> simp [oneRef, hq]

/-- A put that leaves users only counts. -/
theorem put_counted_shared (t : TeardownAnswer) {s : State} (hs : Counted s) (h : ¬ s.refs ≤ 0) (h1 : s.refs ≠ 1) :
    Counted (xfstestsNfsPut t s).2 ∧ (xfstestsNfsPut t s).2.refs.toInt = s.refs.toInt - 1 := by
  have h0 := (not_congr (refs_le_zero_iff s)).1 h
  have hne : s.refs.toInt ≠ 1 := fun he => h1 ((refs_eq_one_iff s).2 he)
  have hdec := toInt_decr (r := s.refs) (by omega)
  simp only [put_shared t h h1]
  refine ⟨⟨?_, fun _ => hs.live (by omega), fun hz => ?_⟩, hdec⟩
  · show 0 ≤ (s.refs - 1).toInt
    omega
  · rw [show s.refs - 1 = 0 from hz, Int32.toInt_zero] at hdec
    omega

/-- A call that does not overflow the count keeps the invariant and moves the count by its weight. -/
theorem step_counted (s : State) (c : PublicCall) (hs : Counted s)
    (hlt : s.refs.toInt + weight c (step s c).1 < 2 ^ 31) :
    Counted (step s c).2 ∧ (step s c).2.refs.toInt = s.refs.toInt + weight c (step s c).1 := by
  cases c with
  | exportOpts opts => exact ⟨⟨hs.nonneg, hs.live, hs.idle⟩, (Int.add_zero _).symm⟩
  | get b t =>
    by_cases h : s.refs = 0
    · obtain ⟨hI, hv⟩ := get_counted_first b t hs.fresh h
      refine ⟨hI, ?_⟩
      rw [(refs_eq_zero_iff s).1 h, Int.zero_add]
      exact hv
    · have h' : s.fresh.refs ≠ 0 := h
      simp only [step, get_shared b t h', weight, if_true] at hlt
      obtain ⟨hI, hv⟩ := get_counted_shared b t hs.fresh h' hlt
      simp only [get_shared b t h'] at hI hv
      simp only [step, get_shared b t h', weight, if_true]
      exact ⟨hI, hv⟩
  | put t =>
    by_cases h : s.refs ≤ 0
    · simp only [step, put_rejected t (s := s.fresh) h, weight, if_true]
      exact ⟨hs.fresh, (Int.add_zero _).symm⟩
    by_cases h1 : s.refs = 1
    · obtain ⟨hI, hv⟩ := put_counted_last t hs.fresh h1
      refine ⟨hI, ?_⟩
      rw [show (step s (.put t)).2.refs = 0 from hv, h1, step, put_last t (s := s.fresh) h1]
      rfl
    · obtain ⟨hI, hv⟩ := put_counted_shared t hs.fresh h h1
      refine ⟨hI, ?_⟩
      simp only [step, weight, put_shared t (s := s.fresh) h h1] at hv ⊢
      exact hv

theorem weight_le_one (c : PublicCall) (r : Ret) : weight c r ≤ 1 := by
  cases c <;> simp only [weight] <;> grind

/-- The call does not overflow the count. -/
def InRange (s : State) (c : PublicCall) : Prop := s.refs.toInt + weight c (step s c).1 < 2 ^ 31

/-- A call that overflows the count leaves it negative. -/
theorem step_counted_iff (s : State) (c : PublicCall) (hs : Counted s) : Counted (step s c).2 ↔ InRange s c := by
  refine ⟨fun hI => ?_, fun hlt => (step_counted s c hs hlt).1⟩
  have hle := s.refs.toInt_lt
  have hw := weight_le_one c (step s c).1
  by_contra hnot
  unfold InRange at hnot
  have hmax : s.refs.toInt = 2 ^ 31 - 1 := by omega
  have h : s.refs ≠ 0 := fun h => by
    have := (refs_eq_zero_iff s).1 h
    omega
  cases c with
  | exportOpts opts => simp only [weight] at hnot; omega
  | put t => simp only [weight] at hnot; grind
  | get b t =>
    have hneg := hI.nonneg
    rw [step, get_shared b t (s := s.fresh) h] at hneg
    have : 0 ≤ (s.refs + 1).toInt := hneg
    rw [Int32.toInt_add, hmax] at this
    exact absurd this (by decide)

/-- The invariant after every run in which the count never overflows. -/
theorem counted_after (cs : List PublicCall) (hcs : ∀ n, outstanding (cs.take n) < 2 ^ 31) :
    Counted (after cs) ∧ (after cs).refs.toInt = outstanding cs := by
  induction cs using List.reverseRecOn with
  | nil => exact ⟨counted_initial, rfl⟩
  | append_singleton cs c ih =>
    obtain ⟨hI, hv⟩ := ih fun n => by
      have := hcs (min n cs.length)
      rwa [List.take_append_of_le_length (Nat.min_le_right _ _), ← List.take_eq_take_min] at this
    have hall := hcs (cs ++ [c]).length
    rw [List.take_length] at hall
    have htot : outstanding (cs ++ [c]) = outstanding cs + weight c (step (after cs) c).1 :=
      Runs.total_snoc weight cs c initial
    obtain ⟨h1, h2⟩ := step_counted (after cs) c hI (by omega)
    rw [show after (cs ++ [c]) = (step (after cs) c).2 from Runs.exec_snoc cs c initial]
    exact ⟨h1, by omega⟩

/-! ## What a call runs -/

/-- How often a call ran `xfs_bringup()`, and how often `xfs_teardown()`. -/
def ran (s : State) (c : PublicCall) : Nat × Nat :=
  ((step s c).2.log.count .bringup, (step s c).2.log.count .teardown)

/-- A get runs bring-up when the count is `0`, and teardown when that failed; a put runs teardown when it takes the
count from `1` to `0`. -/
def RunsAsCounted (s : State) (c : PublicCall) : Prop :=
  ran s c = match c with
    | .exportOpts _ => (0, 0)
    | .get _ _ => if s.refs = 0 then (1, if (step s c).1.err = 0 then 0 else 1) else (0, 0)
    | .put _ => (0, if s.refs = 1 then 1 else 0)

theorem bringup_log (b : BringupAnswer) (s : State) :
    (xfsBringup b s).2.log.count .bringup = s.log.count .bringup + 1 ∧
      (xfsBringup b s).2.log.count .teardown = s.log.count .teardown := by
  have h := bringup_spec b s
  generalize xfsBringup b s = r at h
  cases h with
  | @up u _ =>
    have hlog : (captureRoot b.root (withClient (withNfsd b s u))).2.log = (withClient (withNfsd b s u)).log :=
      (putRoot_frame (withClient (withNfsd b s u))).2.2.2.2.2
    rw [hlog]
    simp [withClient, withNfsd, withServ, withNfsdfs, withTmpfs, started]
  | _ => simp [withNfsd, withServ, withNfsdfs, withTmpfs, started]

theorem runsAsCounted (s : State) (c : PublicCall) : RunsAsCounted s c := by
  unfold RunsAsCounted ran
  cases c with
  | exportOpts opts => rfl
  | get b t =>
    obtain ⟨hb, ht⟩ := bringup_log b s.fresh
    by_cases h : s.refs = 0
    · by_cases h0 : (xfsBringup b s.fresh).1 = 0
      · simp only [step, get_first b t (s := s.fresh) h h0, hb, ht, h, if_true]
        rfl
      · simp only [step, get_failed b t (s := s.fresh) h h0, teardown_log, List.count_append, hb, ht, h, h0]
        rfl
    · simp only [step, get_shared b t (s := s.fresh) h, if_neg h]
      rfl
  | put t =>
    by_cases h : s.refs ≤ 0
    · have h1 : s.refs ≠ 1 := fun h1 => by rw [h1] at h; exact absurd h (by decide)
      simp only [step, put_rejected t (s := s.fresh) h, if_neg h1]
      rfl
    by_cases h1 : s.refs = 1
    · simp only [step, put_last t (s := s.fresh) h1, teardown_log, if_pos h1]
      rfl
    · simp only [step, put_shared t (s := s.fresh) h h1, if_neg h1]
      rfl

/-! ## The reference count -/

/-- **The fixture's reference count.** After every sequence of calls, puts beyond the gets included and whatever the
kernel answers, as long as fewer than `2 ^ 31` gets are outstanding at any time: the count is the number of successful
gets less the accepted puts and is not negative; flags and root reference follow it; and the next call runs bring-up
and teardown as it says. -/
theorem fixture_refcount (cs : List PublicCall) (hcs : ∀ n, outstanding (cs.take n) < 2 ^ 31) :
    (after cs).refs.toInt = outstanding cs ∧ 0 ≤ (after cs).refs.toInt ∧
      (0 < (after cs).refs.toInt → (after cs).env = ⟨true, true, true, true⟩ ∧
        ∃ p, (after cs).bringupRoot = some p ∧ (after cs).pathRefs = oneRef p) ∧
      ((after cs).refs.toInt = 0 → (after cs).env = ⟨false, false, false, false⟩ ∧
        (after cs).bringupRoot = none ∧ (after cs).pathRefs = fun _ => 0) ∧
      ∀ c, RunsAsCounted (after cs) c := by
  obtain ⟨hI, hv⟩ := counted_after cs hcs
  exact ⟨hv, hI.nonneg, hI.live, fun h => hI.idle ((refs_eq_zero_iff _).2 h), runsAsCounted _⟩

theorem outstanding_le_length (cs : List PublicCall) : outstanding cs ≤ cs.length := by
  induction cs using List.reverseRecOn with
  | nil => exact Int.le_refl 0
  | append_singleton cs c ih =>
    have h : outstanding (cs ++ [c]) = outstanding cs + weight c (step (after cs) c).1 :=
      Runs.total_snoc weight cs c initial
    have := weight_le_one c (step (after cs) c).1
    rw [List.length_append, List.length_singleton]
    omega

theorem fixture_refcount_shared :
    (after [.get .ok .ok, .get .ok .ok, .put .ok]).refs.toInt =
      outstanding [.get .ok .ok, .get .ok .ok, .put .ok] := by
  refine (fixture_refcount _ fun n => ?_).1
  have h := outstanding_le_length ([.get .ok .ok, .get .ok .ok, .put .ok].take n)
  have hl : ([PublicCall.get .ok .ok, .get .ok .ok, .put .ok].take n).length ≤ 3 := List.length_take_le' n _
  omega

/-- A get whose bring-up has everything answered well succeeds in every state. -/
theorem get_ok_err (s : State) : (step s (.get .ok .ok)).1.err = 0 := by
  by_cases h : s.refs = 0
  · have hup : BringupAnswer.ok.MountsClient s.fresh := by
      simp [BringupAnswer.MountsClient, BringupAnswer.StartsNfsd, BringupAnswer.ReachesNfsd,
        BringupAnswer.MountsNfsdfs, BringupAnswer.MountsTmpfs, BringupAnswer.Prepares, BringupAnswer.tolerated,
        BringupAnswer.ok, MountAnswer.err, CacheAnswer.err]
    simp only [step, get_first .ok .ok (s := s.fresh) h ((bringup_ok_iff _ _).2 hup)]
  · simp only [step, get_shared .ok .ok (s := s.fresh) h]

theorem outstanding_gets (n : Nat) : outstanding (List.replicate n (.get .ok .ok)) = n := by
  induction n with
  | zero => rfl
  | succ n ih =>
    have h : outstanding (List.replicate n (.get .ok .ok) ++ [.get .ok .ok]) =
        outstanding (List.replicate n (.get .ok .ok)) +
          weight (.get .ok .ok) (step (after (List.replicate n (.get .ok .ok))) (.get .ok .ok)).1 :=
      Runs.total_snoc weight _ _ initial
    rw [List.replicate_succ', h, ih, weight, get_ok_err]
    rfl

/-- The get that overflows the count. -/
theorem after_overflow {n : Nat} (hn : n + 1 = 2 ^ 31) :
    (after (List.replicate (n + 1) (.get .ok .ok))).refs.toInt = -2 ^ 31 := by
  obtain ⟨-, hv⟩ := counted_after (List.replicate n (.get .ok .ok)) fun k => by
    rw [List.take_replicate, outstanding_gets]
    omega
  rw [outstanding_gets] at hv
  rw [List.replicate_succ', show after (List.replicate n (.get .ok .ok) ++ [.get .ok .ok]) =
    (step (after (List.replicate n (.get .ok .ok))) (.get .ok .ok)).2 from Runs.exec_snoc _ _ initial]
  have h : (after (List.replicate n (.get .ok .ok))).refs ≠ 0 := by
    rw [ne_eq, refs_eq_zero_iff]
    omega
  simp only [step, get_shared .ok .ok (s := (after (List.replicate n (.get .ok .ok))).fresh) h]
  show ((after (List.replicate n (.get .ok .ok))).refs + 1).toInt = _
  rw [Int32.toInt_add, hv, show (n : Int) = 2 ^ 31 - 1 by omega]
  rfl

/-- `2 ^ 31` gets and no put leave a negative count: the `int` has wrapped. -/
theorem refcount_wraps : (after (List.replicate (2 ^ 31) (.get .ok .ok))).refs.toInt = -2 ^ 31 ∧
    outstanding (List.replicate (2 ^ 31) (.get .ok .ok)) = 2 ^ 31 := by
  have h := after_overflow (n := 2147483647) (by decide)
  have h' := outstanding_gets (2147483647 + 1)
  rw [show (2 ^ 31 : Nat) = 2147483647 + 1 by decide]
  exact ⟨h, h'⟩

end NfsPlayground.Fixture
