import NfsPlayground.Lib.Outcomes
import NfsPlayground.Lib.PosixGrows
import NfsPlayground.Races.G464
import NfsPlayground.Races.World

/-!
# generic/464 on a conforming file system

An appender writes from a size that it has read before, a rewriter from where its last block ended; since no file gets
shorter both are still at or below the end (`Reached`), so that no write leaves a hole. Hence the files stay a pool of
one byte, whatever the workers draw and whoever moves.
-/

namespace NfsPlayground.Races.G464

open Lines Posix Threads
open Fs (Grows Pool)

abbrev Config : Type := State Point Working Frame

/-- The export is mounted, and has nothing at the root of the test. -/
structure Mounted (fs : Fs Text) : Prop where
  tidy : fs.Tidy
  mnt : fs.get XFS_MNT = some .dir
  free : fs.get G464_ROOT = none

/-- `f` is a file of the test, and at least `pos` bytes long. -/
def Reached (f : Int) (pos : Nat) (fs : Fs Text) : Prop :=
  ∃ (k : Nat) (n : Text), f = k ∧ fs.get (G464_ROOT ++ [n]) = some (.file k) ∧ pos ≤ (fs.data k).length

variable (c : Params)

/-! ## The invariant -/

/-- The rounds that have been counted. -/
def counted : Working → Nat
  | .kmalloc => 0
  | .head i _ | .filpOpen i _ _ | .rewrite i _ _ _ _ | .write i _ _ _ _ | .iSizeRead i _ _ | .append i _ _ _
  | .flush i _ _ | .ops i _ _ => i
  | .close i _ _ => i + 1
  | .complete | .exit => c.rounds

/-- What a worker relies on at a point. -/
def Relies : Working → Fs Text → Prop
  | .head i _, _ => i ≤ c.rounds
  | .filpOpen i _ _, _ => i < c.rounds
  | .rewrite i _ f _ pos, fs | .write i _ f _ pos, fs | .append i _ f pos, fs => i < c.rounds ∧ Reached f pos fs
  | .iSizeRead i _ f, fs => i < c.rounds ∧ Reached f 0 fs
  | .flush i _ _, _ | .ops i _ _, _ | .close i _ _, _ => i < c.rounds
  | .kmalloc, _ | .complete, _ | .exit, _ => True

structure Work (u : Working) (w : Worker) (fs : Fs Text) : Prop where
  ops : w.ops = counted c u % 2 ^ 64
  relies : Relies c u fs

/-- Every worker that was started is done. -/
def Over (s : Config) : Prop := ∀ w, s.started w = true → s.done w = true

/-- The size of the file that is read is its size. -/
def Sized (i : Nat) (s : Config) (fs : Fs Text) : Prop :=
  ∃ k, fs.get (path i) = some (.file k) ∧ s.mem.size = (fs.data k).length

/-- What holds at a program point once the directory is there. -/
def Sched : Point → Config → Fs Text → Prop
  | .mounted, _, _ | .mkdir, _, _ | .ret, _, _ => True
  | .addAction, s, _ => ∀ w, s.started w = false
  | .starts i, s, _ => i ≤ c.workers ∧ ∀ w, s.started w = true → w < i
  | .init i, s, _ => i < c.workers ∧ ∀ w, s.started w = true → w < i
  | .start i, s, _ => i < c.workers ∧ (∀ w, s.started w = true → w < i) ∧ (s.mem.worker i).ops = 0
  | .joins i, s, _ | .join i, s, _ => (∀ w, s.started w = true → w < c.workers) ∧ ∀ w, w < i → s.done w = true
  | .expectErr i, s, _ | .expectOps i, s, _ =>
    (∀ w, s.started w = true → w < c.workers) ∧ ∀ w, w < i + 1 → s.done w = true
  | .kmalloc, s, _ | .files _, s, _ | .present _, s, _ => Over s
  | .kstat i, s, fs => Over s ∧ ∃ k, fs.get (path i) = some (.file k)
  | .ranges i _, s, fs => Over s ∧ Sized i s fs
  | .readRange i off, s, fs => Over s ∧ Sized i s fs ∧ off < s.mem.size
  | .verify i _, s, fs => Over s ∧ Sized i s fs ∧ ∀ b ∈ s.mem.buf, b = G464_BYTE

def Body : Option Point → Config → Fs Text → Prop
  | some .mounted, s, fs | some .mkdir, s, fs => Mounted fs ∧ ∀ w, s.started w = false
  | some t, s, fs => Pool G464_ROOT G464_BYTE fs ∧ Sched c t s fs
  | none, _, fs => Pool G464_ROOT G464_BYTE fs

/-- What the runs keep that have begun with the file system `fs₀`. -/
structure Inv (fs₀ : Fs Text) (s : Config) (fs : Fs Text) : Prop where
  grows : Grows fs₀ fs
  err : ∀ w, (s.mem.worker w).err = 0
  exit : ∀ w, s.done w = true → s.started w = true ∧ s.thread w = .exit
  work : ∀ w, s.started w = true → Work c (s.thread w) (s.mem.worker w) fs
  body : Body c s.test s fs

variable {c} {s : Config} {fs₀ fs fs' : Fs Text} {t t' : Point} {m : Frame} {f : Int} {pos w : Nat}

theorem Reached.grows (h : Reached f pos fs) (hg : Grows fs fs') : Reached f pos fs' := by
  obtain ⟨k, n, hf, hk, hpos⟩ := h
  exact ⟨k, n, hf, hg.get hk, Nat.le_trans hpos (hg.len hk)⟩

theorem Work.grows {u : Working} {x : Worker} (h : Work c u x fs) (hg : Grows fs fs') : Work c u x fs' := by
  refine ⟨h.ops, ?_⟩
  have hr := h.relies
  cases u with
  | rewrite | write | append | iSizeRead => exact ⟨hr.1, hr.2.grows hg⟩
  | _ => exact hr

theorem Body.pool (hb : Body c s.test s fs) (hst : s.started w = true) : Pool G464_ROOT G464_BYTE fs := by
  unfold Body at hb
  split at hb
  · cases (hb.2 w).symm.trans hst
  · cases (hb.2 w).symm.trans hst
  · exact hb.1
  · exact hb

theorem Inv.pool (h : Inv c fs₀ s fs) (ht : s.test = some t) (h₁ : t ≠ .mounted) (h₂ : t ≠ .mkdir) :
    Pool G464_ROOT G464_BYTE fs ∧ Sched c t s fs := by
  have hb := h.body
  rw [ht] at hb
  cases t with
  | mounted => exact absurd rfl h₁
  | mkdir => exact absurd rfl h₂
  | _ => exact hb

/-! ## Steps of the test function -/

/-- A step that writes nothing of a worker that was started. -/
theorem Inv.goto (h : Inv c fs₀ s fs) (hg : Grows fs fs') (herr : ∀ w, (m.worker w).err = 0)
    (hworker : ∀ w, s.started w = true → m.worker w = s.mem.worker w) (hbody : Body c (some t') (s.goto t' m) fs') :
    Inv c fs₀ (s.goto t' m) fs' := by
  refine ⟨h.grows.trans hg, herr, h.exit, fun w hw => ?_, hbody⟩
  have hwork := (h.work w hw).grows hg
  rw [← hworker w hw] at hwork
  exact hwork

/-- A step that leaves the workers and the files as they are. -/
theorem Inv.goto_same (h : Inv c fs₀ s fs) (hworker : m.worker = s.mem.worker)
    (hbody : Body c (some t') (s.goto t' m) fs) : Inv c fs₀ (s.goto t' m) fs :=
  h.goto (Grows.refl fs) (fun w => hworker ▸ h.err w) (fun _ _ => congrFun hworker _) hbody

theorem Inv.spawn {i : Nat} (h : Inv c fs₀ s fs) (ht : s.test = some (.start i)) :
    Inv c fs₀ (s.spawn i .kmalloc (.starts (i + 1))) fs := by
  obtain ⟨hpool, hi, hlt, hops⟩ := h.pool ht nofun nofun
  have hstarted : ∀ w, (s.spawn i .kmalloc (.starts (i + 1))).started w = true → w < i + 1 := by
    intro w hw
    rcases State.of_spawn_started hw with rfl | hw
    · exact Nat.lt_succ_self w
    · exact Nat.lt_succ_of_lt (hlt w hw)
  refine ⟨h.grows, h.err, fun w hd => ?_, fun w hw => ?_, hpool, hi, hstarted⟩
  · obtain ⟨hst, hexit⟩ := h.exit w hd
    have hne : w ≠ i := fun heq => Nat.lt_irrefl i (heq ▸ hlt w hst)
    exact ⟨(Function.update_of_ne hne ..).trans hst, (Function.update_of_ne hne ..).trans hexit⟩
  · by_cases hwi : w = i
    · subst hwi
      rw [State.spawn_thread]
      exact ⟨hops, trivial⟩
    · have hthread : (s.spawn i .kmalloc (.starts (i + 1))).thread w = s.thread w := Function.update_of_ne hwi ..
      rw [hthread]
      exact h.work w ((State.of_spawn_started hw).resolve_left hwi)

/-- A worker that is done has counted every round. -/
theorem Inv.ops_pos (h : Inv c fs₀ s fs) (hd : s.done w = true) (hpos : 0 < c.rounds) (hlt : c.rounds < 2 ^ 64) :
    0 < (s.mem.worker w).ops := by
  obtain ⟨hst, hexit⟩ := h.exit w hd
  have hops := (h.work w hst).ops
  rw [hexit] at hops
  rw [hops, counted, Nat.mod_eq_of_lt hlt]
  exact hpos

theorem want_le {size off : Nat} : off < size → off + want size off ≤ size := by
  unfold want
  omega

theorem length_read {k off size : Nat} (hsize : size = (fs.data k).length) (hoff : off < size) :
    (fs.read k off (want size off)).length = want size off := by
  have hle := want_le hoff
  rw [Fs.read, List.length_take, List.length_drop]
  omega

theorem test_safe {x : Unit} (h : Inv c fs₀ s fs) (ht : s.test = some t)
    (hops : ∀ i, t = .expectOps i → 0 < c.rounds ∧ c.rounds < 2 ^ 64) :
    (code c t).Safe world (program c) x s fs (Inv c fs₀) := by
  have hb := h.body
  rw [ht] at hb
  cases t with
  | mounted => exact Op.safe_assert rfl rfl (h.goto_same rfl hb)
  | mkdir =>
    obtain ⟨⟨htidy, hmnt, hfree⟩, hnone⟩ := hb
    obtain ⟨fs', hr, hpool, hgrows⟩ := Pool.of_mkdir htidy hmnt hfree
    have hserve : world.serve x (.mkdir G464_ROOT) fs = ({ ret := 0 }, fs') :=
      congrArg (fun r => (({ ret := r.1 } : Answer), r.2)) hr
    exact Op.safe_assert hserve rfl (h.goto hgrows h.err (fun _ _ => rfl) ⟨hpool, hnone⟩)
  | addAction =>
    refine Op.safe_assert rfl rfl (h.goto_same rfl ⟨hb.1, Nat.zero_le _, fun w hw => ?_⟩)
    cases (hb.2 w).symm.trans hw
  | starts i =>
    obtain ⟨hpool, hi, hlt⟩ := hb
    refine Op.safe_branch ?_
    split
    · exact h.goto_same rfl ⟨hpool, ‹_›, hlt⟩
    · exact h.goto_same rfl ⟨hpool, fun w hw => Nat.lt_of_lt_of_le (hlt w hw) hi, nofun⟩
  | init i =>
    obtain ⟨hpool, hi, hlt⟩ := hb
    have hself : (s.mem.setWorker i ⟨0, 0⟩).worker i = ⟨0, 0⟩ := Function.update_self (f := s.mem.worker) ..
    have hother : ∀ w, w ≠ i → (s.mem.setWorker i ⟨0, 0⟩).worker w = s.mem.worker w := fun w hw =>
      Function.update_of_ne hw ..
    refine Op.safe_act (h.goto (Grows.refl fs) (fun w => ?_) (fun w hw => ?_)
      ⟨hpool, hi, hlt, congrArg Worker.ops hself⟩)
    · by_cases hwi : w = i
      · rw [hwi, hself]
      · rw [hother w hwi]
        exact h.err w
    · exact hother w (Nat.ne_of_lt (hlt w hw))
  | start i => exact Op.safe_start rfl rfl (h.spawn ht)
  | joins i =>
    obtain ⟨hpool, hlt, hdone⟩ := hb
    refine Op.safe_branch ?_
    split
    · exact h.goto_same rfl ⟨hpool, hlt, hdone⟩
    · exact h.goto_same rfl ⟨hpool, fun w hw => hdone w (Nat.lt_of_lt_of_le (hlt w hw) (Nat.le_of_not_lt ‹_›))⟩
  | join i =>
    obtain ⟨hpool, hlt, hdone⟩ := hb
    refine Op.safe_wait (fun hd => h.goto_same rfl ⟨hpool, hlt, fun w hw => ?_⟩) h
    rcases Nat.lt_succ_iff_lt_or_eq.1 hw with hw | rfl
    · exact hdone w hw
    · exact hd
  | expectErr i => exact Op.safe_check (beq_iff_eq.2 (h.err i)) (h.goto_same rfl hb)
  | expectOps i =>
    obtain ⟨hpos, hlt⟩ := hops i rfl
    refine Op.safe_check (decide_eq_true ?_) (h.goto_same rfl hb)
    exact h.ops_pos (hb.2.2 i (Nat.lt_succ_self i)) hpos hlt
  | kmalloc => exact Op.safe_assert rfl rfl (h.goto_same rfl hb)
  | files i =>
    refine Op.safe_branch ?_
    split
    · exact h.goto_same rfl hb
    · exact h.goto_same rfl ⟨hb.1, trivial⟩
  | present i =>
    obtain ⟨hpool, hover⟩ := hb
    by_cases hres : fs.resolves (path i) = true
    · have hserve : world.serve x (.exists (path i)) fs = ({ ret := 1 }, fs) := by
        show (({ ret := if fs.resolves (path i) then 1 else 0 } : Answer), fs) = _
        rw [if_pos hres]
      exact Op.safe_step rfl hserve rfl rfl (h.goto_same rfl ⟨hpool, hover, (hpool.resolves_iff _).1 hres⟩)
    · have hserve : world.serve x (.exists (path i)) fs = ({ ret := 0 }, fs) := by
        show (({ ret := if fs.resolves (path i) then 1 else 0 } : Answer), fs) = _
        rw [if_neg hres]
      exact Op.safe_step rfl hserve rfl rfl (h.goto_same rfl ⟨hpool, hover⟩)
  | kstat i =>
    obtain ⟨hpool, hover, k, hk⟩ := hb
    have hserve : world.serve x (.kstat (path i)) fs = ({ ret := 0, size := (fs.data k).length }, fs) := by
      show (size fs (path i), fs) = _
      unfold size
      rw [show fs.above (path i) = none from Fs.above_of_dir (hpool.tidy.dir hpool.dir) _, hk]
    exact Op.safe_assertStore hserve rfl (h.goto_same rfl ⟨hpool, hover, k, hk, rfl⟩)
  | ranges i off =>
    obtain ⟨hpool, hover, hsized⟩ := hb
    refine Op.safe_branch ?_
    split
    · exact h.goto_same rfl ⟨hpool, hover, hsized, ‹_›⟩
    · exact h.goto_same rfl ⟨hpool, hover⟩
  | readRange i off =>
    obtain ⟨hpool, hover, ⟨k, hk, hsize⟩, hoff⟩ := hb
    have hopen : fs.openFile (path i) = (k : Int) := hpool.openFile hk
    have hserve : world.serve x (.readRange (path i) (want s.mem.size off) off) fs =
        ({ ret := want s.mem.size off, bytes := fs.read k off (want s.mem.size off) }, fs) := by
      show (if fs.openFile (path i) < 0 then (({ ret := fs.openFile (path i) } : Answer), fs) else _) = _
      rw [hopen, if_neg (by omega), Int.toNat_natCast, length_read hsize hoff]
    refine Op.safe_step rfl hserve rfl (beq_self_eq_true _)
      (h.goto_same rfl ⟨hpool, hover, ⟨k, hk, hsize⟩, fun b hb => ?_⟩)
    exact hpool.pure hk b (List.mem_of_mem_drop (List.mem_of_mem_take hb))
  | verify i off =>
    obtain ⟨hpool, hover, hsized, hbuf⟩ := hb
    refine Op.safe_check (List.all_eq_true.2 fun b hb => beq_iff_eq.2 (hbuf b hb))
      (h.goto_same rfl ⟨hpool, hover, hsized⟩)
  | ret => exact ⟨h.grows, h.err, h.exit, h.work, hb.1⟩

/-! ## Steps of a worker -/

theorem Sched.thread {s' : Config} (h : Sched c t s fs) (hst : s.started w = true) (hd : s.done w = false)
    (hstarted : s'.started = s.started) (hdone : ∀ v, s.done v = true → s'.done v = true)
    (hother : ∀ v, v ≠ w → s'.mem.worker v = s.mem.worker v) : Sched c t s' fs' := by
  have hnot : ∀ {P : Prop}, Over s → P := fun hover => by cases hd.symm.trans (hover w hst)
  have hback : ∀ v, s'.started v = true → s.started v = true := fun v hv => (congrFun hstarted v).symm.trans hv
  cases t with
  | mounted | mkdir | ret => trivial
  | addAction => exact fun v => (congrFun hstarted v).trans (h v)
  | starts | init => exact ⟨h.1, fun v hv => h.2 v (hback v hv)⟩
  | start i =>
    have hne : i ≠ w := Nat.ne_of_gt (h.2.1 w hst)
    exact ⟨h.1, fun v hv => h.2.1 v (hback v hv), (congrArg Worker.ops (hother i hne)).trans h.2.2⟩
  | joins | join | expectErr | expectOps => exact ⟨fun v hv => h.1 v (hback v hv), fun v hv => hdone v (h.2 v hv)⟩
  | kmalloc | files | present => exact hnot h
  | kstat | ranges | readRange | verify => exact hnot h.1

/-- A step of a worker that runs. -/
theorem Inv.move (h : Inv c fs₀ s fs) (hst : s.started w = true) (hd : s.done w = false) {u : Working}
    (hpool : Pool G464_ROOT G464_BYTE fs') (hg : Grows fs fs') (hother : ∀ v, v ≠ w → m.worker v = s.mem.worker v)
    (herr : (m.worker w).err = 0) (hwork : Work c u (m.worker w) fs') : Inv c fs₀ (s.move w u m) fs' := by
  refine ⟨h.grows.trans hg, fun v => ?_, fun v hv => ?_, fun v hv => ?_, ?_⟩
  · by_cases hvw : v = w
    · exact hvw ▸ herr
    · exact (congrArg Worker.err (hother v hvw)).trans (h.err v)
  · have hvw : v ≠ w := by
      rintro rfl
      cases hd.symm.trans hv
    exact ⟨(h.exit v hv).1, (State.move_thread_ne hvw u m).trans (h.exit v hv).2⟩
  · by_cases hvw : v = w
    · subst hvw
      rw [State.move_thread]
      exact hwork
    · have hkept := (h.work v hv).grows hg
      rw [State.move_thread_ne hvw]
      rw [← hother v hvw] at hkept
      exact hkept
  · have hb := h.body
    show Body c s.test (s.move w u m) fs'
    cases htest : s.test with
    | none => exact hpool
    | some t =>
      rw [htest] at hb
      have hsched : Sched c t s fs → Sched c t (s.move w u m) fs' := fun hs =>
        hs.thread hst hd rfl (fun _ hv => hv) hother
      cases t with
      | mounted | mkdir => cases (hb.2 w).symm.trans hst
      | _ => exact ⟨hpool, hsched hb.2⟩

theorem Inv.signal (h : Inv c fs₀ s fs) (hst : s.started w = true) (hd : s.done w = false)
    (hu : s.thread w = .complete) : Inv c fs₀ (s.signal w .exit) fs := by
  have hwork := h.work w hst
  rw [hu] at hwork
  refine ⟨h.grows, h.err, fun v hv => ?_, fun v hv => ?_, ?_⟩
  · by_cases hvw : v = w
    · subst hvw
      exact ⟨hst, State.signal_thread v Working.exit⟩
    · obtain ⟨hst', hexit⟩ := h.exit v ((State.signal_done_ne hvw _).symm.trans hv)
      exact ⟨hst', (State.signal_thread_ne hvw _).trans hexit⟩
  · by_cases hvw : v = w
    · subst hvw
      rw [State.signal_thread]
      exact ⟨hwork.ops, trivial⟩
    · rw [State.signal_thread_ne hvw]
      exact h.work v hv
  · have hdone : ∀ v, s.done v = true → (s.signal w .exit).done v = true := by
      intro v hv
      by_cases hvw : v = w
      · exact hvw ▸ State.signal_done v Working.exit
      · exact (State.signal_done_ne hvw _).trans hv
    have hb := h.body
    show Body c s.test (s.signal w .exit) fs
    cases htest : s.test with
    | none =>
      rw [htest] at hb
      exact hb
    | some t =>
      rw [htest] at hb
      have hsched : Sched c t s fs → Sched c t (s.signal w .exit) fs := fun hs =>
        hs.thread hst hd rfl hdone fun _ _ => rfl
      cases t with
      | mounted | mkdir => cases (hb.2 w).symm.trans hst
      | _ => exact ⟨hb.1, hsched hb.2⟩

theorem relies_choose {i n k : Nat} {r : UInt32} {name : Text} (hi : i < c.rounds)
    (hk : fs.get (G464_ROOT ++ [name]) = some (.file k)) : Relies c (choose c w i n r k) fs := by
  have hreached : Reached k 0 fs := ⟨k, name, rfl, hk, Nat.zero_le _⟩
  unfold choose
  split
  · exact ⟨hi, hreached⟩
  · exact ⟨hi, hreached⟩
  · exact hi

theorem counted_choose {i n k : Nat} {r : UInt32} : counted c (choose c w i n r k) = i := by
  unfold choose
  split <;> rfl

/-- A write of a worker, from where it believes the end to be. -/
theorem Reached.write {x : Unit} (h : Reached f pos fs) (hpool : Pool G464_ROOT G464_BYTE fs) (len : Nat) :
    ∃ fs', world.serve x (.kernelWrite f (pattern len) pos) fs = ({ ret := len }, fs') ∧
      Pool G464_ROOT G464_BYTE fs' ∧ Grows fs fs' ∧ Reached f (pos + len) fs' := by
  obtain ⟨k, n, rfl, hk, hpos⟩ := h
  obtain ⟨fs', hr, hpool', hg, hlen⟩ := hpool.write hk hpos len
  refine ⟨fs', ?_, hpool', hg, k, n, rfl, hg.get hk, hlen⟩
  show (({ ret := (fs.write (k : Int).toNat pos (pattern len)).1 } : Answer),
    (fs.write (k : Int).toNat pos (pattern len)).2) = _
  rw [Int.toNat_natCast, show fs.write k pos (pattern len) = ((len : Int), fs') from hr]

theorem worker_safe {x : Unit} (h : Inv c fs₀ s fs) (hst : s.started w = true) (hd : s.done w = false) :
    (mixedOps c w (s.thread w)).Safe world w x s fs (Inv c fs₀) := by
  have hpool := h.body.pool hst
  have hwork := h.work w hst
  -- a step that leaves the frame
  have hgo : ∀ {u fs'}, Pool G464_ROOT G464_BYTE fs' → Grows fs fs' → Work c u (s.mem.worker w) fs' →
      Inv c fs₀ (s.move w u s.mem) fs' := fun hpool' hg hwork' =>
    h.move hst hd hpool' hg (fun _ _ => rfl) (h.err w) hwork'
  have hrefl := Grows.refl fs
  cases hu : s.thread w with
  | kmalloc =>
    rw [hu] at hwork
    exact hgo hpool hrefl ⟨hwork.ops, Nat.zero_le _⟩
  | head i n =>
    rw [hu] at hwork
    show Inv c fs₀ (s.move w (if i < c.rounds then .filpOpen i (n + 1) (c.draw w n) else .complete) s.mem) fs
    split
    · exact hgo hpool hrefl ⟨hwork.ops, ‹_›⟩
    · have hi : i = c.rounds := Nat.le_antisymm hwork.relies (Nat.le_of_not_lt ‹_›)
      refine hgo hpool hrefl ⟨hwork.ops.trans ?_, trivial⟩
      rw [← show i = counted c .complete from hi]
      rfl
  | filpOpen i n r =>
    rw [hu] at hwork
    obtain ⟨k, fs', hr, hpool', hg, hk⟩ := hpool.openCreat (decimal (r.toNat % c.files))
    have hserve : world.serve x (.filpOpen (path (r.toNat % c.files))) fs = ({ ret := k }, fs') :=
      congrArg (fun r => (({ ret := r.1 } : Answer), r.2)) hr
    have hnot : ¬ (k : Int) < 0 := Int.not_lt.2 (Int.natCast_nonneg k)
    refine ThreadOp.safe_call hserve ?_
    dsimp only
    rw [if_neg hnot, if_neg hnot]
    exact hgo hpool' hg ⟨by rw [counted_choose]; exact hwork.ops, relies_choose hwork.relies hk⟩
  | rewrite i n f blocks pos =>
    rw [hu] at hwork
    show Inv c fs₀ (s.move w (if blocks = 0 then .ops i n f else .write i n f (blocks - 1) pos) s.mem) fs
    split
    · exact hgo hpool hrefl ⟨hwork.ops, hwork.relies.1⟩
    · exact hgo hpool hrefl ⟨hwork.ops, hwork.relies⟩
  | write i n f blocks pos =>
    rw [hu] at hwork
    obtain ⟨fs', hserve, hpool', hg, hreached⟩ := hwork.relies.2.write hpool G464_BLOCK
    refine ThreadOp.safe_call hserve ?_
    dsimp only
    rw [if_neg (not_not.2 rfl), if_neg (not_not.2 rfl)]
    exact hgo hpool' hg ⟨hwork.ops, hwork.relies.1, hreached⟩
  | iSizeRead i n f =>
    rw [hu] at hwork
    obtain ⟨hi, k, name, rfl, hk, -⟩ := hwork.relies
    refine hgo hpool hrefl ⟨hwork.ops, hi, k, name, rfl, hk, ?_⟩
    exact Nat.le_refl _
  | append i n f pos =>
    rw [hu] at hwork
    obtain ⟨fs', hserve, hpool', hg, hreached⟩ := hwork.relies.2.write hpool PAGE_SIZE
    refine ThreadOp.safe_call hserve ?_
    dsimp only
    rw [if_neg (not_not.2 rfl)]
    exact hgo hpool' hg ⟨hwork.ops, hwork.relies.1⟩
  | flush i n f =>
    rw [hu] at hwork
    exact hgo hpool hrefl ⟨hwork.ops, hwork.relies⟩
  | ops i n f =>
    rw [hu] at hwork
    have hself : (s.mem.setWorker w { s.mem.worker w with ops := incr (s.mem.worker w).ops }).worker w =
        { s.mem.worker w with ops := incr (s.mem.worker w).ops } := Function.update_self (f := s.mem.worker) ..
    refine h.move hst hd hpool hrefl (fun v hv => Function.update_of_ne hv ..) ?_ ⟨?_, hwork.relies⟩
    · rw [hself]
      exact h.err w
    · rw [hself]
      dsimp only
      rw [hwork.ops, incr, Nat.mod_add_mod]
      rfl
  | close i n f =>
    rw [hu] at hwork
    show Inv c fs₀ (s.move w (if (s.mem.worker w).err ≠ 0 then .complete else .head (i + 1) n) s.mem) fs
    rw [if_neg (not_not.2 (h.err w))]
    exact hgo hpool hrefl ⟨hwork.ops, hwork.relies⟩
  | complete => exact h.signal hst hd hu
  | exit => exact h

theorem thread_safe {x : Unit} (h : Inv c fs₀ s fs) (hst : s.started w = true) :
    ((program c).work w (s.thread w)).Safe world w x s fs (Inv c fs₀) := by
  cases hd : s.done w with
  | false => exact worker_safe h hst hd
  | true =>
    rw [(h.exit w hd).2]
    exact h

/-! ## Runs -/

theorem Inv.init (h : Mounted fs) : Inv c fs (program c).init fs :=
  ⟨Grows.refl fs, fun _ => rfl, nofun, nofun, h, fun _ => rfl⟩

theorem Inv.restart (h : Inv c fs₀ s fs) : Inv c fs s fs := ⟨Grows.refl fs, h.err, h.exit, h.work, h.body⟩

/-- The check that a worker did something is the only one that may fail, and it does not leave the function. -/
theorem test_leads {x : Unit} (h : Inv c fs₀ s fs) (ht : s.test = some t) :
    (code c t).Leads world (program c) x s fs (Inv c fs₀) := by
  by_cases hops : ∃ i, t = .expectOps i
  · obtain ⟨i, rfl⟩ := hops
    have hb := h.body
    rw [ht] at hb
    exact Op.leads_expect (h.goto_same rfl hb)
  · exact (test_safe h ht fun i hi => absurd ⟨i, hi⟩ hops).leads

theorem Inv.fail (h : Inv c fs₀ s fs) (b : Bool) : Inv c fs₀ (s.fail b) fs := by
  refine ⟨h.grows, h.err, h.exit, h.work, ?_⟩
  have hb := h.body
  show Body c s.test (s.fail b) fs
  cases htest : s.test with
  | none =>
    rw [htest] at hb
    exact hb
  | some t =>
    rw [htest] at hb
    cases t <;> exact hb

theorem run_from {y : Config × Fs Text} (h : Inv c fs₀ y.1 y.2) (is : List (Option Nat × Unit)) :
    Inv c fs₀ (Runs.exec ((program c).stepIn world) y is).1 (Runs.exec ((program c).stepIn world) y is).2 :=
  always_from (fun _ _ b h => h.fail b) (fun _ _ _ _ h ht => test_leads h ht)
    (fun _ _ _ _ h hst => thread_safe h hst) h is

/-- A file of the test has one byte only. -/
theorem Inv.pure (h : Inv c fs₀ s fs) {n : Text} {bytes : List UInt8}
    (hb : fs.content (G464_ROOT ++ [n]) = some bytes) :
    ∀ b ∈ bytes, b = G464_BYTE := by
  have hmounted : Mounted fs → ∀ b ∈ bytes, b = G464_BYTE := by
    intro hm
    obtain ⟨k, hk, -⟩ := Fs.get_of_content hb
    rw [hm.tidy.free hm.free] at hk
    cases hk
  have hbody := h.body
  unfold Body at hbody
  split at hbody
  · exact hmounted hbody.1
  · exact hmounted hbody.1
  · exact hbody.1.content hb
  · exact hbody.content hb

theorem Inv.not_rejects (h : Inv c fs₀ s fs) (ht : s.test = some t) :
    (program c).rejects t (world.reply () ((program c).callOf s none) fs).1 s.mem = false := by
  by_cases hops : ∃ i, t = .expectOps i
  · obtain ⟨i, rfl⟩ := hops
    rfl
  · exact Op.Safe.not_rejects ht (test_safe h ht fun i hi => absurd ⟨i, hi⟩ hops)

/-- For any number of workers, rounds and files, any draws and any order of the steps: from any moment of a run to any
later one no file gets shorter; at every moment the files of the test have no other byte than `G464_BYTE`; the test
function, with it its last loop over the files, is never left by a check that fails; and where the workers have rounds
to make no check fails at all. -/
theorem mixed_writes_lose_nothing (c : Params) (h : Mounted fs) (is js : List (Option Nat × Unit))
    {y z : Config × Fs Text} (hy : Runs.exec ((program c).stepIn world) ((program c).init, fs) is = y)
    (hz : Runs.exec ((program c).stepIn world) y js = z) :
    (∀ p bytes, y.2.content p = some bytes → ∃ bytes', z.2.content p = some bytes' ∧ bytes.length ≤ bytes'.length) ∧
      (∀ n bytes, y.2.content (G464_ROOT ++ [n]) = some bytes → ∀ b ∈ bytes, b = G464_BYTE) ∧
      (∀ t, y.1.test = some t →
        (program c).rejects t (world.reply () ((program c).callOf y.1 none) y.2).1 y.1.mem = false) ∧
      (0 < c.rounds → c.rounds < 2 ^ 64 → y.1.failed = false) := by
  have hinv : Inv c fs y.1 y.2 := hy ▸ run_from (Inv.init h) is
  have hlater : Inv c y.2 z.1 z.2 := hz ▸ run_from hinv.restart js
  refine ⟨fun p bytes hb => hlater.grows.content hb, fun n bytes hb => hinv.pure hb, fun t ht => hinv.not_rejects ht,
    fun hpos hlt => ?_⟩
  have hrun := always_safe (fun _ _ _ _ hinv ht => test_safe hinv ht fun _ _ => ⟨hpos, hlt⟩)
    (fun _ _ _ _ hinv hst => thread_safe hinv hst) (Inv.init h) is
  rw [hy] at hrun
  exact hrun.2

theorem mountedFs_mounted : Mounted mountedFs := ⟨mountedFs_tidy_get.1, mountedFs_mnt, mountedFs_free _⟩

/-- Two of the source's workers open file 4, which no one has written, and read its size; then both append to it. -/
def appended : List (Option Nat × Unit) :=
  List.replicate 10 (none, ()) ++ List.replicate 4 (some 0, ()) ++ List.replicate 4 (some 1, ()) ++
    [(some 0, ()), (some 1, ())]

theorem mixed_writes_lose_nothing_appended : ∃ y : Config × Fs Text,
    Runs.exec ((program (params fun _ _ => 4)).stepIn world) ((program (params fun _ _ => 4)).init, mountedFs)
      appended = y ∧
    y.1.thread 0 = .ops 0 1 0 ∧ y.1.thread 1 = .ops 0 1 0 ∧ y.1.failed = false ∧
    ∀ bytes, y.2.content (path 4) = some bytes → ∀ b ∈ bytes, b = G464_BYTE := by
  refine ⟨_, rfl, by decide +kernel, by decide +kernel, ?_⟩
  obtain ⟨-, hpure, -, hpasses⟩ := mixed_writes_lose_nothing (params fun _ _ => 4) mountedFs_mounted appended [] rfl rfl
  exact ⟨hpasses (by decide) (by decide), hpure (decimal 4)⟩

end NfsPlayground.Races.G464
