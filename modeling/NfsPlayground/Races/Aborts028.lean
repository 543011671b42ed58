import NfsPlayground.Races.Clean028

/-!
# generic/028: what the clean-up finds

`Inv` holds in every state of a run whose calls may fail: before the racer is started the tree has the directories made
so far, while it runs it has its file where the racer is, and once it has stopped the tree is as the test function's
point says. So the clean-up is right exactly if the racer's file is `Findable`.
-/

namespace NfsPlayground.Races.G028.Clean

open Lines Posix Threads

abbrev Config : Type := State Point Racing Frame

inductive Era
  | early
  | racing
  | late
  deriving DecidableEq

def lookupEra : Lookup → Era
  | .initial => .early
  | .racing _ => .racing
  | .ancestor | .child | .back => .late

/-- Whether the racer has not been started, may run, or has stopped. -/
def era : Point → Era
  | .mounted | .mkdir | .addAction | .mkdirA | .mkdirB | .mkdirC | .mkdirDeep | .start => .early
  | .kmalloc l | .kernPath l | .dPath l | .assertBelow l | .assertSame l => lookupEra l
  | .waitStarted | .assertErr | .loop _ | .setStop | .join => .racing
  | .expectErr | .expectRenames | .unlinkLast | .createSib | .writeSib | .renameAncestor | .expectGone | .unlinkSib
  | .renameBack | .ret => .late

def lookupStage : Lookup → Bool × Bool
  | .initial | .racing _ | .back => (false, false)
  | .ancestor | .child => (true, true)

/-- Whether the directory has its other name, and whether `sib0` is there. -/
def stage : Point → Bool × Bool
  | .kmalloc l | .kernPath l | .dPath l | .assertBelow l | .assertSame l => lookupStage l
  | .writeSib | .renameAncestor => (false, true)
  | .expectGone | .unlinkSib => (true, true)
  | .renameBack => (true, false)
  | _ => (false, false)

/-- The tree before the racer is started. -/
def Before : Point → Fs Text → Prop
  | .mounted, fs | .mkdir, fs => fs.Tidy
  | .addAction, fs | .mkdirA, fs => Fs.Spine XFS_MNT top [top] (Held none false) fs
  | .mkdirB, fs => Fs.Spine XFS_MNT top [top, ['a']] (Held none false) fs
  | .mkdirC, fs => Fs.Spine XFS_MNT top upper (Held none false) fs
  | .mkdirDeep, fs => Fs.Spine XFS_MNT top (upper ++ [middle false]) (Held none false) fs
  | _, fs => Tree false none false fs

/-- The racer's file, where the racer is. -/
def Racer : Racing → Option Text → Prop
  | .create, n => n = none
  | .write, n | .announce, n => n = some getcwdTestfile
  | .head _ cur, n | .rename _ cur, n => ∃ m, n = some m ∧ cur = G_DEEP ++ [m]
  | _, _ => True

/-- `last_name` is not set, or a name the racer's file has had. -/
def Last (p : Path) : Prop := p = [] ∨ ∃ m, p = G_DEEP ++ [m] ∧ m ≠ sib0

structure Inv (s : Config) (fs : Fs Text) : Prop where
  only : ∀ i, s.started i = true → i = 0
  last : Last s.mem.lastName
  exit : s.done 0 = true → s.started 0 = true ∧ s.thread 0 = .exit
  early : ∀ t, s.test = some t → era t = .early → s.started 0 = false ∧ Before t fs
  racing : s.started 0 = true → s.done 0 = false → ∃ n, Tree false n false fs ∧ Racer (s.thread 0) n
  started : ∀ t, s.test = some t → era t ≠ .early → s.started 0 = true
  late : ∀ t, s.test = some t → era t = .late → s.done 0 = true
  stopped : s.done 0 = true → ∃ moved n sib, Tree moved n sib fs ∧ ∀ t, s.test = some t → stage t = (moved, sib)

variable {s : Config} {fs fs' : Fs Text} {t t' : Point} {m : Frame} {moved sib : Bool} {n : Option Text} {x : Outcome}

theorem stage_of_racing (h : era t = .racing) : stage t = (false, false) := by
  cases t with
  | kmalloc l | kernPath l | dPath l | assertBelow l | assertSame l =>
    cases l with
    | racing i => rfl
    | _ => cases h
  | waitStarted | assertErr | loop | setStop | join => rfl
  | _ => cases h

theorem Before.quiet (h : Before t fs) (hq : Quiet fs fs') : Before t fs' := by
  cases t with
  | mounted | mkdir => exact Fs.Tidy.congr h hq.1 hq.2
  | addAction | mkdirA | mkdirB | mkdirC | mkdirDeep => exact Fs.Spine.congr_get h hq.1 hq.2
  | _ => exact Tree.quiet h hq

theorem Inv.quiet (h : Inv s fs) (hq : Quiet fs fs') : Inv s fs' := by
  refine ⟨h.only, h.last, h.exit, fun t ht he => ?_, fun hst hd => ?_, h.started, h.late, fun hd => ?_⟩
  · exact ⟨(h.early t ht he).1, (h.early t ht he).2.quiet hq⟩
  · obtain ⟨n, htree, hracer⟩ := h.racing hst hd
    exact ⟨n, htree.quiet hq, hracer⟩
  · obtain ⟨moved, n, sib, htree, hat⟩ := h.stopped hd
    exact ⟨moved, n, sib, htree.quiet hq, hat⟩

/-! ## Steps of the test function -/

/-- A step that leaves every path as it is, and the racer's era. -/
theorem Inv.goto (h : Inv s fs) (ht : s.test = some t) (hq : Quiet fs fs') (hera : era t' = era t)
    (hstage : stage t' = stage t) (hbefore : era t = .early → Before t fs → Before t' fs')
    (hlast : m.lastName = s.mem.lastName) : Inv (s.goto t' m) fs' := by
  refine ⟨h.only, hlast ▸ h.last, h.exit, fun u hu he => ?_, fun hst hd => ?_, fun u hu he => ?_, fun u hu he => ?_,
    fun hd => ?_⟩
  · cases hu
    rw [hera] at he
    exact ⟨(h.early t ht he).1, hbefore he (h.early t ht he).2⟩
  · obtain ⟨n, htree, hracer⟩ := h.racing hst hd
    exact ⟨n, htree.quiet hq, hracer⟩
  · cases hu
    exact h.started t ht (hera ▸ he)
  · cases hu
    exact h.late t ht (hera ▸ he)
  · obtain ⟨moved, n, sib, htree, hat⟩ := h.stopped hd
    refine ⟨moved, n, sib, htree.quiet hq, fun u hu => ?_⟩
    cases hu
    rw [hstage, hat t ht]

/-- The test is left, and every path is as it was. -/
theorem Inv.leave (h : Inv s fs) (hq : Quiet fs fs') (hlast : m.lastName = s.mem.lastName) :
    Inv (s.leaveWith m) fs' := by
  refine ⟨h.only, hlast ▸ h.last, h.exit, nofun, fun hst hd => ?_, nofun, nofun, fun hd => ?_⟩
  · obtain ⟨n, htree, hracer⟩ := h.racing hst hd
    exact ⟨n, htree.quiet hq, hracer⟩
  · obtain ⟨moved, n, sib, htree, -⟩ := h.stopped hd
    exact ⟨moved, n, sib, htree.quiet hq, nofun⟩

/-- A step before the racer is started. -/
theorem Inv.goto_early (h : Inv s fs) (ht : s.test = some t) (he : era t = .early) (he' : era t' = .early)
    (hbefore : Before t' fs') (hlast : m.lastName = s.mem.lastName) : Inv (s.goto t' m) fs' := by
  have hst := (h.early t ht he).1
  refine ⟨h.only, hlast ▸ h.last, h.exit, fun u hu _ => ?_, fun hst' _ => ?_, fun u hu hne => ?_, fun u hu hl => ?_,
    fun hd => ?_⟩
  · cases hu
    exact ⟨hst, hbefore⟩
  · cases hst.symm.trans hst'
  · cases hu
    exact absurd he' hne
  · cases hu
    cases he'.symm.trans hl
  · cases hst.symm.trans (h.exit hd).1

theorem Inv.leave_early (h : Inv s fs) (ht : s.test = some t) (he : era t = .early)
    (hlast : m.lastName = s.mem.lastName) : Inv (s.leaveWith m) fs' := by
  have hst := (h.early t ht he).1
  refine ⟨h.only, hlast ▸ h.last, h.exit, nofun, fun hst' _ => ?_, nofun, nofun, fun hd => ?_⟩
  · cases hst.symm.trans hst'
  · cases hst.symm.trans (h.exit hd).1

/-- A step once the racer has stopped. -/
theorem Inv.goto_late (h : Inv s fs) (hd : s.done 0 = true) (hl : era t' = .late) (htree : Tree moved n sib fs')
    (hstage : stage t' = (moved, sib)) (hlast : m.lastName = s.mem.lastName) : Inv (s.goto t' m) fs' := by
  refine ⟨h.only, hlast ▸ h.last, h.exit, fun u hu he => ?_, fun _ hnd => ?_, fun _ _ _ => (h.exit hd).1,
    fun _ _ _ => hd, fun _ => ⟨moved, n, sib, htree, fun u hu => ?_⟩⟩
  · cases hu
    cases hl.symm.trans he
  · cases hd.symm.trans hnd
  · cases hu
    exact hstage

theorem Inv.leave_late (h : Inv s fs) (hd : s.done 0 = true) (htree : Tree moved n sib fs')
    (hlast : m.lastName = s.mem.lastName) : Inv (s.leaveWith m) fs' := by
  refine ⟨h.only, hlast ▸ h.last, h.exit, nofun, fun _ hnd => ?_, nofun, nofun, fun _ => ⟨moved, n, sib, htree, nofun⟩⟩
  cases hd.symm.trans hnd

/-- A step from a point once the racer has stopped, with the tree as the point says. -/
theorem Inv.tree (h : Inv s fs) (ht : s.test = some t) (hl : era t = .late) :
    ∃ n, Tree (stage t).1 n (stage t).2 fs := by
  obtain ⟨moved, n, sib, htree, hat⟩ := h.stopped (h.late t ht hl)
  rw [hat t ht]
  exact ⟨n, htree⟩

/-- A call that leaves every path as it is, and is looked at or not. -/
theorem quiet_leads (h : Inv s fs) (ht : s.test = some t) {c : Frame → Call} {holds : Answer → Bool}
    {store : Answer → Frame → Frame} (hkeeps : ∀ m, (c m).keepsPaths = true) (hera : era t' = era t)
    (hstage : stage t' = stage t) (hbefore : ∀ fs', Quiet fs fs' → era t = .early → Before t fs → Before t' fs')
    (hlast : ∀ a m, (store a m).lastName = m.lastName) :
    (Op.assertStore c holds store t').Leads faulty program x s fs Inv :=
  have hq := faulty_quiet (hkeeps s.mem) x fs
  Op.leads_assertStore rfl (fun _ => h.goto ht hq hera hstage (hbefore _ hq) (hlast _ _))
    fun _ => h.leave hq (hlast _ _)

theorem check_leads (h : Inv s fs) (ht : s.test = some t) {fatal : Bool} {holds : Frame → Bool} (hera : era t' = era t)
    (hstage : stage t' = stage t) (hbefore : era t = .early → Before t fs → Before t' fs) :
    (Op.check fatal holds t' : Op Point Frame Call Answer).Leads faulty program x s fs Inv :=
  Op.leads_check (h.goto ht (Quiet.refl fs) hera hstage hbefore rfl) (h.leave (Quiet.refl fs) rfl)

/-- A directory is made before the racer is started. -/
theorem mkdir_leads (h : Inv s fs) (ht : s.test = some t) (he : era t = .early) (he' : era t' = .early) {p : Path}
    (hcanon : canon p = p) (hnext : ∀ fs', fs.mkdir p = (0, fs') → Before t' fs') :
    (assertZero (fun _ => .mkdir p) t').Leads faulty program x s fs Inv := by
  refine Op.leads_assert rfl (fun hret => ?_) fun _ => h.leave_early ht he rfl
  obtain ⟨expired, hr⟩ := faulty_served (c := .mkdir p) hret
  have hmkdir : serve expired (.mkdir p) fs = answer (fs.mkdir p) := congrArg (fun q => answer (fs.mkdir q)) hcanon
  refine h.goto_early ht he he' (hnext _ ?_) rfl
  rw [hr, hmkdir] at hret ⊢
  exact Prod.ext (beq_iff_eq.1 hret) rfl

/-- The directories are made one below the other. -/
theorem spine_mkdir {u : Path} {a : Text} (h : Fs.Spine XFS_MNT top u (Held none false) fs) (hu : [top] <+: u)
    (hr : fs.mkdir (XFS_MNT ++ u ++ [a]) = (0, fs')) : Fs.Spine XFS_MNT top (u ++ [a]) (Held none false) fs' := by
  obtain ⟨fs'', hr', hspine⟩ := h.mkdir not_held_none (h.get_deep hu) (hu.trans (List.prefix_append u [a]))
  cases hr.symm.trans hr'
  exact hspine

theorem lookup_leads (h : Inv s fs) {l : Lookup} :
    (s.test = some (.kmalloc l) → (code (.kmalloc l)).Leads faulty program x s fs Inv) ∧
      (s.test = some (.kernPath l) → (code (.kernPath l)).Leads faulty program x s fs Inv) ∧
      (s.test = some (.dPath l) → (code (.dPath l)).Leads faulty program x s fs Inv) ∧
      (s.test = some (.assertBelow l) → (code (.assertBelow l)).Leads faulty program x s fs Inv) ∧
      (s.test = some (.assertSame l) → (code (.assertSame l)).Leads faulty program x s fs Inv) := by
  have hnext : era l.next = lookupEra l ∧ stage l.next = lookupStage l := by cases l <;> exact ⟨rfl, rfl⟩
  have hquiet : ∀ fs', Quiet fs fs' → Tree false none false fs → Tree false none false fs' :=
    fun fs' hq htree => htree.quiet hq
  refine ⟨fun ht => ?_, fun ht => ?_, fun ht => ?_, fun ht => ?_, fun ht => ?_⟩
  · exact quiet_leads h ht (fun _ => rfl) rfl rfl (fun fs' hq _ hb => hquiet fs' hq hb) fun _ _ => rfl
  · exact quiet_leads h ht (fun _ => rfl) rfl rfl (fun fs' hq _ hb => hquiet fs' hq hb) fun _ _ => rfl
  · exact quiet_leads h ht (fun _ => rfl) rfl rfl (fun fs' hq _ hb => hquiet fs' hq hb) fun _ _ => rfl
  · exact check_leads h ht rfl rfl fun _ hb => hb
  · refine check_leads h ht hnext.1 hnext.2 fun he hb => ?_
    cases l with
    | initial => exact hb
    | _ => cases he

/-- A call that changes the tree once the racer has stopped: it is made, and changes the tree as the next point says, or
the test is left. -/
theorem change_leads (h : Inv s fs) (ht : s.test = some t) (hl : era t = .late) (hl' : era t' = .late)
    {c : Frame → Call}
    {holds : Answer → Bool} {store : Answer → Frame → Frame} (hfails : ∀ m a, (c m).succeeds a = holds a)
    (hserve : ∀ n, Tree (stage t).1 n (stage t).2 fs → ∃ a fs', (∀ expired, serve expired (c s.mem) fs = (a, fs')) ∧
      holds a = true ∧ Tree (stage t').1 n (stage t').2 fs')
    (hlast : ∀ a m, (store a m).lastName = m.lastName) :
    (Op.assertStore c holds store t').Leads faulty program x s fs Inv := by
  have hd := h.late t ht hl
  obtain ⟨n, htree⟩ := h.tree ht hl
  obtain ⟨a, fs', hr, hholds, htree'⟩ := hserve n htree
  rcases faulty_cases x (c s.mem) fs with ⟨expired, hserved⟩ | ⟨b, hserved, hb⟩
  · rw [hr] at hserved
    refine Op.leads_assertStore hserved (fun _ => h.goto_late hd hl' htree' rfl (hlast _ _)) fun hnot => ?_
    cases hholds.symm.trans hnot
  · rw [hfails] at hb
    refine Op.leads_assertStore hserved (fun hyes => ?_) fun _ => h.leave_late hd htree (hlast _ _)
    cases hb.symm.trans hyes

theorem last_first : Last firstName := Or.inr ⟨getcwdTestfile, rfl, testfile_ne⟩

/-- What is unlinked once the racer has stopped is its file, or nothing. -/
theorem Tree.unlink_last (h : Tree false n sib fs) {p : Path} (hp : Last p) :
    ∃ n', Tree false n' sib (fs.unlink (canon p)).2 := by
  rcases hp with rfl | ⟨m, rfl, hm⟩
  · have hroot : fs.get [] = some .dir := h.spine.tidy.up (n := ['m', 'n', 't']) (h.spine.tidy.up h.spine.mount)
    refine ⟨n, ?_⟩
    have hsame : (fs.unlink []).2 = fs := by
      unfold Fs.unlink
      rw [hroot]
      split <;> first | rfl | cases ‹some _ = _›
    rwa [show canon [] = [] from rfl, hsame]
  · exact ⟨_, (h.unlink hm).1⟩

theorem unlinkLast_leads (h : Inv s fs) (ht : s.test = some .unlinkLast) :
    (code .unlinkLast).Leads faulty program x s fs Inv := by
  obtain ⟨n, htree⟩ := h.tree ht rfl
  have hp : Last (if s.mem.renames = 0 then firstName else s.mem.lastName) := by
    split
    · exact last_first
    · exact h.last
  obtain ⟨n', htree'⟩ : ∃ n', Tree false n' false
      (faulty.serve x (.unlink (if s.mem.renames = 0 then firstName else s.mem.lastName)) fs).2 := by
    rcases faulty_cases x (.unlink (if s.mem.renames = 0 then firstName else s.mem.lastName)) fs with
      ⟨expired, hserved⟩ | ⟨a, hserved, -⟩
    · rw [hserved]
      exact htree.unlink_last hp
    · rw [hserved]
      exact ⟨n, htree⟩
  exact Op.leads_expectCall rfl (h.goto_late (h.late _ ht rfl) rfl htree' rfl rfl)

theorem test_leads (h : Inv s fs) (ht : s.test = some t) : (code t).Leads faulty program x s fs Inv := by
  cases t with
  | mounted =>
    exact quiet_leads h ht (fun _ => rfl) rfl rfl (fun fs' hq _ hb => hb.congr hq.1 hq.2) fun _ _ => rfl
  | mkdir =>
    refine mkdir_leads h ht rfl rfl rfl fun fs' hr => ?_
    have hzero : Fs.Spine XFS_MNT top [] (Held none false) fs :=
      Fs.Spine.of_mkdir (h.early _ ht rfl).2 (congrArg Prod.fst hr) not_held_none
    obtain ⟨fs'', hr', hspine⟩ := hzero.mkdir (n := top) not_held_none (by rw [List.append_nil]; exact hzero.mount)
      (List.prefix_refl _)
    rw [List.append_nil] at hr'
    cases hr.symm.trans hr'
    exact hspine
  | addAction =>
    exact quiet_leads h ht (fun _ => rfl) rfl rfl (fun fs' hq _ hb => hb.congr_get hq.1 hq.2) fun _ _ => rfl
  | mkdirA =>
    exact mkdir_leads h ht rfl rfl rfl fun fs' hr => spine_mkdir (h.early _ ht rfl).2 (List.prefix_refl [top]) hr
  | mkdirB =>
    exact mkdir_leads h ht rfl rfl rfl fun fs' hr => spine_mkdir (h.early _ ht rfl).2 ⟨_, rfl⟩ hr
  | mkdirC =>
    exact mkdir_leads h ht rfl rfl rfl fun fs' hr => spine_mkdir (h.early _ ht rfl).2 ⟨_, rfl⟩ hr
  | mkdirDeep =>
    refine mkdir_leads h ht rfl rfl rfl fun fs' hr => ⟨?_, nofun⟩
    exact spine_mkdir (h.early _ ht rfl).2 ⟨_, rfl⟩ hr
  | kmalloc l => exact lookup_leads h |>.1 ht
  | kernPath l => exact (lookup_leads h).2.1 ht
  | dPath l => exact (lookup_leads h).2.2.1 ht
  | assertBelow l => exact (lookup_leads h).2.2.2.1 ht
  | assertSame l => exact (lookup_leads h).2.2.2.2 ht
  | start =>
    obtain ⟨hst, htree⟩ := h.early _ ht rfl
    have hq := faulty_quiet (c := .kthreadRun) rfl x fs
    refine Op.leads_start rfl ?_ (h.leave_early ht rfl rfl)
    have hnd : s.done 0 = false := Bool.eq_false_iff.2 fun hd => by cases hst.symm.trans (h.exit hd).1
    refine ⟨fun i hi => (State.of_spawn_started hi).elim id (h.only i), h.last, fun hd => ?_, fun u hu he => ?_,
      fun _ _ => ⟨none, htree.quiet hq, ?_⟩, fun _ _ _ => State.spawn_started .., fun u hu hl => ?_, fun hd => ?_⟩
    · cases hnd.symm.trans hd
    · cases hu
      cases he
    · rw [State.spawn_thread]
      rfl
    · cases hu
      cases hl
    · cases hnd.symm.trans hd
  | waitStarted =>
    have hq := faulty_quiet (c := .waitTimeout) rfl x fs
    show if _ then (if _ then _ else _) else _
    split
    · split
      · exact h.leave hq rfl
      · exact h.goto ht hq rfl rfl nofun rfl
    · exact h.quiet hq
  | assertErr => exact check_leads h ht rfl rfl nofun
  | loop i =>
    refine Op.leads_act (h.goto ht (Quiet.refl fs) ?_ ?_ nofun rfl)
    · split <;> rfl
    · split <;> rfl
  | setStop => exact Op.leads_act (h.goto ht (Quiet.refl fs) rfl rfl nofun rfl)
  | join =>
    refine Op.leads_wait (fun hd => ?_) h
    obtain ⟨moved, n, sib, htree, hat⟩ := h.stopped hd
    have hstage := hat _ ht
    cases hstage
    exact h.goto_late hd rfl htree rfl rfl
  | expectErr | expectRenames => exact check_leads h ht rfl rfl nofun
  | unlinkLast => exact unlinkLast_leads h ht
  | createSib =>
    refine change_leads h ht rfl rfl (fun _ _ => rfl) (fun n htree => ?_) fun _ _ => rfl
    obtain ⟨k, fs', hr, htree'⟩ := htree.create_sib
    exact ⟨_, fs', fun _ => congrArg answer hr, not_isErr k fs', htree'⟩
  | writeSib => exact quiet_leads h ht (fun _ => rfl) rfl rfl nofun fun _ _ => rfl
  | renameAncestor =>
    refine change_leads h ht rfl rfl (fun _ _ => rfl) (fun n htree => ?_) fun _ _ => rfl
    obtain ⟨fs', hr, htree'⟩ := htree.move
    exact ⟨_, fs', fun _ => congrArg answer hr, rfl, htree'⟩
  | expectGone =>
    exact Op.leads_expectCall rfl (h.goto ht (faulty_quiet rfl x fs) rfl rfl nofun rfl)
  | unlinkSib =>
    refine change_leads h ht rfl rfl (fun _ _ => rfl) (fun n htree => ?_) fun _ _ => rfl
    have hzero := (htree.spine.unlink (top_deep true) sib0).2.2 (Or.inr ⟨rfl, rfl⟩)
    have hr : fs.unlink (XFS_MNT ++ deep true ++ [sib0]) = (0, (fs.unlink (XFS_MNT ++ deep true ++ [sib0])).2) :=
      Prod.ext hzero rfl
    exact ⟨_, _, fun _ => congrArg answer hr, rfl, htree.unlink_sib⟩
  | renameBack =>
    refine change_leads h ht rfl rfl (fun _ _ => rfl) (fun n htree => ?_) fun _ _ => rfl
    obtain ⟨fs', hr, htree'⟩ := htree.move
    exact ⟨_, fs', fun _ => congrArg answer hr, rfl, htree'⟩
  | ret => exact h.leave (Quiet.refl fs) rfl

/-! ## Steps of the racer -/

theorem Inv.move (h : Inv s fs) (hst : s.started 0 = true) (hd : s.done 0 = false) {u : Racing}
    (htree : Tree false n false fs') (hracer : Racer u n) (hlast : Last m.lastName) : Inv (s.move 0 u m) fs' := by
  refine ⟨h.only, hlast, fun hdone => ?_, fun t ht he => ?_, fun _ _ => ⟨n, htree, ?_⟩, fun _ _ _ => hst, h.late,
    fun hdone => ?_⟩
  · cases hd.symm.trans hdone
  · cases (h.early t ht he).1.symm.trans hst
  · rw [State.move_thread]
    exact hracer
  · cases hd.symm.trans hdone

/-- Each step of the racer, with what it leads to. -/
theorem racer_safe (h : Inv s fs) (hst : s.started 0 = true) (hd : s.done 0 = false) :
    (renameChain (s.thread 0)).Safe faulty 0 x s fs Inv := by
  obtain ⟨n, htree, hracer⟩ := h.racing hst hd
  cases hu : s.thread 0 with
  | create =>
    rw [hu] at hracer
    cases show n = none from hracer
    obtain ⟨k, fs', hr, htree'⟩ := htree.create testfile_ne
    rcases faulty_cases x (.create firstName) fs with ⟨expired, hserved⟩ | ⟨a, hserved, ha⟩
    · have hserve : serve expired (.create firstName) fs = answer ((k : Int), fs') := congrArg answer hr
      rw [hserve] at hserved
      refine ThreadOp.safe_call hserved ?_
      rw [isErr_file]
      exact h.move hst hd htree' rfl h.last
    · have herr : a.isErr = true := by simpa [Call.succeeds] using ha
      refine ThreadOp.safe_call hserved ?_
      rw [herr]
      exact h.move hst hd htree trivial h.last
  | write =>
    rw [hu] at hracer
    have htree' := htree.quiet (faulty_quiet (c := .kernelWrite s.mem.racerFile [0x78] 0) rfl x fs)
    refine ThreadOp.safe_call rfl ?_
    split
    · exact h.move hst hd htree' hracer last_first
    · refine h.move hst hd htree' trivial ?_
      exact h.last
  | failed => exact h.move hst hd htree trivial h.last
  | announce =>
    rw [hu] at hracer
    exact h.move hst hd htree ⟨_, hracer, rfl⟩ h.last
  | head i cur =>
    rw [hu] at hracer
    show Inv (s.move 0 (if s.mem.stop then _ else _) s.mem) fs
    split
    · exact h.move hst hd htree trivial h.last
    · exact h.move hst hd htree hracer h.last
  | rename i cur =>
    rw [hu] at hracer
    obtain ⟨m, rfl, rfl⟩ := hracer
    obtain ⟨fs', hr, htree'⟩ := htree.rename (numbered_ne i)
    rcases faulty_cases x (.rename (G_DEEP ++ [m]) (chainName i)) fs with ⟨expired, hserved⟩ | ⟨a, hserved, ha⟩
    · have hserve : serve expired (.rename (G_DEEP ++ [m]) (chainName i)) fs = answer (0, fs') := congrArg answer hr
      rw [hserve] at hserved
      exact ThreadOp.safe_call hserved (h.move hst hd htree' ⟨_, rfl, rfl⟩ (Or.inr ⟨_, rfl, numbered_ne i⟩))
    · have hne : a.ret ≠ 0 := by simpa [Call.succeeds] using ha
      refine ThreadOp.safe_call hserved ?_
      rw [if_pos hne, if_pos hne]
      exact h.move hst hd htree trivial h.last
  | complete =>
    have hsig : (s.signal 0 .exit).done 0 = true := State.signal_done ..
    refine ⟨h.only, h.last, fun _ => ⟨hst, State.signal_thread ..⟩, h.early, fun _ hnd => ?_, h.started,
      fun _ _ _ => hsig, fun _ => ⟨false, n, false, htree, fun t ht => ?_⟩⟩
    · cases hsig.symm.trans hnd
    · apply stage_of_racing
      cases hera : era t with
      | early => cases (h.early t ht hera).1.symm.trans hst
      | racing => rfl
      | late => cases (h.late t ht hera).symm.trans hd
  | exit => exact h

theorem thread_leads (h : Inv s fs) {i : Nat} (hst : s.started i = true) :
    (program.work i (s.thread i)).Safe faulty i x s fs Inv := by
  cases h.only i hst
  cases hd : s.done 0 with
  | false => exact racer_safe h hst hd
  | true =>
    rw [(h.exit hd).2]
    exact h

/-! ## Runs -/

theorem Inv.init (h : fs.Tidy) : Inv program.init fs := by
  refine ⟨nofun, Or.inl rfl, nofun, fun t ht _ => ?_, nofun, fun t ht he => ?_, fun t ht hl => ?_, nofun⟩
  · cases ht
    exact ⟨rfl, h⟩
  · cases ht
    exact absurd rfl he
  · cases ht
    cases hl

/-- In every run, whatever its calls answer, the tree is as the racer's point and the test function's point say. -/
theorem run_inv (h : fs.Tidy) (is : List (Option Nat × Outcome)) :
    Inv (Runs.exec (program.stepIn faulty) (program.init, fs) is).1
      (Runs.exec (program.stepIn faulty) (program.init, fs) is).2 :=
  always (fun _ _ _ h => ⟨h.only, h.last, h.exit, h.early, h.racing, h.started, h.late, h.stopped⟩)
    (fun _ _ _ _ h ht => test_leads h ht) (fun _ _ _ _ h hst => thread_leads h hst) (Inv.init h) is

/-- After every run that is left once the racer has stopped, whatever its calls have answered, the clean-up removes the
whole tree exactly if the racer's file, if one is left, has no number or the number 1 and is in its place. -/
theorem removed_iff_findable {fs : Fs Text} (h : fs.Tidy) (is : List (Option Nat × Outcome))
    {r : Config × Fs Text} (hr : Runs.exec (program.stepIn faulty) (program.init, fs) is = r)
    (hdone : r.1.done 0 = true) : (g_remove_tree r.2).get G_ROOT = none ↔ Findable r.2 := by
  obtain ⟨moved, n, sib, htree, -⟩ := (run_inv h is).stopped (by rw [hr]; exact hdone)
  rw [hr] at htree
  rw [removed_iff htree, findable_iff htree]

/-- The racer is started and makes `n` renames; the next one fails, and with it the test function's check of the
racer. -/
def abortedAfter (n : Nat) : List (Option Nat × Outcome) :=
  List.replicate 13 (none, .served false) ++ List.replicate (2 * n + 4) (some 0, .served false) ++
    [(some 0, .answers { ret := - EIO }), (some 0, .served false), (none, .served false), (none, .served false)]

theorem removed_iff_findable_one : ∃ r : Config × Fs Text,
    Runs.exec (program.stepIn faulty) (program.init, mountedFs) (abortedAfter 1) = r ∧ r.1.test = none ∧
    r.1.mem.renames = 1 ∧ Findable r.2 := by
  refine ⟨_, rfl, by decide +kernel, by decide +kernel, ?_⟩
  exact (removed_iff_findable mountedFs_tidy_get.1 (abortedAfter 1) rfl (by decide +kernel)).1 (by decide +kernel)

/-- After two renames the file has the number 2, which is not looked for. -/
theorem two_renames_stay : ∃ r : Config × Fs Text,
    Runs.exec (program.stepIn faulty) (program.init, mountedFs) (abortedAfter 2) = r ∧ r.1.test = none ∧
    r.1.done 0 = true ∧ r.1.mem.renames = 2 ∧ (g_remove_tree r.2).get G_ROOT ≠ none := by
  refine ⟨_, rfl, ?_⟩
  decide +kernel

end NfsPlayground.Races.G028.Clean
