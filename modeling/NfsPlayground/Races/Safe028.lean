import NfsPlayground.Races.G028
import NfsPlayground.Races.World

/-!
# generic/028 on a conforming file system

What holds at each program point (`Body`, `Sched`) and of the racer's file (`Worked`) is kept by every step of the test
function (`test_safe`) and of the racer (`thread_safe`), if the step is friendly.
-/

namespace NfsPlayground.Races.G028

open Lines Posix Threads

abbrev Config : Type := State Point Racing Frame

/-! ## The tree -/

/-- An empty directory. -/
structure Empty (d : Path) (fs : Fs Text) : Prop where
  dir : fs.Dir d
  none : ∀ m t, fs.get (d ++ m :: t) = Option.none

/-- `a/b` has `m/d` in it, with files only, and not `n`. -/
structure Tree (m n : Text) (fs : Fs Text) : Prop where
  flat : fs.Flat (G_AB ++ [m] ++ [['d']])
  free : ∀ t, fs.get (G_AB ++ [n] ++ t) = none

def nameC : Text := ['c']
def nameC2 : Text := ['c', '2']

/-- There is a file at the path. -/
def IsFile (p : Path) (fs : Fs Text) : Prop := ∃ k, fs.get p = some (.file k)

variable {s : Config} {fs fs' : Fs Text}

theorem Empty.mkdir {d : Path} {n : Text} (h : Empty d fs) :
    ∃ fs', fs.mkdir (d ++ [n]) = (0, fs') ∧ Empty (d ++ [n]) fs' ∧ Fs.OnlyAt (d ++ [n]) fs fs' := by
  obtain ⟨fs', hr, hdir, ho⟩ := Fs.mkdir_new h.dir (h.none n [])
  refine ⟨fs', hr, ⟨hdir, fun m t => ?_⟩, ho⟩
  rw [ho.get _ (by simp), List.append_assoc, List.singleton_append]
  exact h.none n (m :: t)

/-- A change of one file of `m/d` leaves the tree as it is. -/
theorem Tree.only {m n x : Text} (h : Tree m n fs) (ho : Fs.OnlyAt (G_AB ++ [m] ++ [['d']] ++ [x]) fs fs')
    (hflat : fs'.Flat (G_AB ++ [m] ++ [['d']])) (hmn : m ≠ n) : Tree m n fs' := by
  refine ⟨hflat, fun t => (ho.get _ fun heq => hmn ?_).trans (h.free t)⟩
  simp only [List.append_assoc, List.append_cancel_left_eq, List.cons_append, List.nil_append, List.cons.injEq] at heq
  exact heq.1.symm

theorem Tree.rename {m n : Text} (h : Tree m n fs) (hmn : m ≠ n) :
    ∃ fs', fs.rename (G_AB ++ [m]) (G_AB ++ [n]) = (0, fs') ∧ Tree n m fs' ∧
      ∀ t, fs'.get (G_AB ++ [n] ++ t) = fs.get (G_AB ++ [m] ++ t) := by
  have hdir : fs.Dir (G_AB ++ [m]) := fun q hq => h.flat.dir q (hq.trans (List.prefix_append _ _))
  obtain ⟨fs', hr, hto, hfrom, hup, hnext⟩ := Fs.rename_dir hdir hmn h.free
  exact ⟨fs', hr, ⟨h.flat.of_rename hto hup hnext, hfrom⟩, hto⟩

theorem Tree.renamed {m n a b : Text} (h : Tree m n fs) (hr : Fs.Renamed (G_AB ++ [m] ++ [['d']]) a b fs fs')
    (hmn : m ≠ n) : Tree m n fs' := by
  have hnot : ∀ {x : Text} {t}, ¬ G_AB ++ [m] ++ [['d']] ++ [x] <+: G_AB ++ [n] ++ t := by
    intro x t hp
    simp only [List.append_assoc, List.prefix_append_right_inj, List.cons_append, List.nil_append,
      List.cons_prefix_cons] at hp
    exact hmn hp.1
  exact ⟨hr.flat, fun t => (hr.get _ hnot hnot).trans (h.free t)⟩

/-! ## The invariant -/

/-- The tree is as the lookup finds it. -/
def Lookup.Stands : Lookup → Fs Text → Prop
  | .initial, fs | .racing _, fs | .back, fs => Tree nameC nameC2 fs
  | .ancestor, fs | .child, fs => Tree nameC2 nameC fs ∧ IsFile (G_C2 ++ [['d'], sib0]) fs

/-- What holds of the frame and the file system at a program point. -/
def Body : Point → Frame → Fs Text → Prop
  | .mounted, _, fs | .mkdir, _, fs => Fresh G_ROOT fs
  | .addAction, _, fs | .mkdirA, _, fs => Empty G_ROOT fs
  | .mkdirB, _, fs => Empty (G_ROOT ++ [['a']]) fs
  | .mkdirC, _, fs => Empty G_AB fs
  | .mkdirDeep, _, fs => Empty G_C fs ∧ ∀ t, fs.get (G_C2 ++ t) = none
  | .kmalloc l, _, fs | .kernPath l, _, fs => l.Stands fs
  | .dPath l, m, fs => l.Stands fs ∧ fs.refs[m.p]? = some l.lookup
  | .assertBelow l, m, fs | .assertSame l, m, fs => l.Stands fs ∧ m.rendered = PyText.joined l.lookup
  | .writeSib, m, fs => Tree nameC nameC2 fs ∧ IsFile (G_DEEP ++ [sib0]) fs ∧ m.f.toNat < fs.next
  | .renameAncestor, _, fs => Tree nameC nameC2 fs ∧ IsFile (G_DEEP ++ [sib0]) fs
  | .expectGone, _, fs | .unlinkSib, _, fs => Tree nameC2 nameC fs ∧ IsFile (G_C2 ++ [['d'], sib0]) fs
  | .renameBack, _, fs => Tree nameC2 nameC fs
  | .ret, _, _ => True
  | _, _, fs => Tree nameC nameC2 fs

/-- The racer has not been started. -/
def Early (s : Config) : Prop := s.started 0 = false ∧ s.done 0 = false

/-- The racer has renamed, or is past its test of the stop flag. -/
def Renaming (s : Config) : Prop := 0 < s.mem.renames ∨ ∃ i cur, s.thread 0 = .rename i cur

def Lookup.Sched : Lookup → Config → Prop
  | .initial, s => Early s
  | .racing _, _ => True
  | .ancestor, s | .child, s | .back, s => s.thread 0 = .exit

/-- What holds of the racer at a program point. -/
def Sched : Point → Config → Prop
  | .mounted, s | .mkdir, s | .addAction, s | .mkdirA, s | .mkdirB, s | .mkdirC, s | .mkdirDeep, s
  | .start, s => Early s
  | .kmalloc l, s | .kernPath l, s | .dPath l, s | .assertBelow l, s | .assertSame l, s => l.Sched s
  | .waitStarted, _ | .assertErr, _ | .loop _, _ | .setStop, _ => True
  | .join, s => s.mem.stop = true ∧ Renaming s
  | .expectErr, s | .expectRenames, s => s.thread 0 = .exit ∧ 0 < s.mem.renames
  | _, s => s.thread 0 = .exit

/-- The racer's file, where the racer is. -/
def Worked : Racing → Frame → Fs Text → Prop
  | .create, _, _ | .complete, _, _ | .exit, _, _ => True
  | .write, m, fs => IsFile firstName fs ∧ m.racerFile.toNat < fs.next
  | .failed, _, _ => False
  | .announce, _, fs => IsFile firstName fs
  | .head _ cur, _, fs | .rename _ cur, _, fs => ∃ n, cur = G_DEEP ++ [n] ∧ IsFile cur fs

structure Inv (s : Config) (fs : Fs Text) : Prop where
  only : ∀ i, s.started i = true → i = 0
  err : s.mem.err = 0
  last : 0 < s.mem.renames → ∃ n, s.mem.lastName = G_DEEP ++ [n]
  exit : s.done 0 = true → s.thread 0 = .exit
  tree : s.started 0 = true → s.thread 0 ≠ .exit → Tree nameC nameC2 fs
  work : s.started 0 = true → Worked (s.thread 0) s.mem fs
  body : ∀ t, s.test = some t → Body t s.mem fs
  sched : ∀ t, s.test = some t → Sched t s

/-- The wait for the start does not time out. When the stop flag is set the racer has renamed its file, or is past its
test of the flag; and then its counter does not wrap any more. -/
def Friendly (x : Config × Fs Text) (i : Option Nat × Bool) : Prop :=
  (i.1 = none → x.1.test = some .waitStarted → i.2 = true → x.1.mem.started = true) ∧
    (i.1 = none → x.1.test = some .setStop → Renaming x.1) ∧
    (i.1 = some 0 → x.1.mem.stop = true → x.1.mem.renames + 1 < 2 ^ 64)

instance (s : Config) : Decidable (Renaming s) :=
  match h : s.thread 0 with
  | .rename i cur => isTrue (Or.inr ⟨i, cur, h⟩)
  | .create | .write | .failed | .announce | .head _ _ | .complete | .exit =>
    decidable_of_iff (0 < s.mem.renames) (by simp [Renaming, h])

instance (x : Config × Fs Text) (i : Option Nat × Bool) : Decidable (Friendly x i) :=
  inferInstanceAs (Decidable (_ ∧ _ ∧ _))

/-! ## The test function -/

/-- The test function moves on while the racer does not run. -/
theorem Inv.alone (h : Inv s fs) {t : Point} {m : Frame} (halone : Early s ∨ s.thread 0 = .exit)
    (herr : m.err = s.mem.err) (hrenames : m.renames = s.mem.renames) (hlast : m.lastName = s.mem.lastName)
    (hbody : Body t m fs') (hsched : Sched t (s.goto t m)) : Inv (s.goto t m) fs' := by
  refine ⟨h.only, herr.trans h.err, fun hpos => ?_, h.exit, fun hst hne => ?_, fun hst => ?_, fun u hu => ?_,
    fun u hu => ?_⟩
  · obtain ⟨n, hn⟩ := h.last (hrenames ▸ hpos)
    exact ⟨n, hlast.trans hn⟩
  · rcases halone with he | he
    · cases he.1.symm.trans hst
    · exact absurd he hne
  · rcases halone with he | he
    · cases he.1.symm.trans hst
    · rw [show (s.goto t m).thread 0 = .exit from he]
      trivial
  · cases hu
    exact hbody
  · cases hu
    exact hsched

/-- The test function moves on, and the tree stays. -/
theorem Inv.goto (h : Inv s fs) {t : Point} {m : Frame} {rs : List Path} (herr : m.err = s.mem.err)
    (hrenames : m.renames = s.mem.renames) (hlast : m.lastName = s.mem.lastName)
    (hfile : m.racerFile = s.mem.racerFile) (hbody : Body t m { fs with refs := rs }) (hsched : Sched t (s.goto t m)) :
    Inv (s.goto t m) { fs with refs := rs } := by
  refine ⟨h.only, herr.trans h.err, fun hpos => ?_, h.exit, fun hst hne => ?_, fun hst => ?_, fun u hu => ?_,
    fun u hu => ?_⟩
  · obtain ⟨n, hn⟩ := h.last (hrenames ▸ hpos)
    exact ⟨n, hlast.trans hn⟩
  · exact ⟨⟨(h.tree hst hne).flat.dir, (h.tree hst hne).flat.files⟩, (h.tree hst hne).free⟩
  · have hwork := h.work hst
    show Worked (s.thread 0) m _
    cases hpoint : s.thread 0 with
    | write =>
      rw [hpoint] at hwork
      exact ⟨hwork.1, hfile ▸ hwork.2⟩
    | _ =>
      rw [hpoint] at hwork
      exact hwork
  · cases hu
    exact hbody
  · cases hu
    exact hsched

theorem Lookup.Stands.refs {l : Lookup} (h : l.Stands fs) (rs : List Path) : l.Stands { fs with refs := rs } := by
  cases l with
  | initial | racing | back => exact ⟨⟨h.flat.dir, h.flat.files⟩, h.free⟩
  | ancestor | child => exact ⟨⟨⟨h.1.flat.dir, h.1.flat.files⟩, h.1.free⟩, h.2⟩

theorem Lookup.Stands.lookup {l : Lookup} (h : l.Stands fs) :
    fs.lookup l.lookup = (0, fs.refs.length, { fs with refs := fs.refs ++ [l.lookup] }) := by
  have hup : ∀ {m : Text}, fs.Flat (G_AB ++ [m] ++ [['d']]) → fs.Dir (G_AB ++ [m]) :=
    fun hf q hq => hf.dir q (hq.trans (List.prefix_append _ _))
  cases l with
  | initial | racing | back => exact Fs.lookup_of_get (hup h.flat) (h.flat.dir _ (List.prefix_refl _))
  | ancestor => exact Fs.lookup_of_get (hup h.1.flat) (h.1.flat.dir _ (List.prefix_refl _))
  | child =>
    obtain ⟨k, hk⟩ := h.2
    exact Fs.lookup_of_get h.1.flat.dir hk

theorem Lookup.canon (l : Lookup) : canon l.lookup = l.lookup := by
  cases l <;> rfl

theorem Lookup.not_root (l : Lookup) : (PyText.joined l.lookup != ['/']) = true := by
  cases l <;> rfl

/-- After `g_expect_path()` the tree is as it was before. -/
theorem Lookup.body_next {l : Lookup} {m : Frame} (h : l.Stands fs) : Body l.next m fs := by
  cases l with
  | back => trivial
  | _ => exact h

theorem Lookup.sched_next {l : Lookup} (h : l.Sched s) : G028.Sched l.next s := by
  cases l <;> exact h

/-- The steps of `g_expect_path()` touch nothing the racer uses. -/
theorem Lookup.sched_goto {l : Lookup} {t : Point} {m : Frame} (h : l.Sched s) : l.Sched (s.goto t m) := by
  cases l <;> exact h

theorem sched_goto_next {l : Lookup} {t : Point} {m : Frame} (h : l.Sched s) : Sched l.next (s.goto t m) :=
  Lookup.sched_next (Lookup.sched_goto h)

theorem test_safe {x : Bool} {t : Point} (h : Inv s fs) (hg : Friendly (s, fs) (none, x)) (ht : s.test = some t) :
    (code t).Safe world program x s fs Inv := by
  have hb := h.body t ht
  have hs := h.sched t ht
  cases t with
  | mounted | addAction => exact Op.safe_assert rfl rfl (h.goto rfl rfl rfl rfl hb hs)
  | mkdir =>
    obtain ⟨fs', hr, hdir, hnone⟩ := Fresh.mkdir hb
    exact Op.safe_assert (congrArg answer hr) rfl (h.alone (Or.inl hs) rfl rfl rfl ⟨hdir, hnone⟩ hs)
  | mkdirA | mkdirB =>
    obtain ⟨fs', hr, hempty, -⟩ := Empty.mkdir hb
    exact Op.safe_assert (congrArg answer hr) rfl (h.alone (Or.inl hs) rfl rfl rfl hempty hs)
  | mkdirC =>
    obtain ⟨fs', hr, hempty, ho⟩ := Empty.mkdir hb
    refine Op.safe_assert (congrArg answer hr) rfl (h.alone (Or.inl hs) rfl rfl rfl ⟨hempty, fun t => ?_⟩ hs)
    exact (ho.get _ (by simp [G_C2])).trans (hb.none _ t)
  | mkdirDeep =>
    obtain ⟨fs', hr, hempty, ho⟩ := Empty.mkdir hb.1
    refine Op.safe_assert (congrArg answer hr) rfl
      (h.alone (Or.inl hs) rfl rfl rfl ⟨Fs.Flat.of_new hempty.dir hempty.none, fun t => ?_⟩ hs)
    exact (ho.get _ (by simp [G_C, nameC2])).trans (hb.2 t)
  | kmalloc l => exact Op.safe_assert rfl rfl (h.goto rfl rfl rfl rfl hb (Lookup.sched_goto hs))
  | kernPath l =>
    have hr : fs.lookup (canon l.lookup) = (0, fs.refs.length, { fs with refs := fs.refs ++ [l.lookup] }) := by
      rw [l.canon]
      exact hb.lookup
    refine Op.safe_assertStore (serve_kernPath hr) rfl ?_
    exact h.goto rfl rfl rfl rfl ⟨hb.refs _, List.getElem?_concat_length⟩ (Lookup.sched_goto hs)
  | dPath l =>
    exact Op.safe_assertStore (serve_dPath hb.2) rfl (h.goto rfl rfl rfl rfl ⟨hb.1, rfl⟩ (Lookup.sched_goto hs))
  | assertBelow l =>
    refine Op.safe_check ?_ (h.goto rfl rfl rfl rfl hb (Lookup.sched_goto hs))
    rw [hb.2]
    exact l.not_root
  | assertSame l =>
    exact Op.safe_check (beq_iff_eq.2 hb.2) (h.goto rfl rfl rfl rfl (Lookup.body_next hb.1) (sched_goto_next hs))
  | start =>
    refine Op.safe_start rfl rfl ⟨fun i hi => ?_, h.err, h.last, fun hd => ?_, fun _ _ => hb, fun _ => ?_,
      fun u hu => ?_, fun u hu => ?_⟩
    · exact (State.of_spawn_started hi).elim id (h.only i)
    · cases hs.2.symm.trans hd
    · rw [State.spawn_thread]
      trivial
    · cases hu
      exact hb
    · cases hu
      trivial
  | waitStarted =>
    show if (s.mem.started || (answer (if x then 0 else 1, fs)).1.ret == 0) = true then
      s.mem.started = true ∧ Inv (s.goto .assertErr s.mem) fs else Inv s fs
    by_cases hstarted : s.mem.started = true
    · rw [hstarted]
      exact ⟨rfl, h.goto rfl rfl rfl rfl hb trivial⟩
    · cases x with
      | true => exact absurd (hg.1 rfl ht rfl) hstarted
      | false =>
        have hfalse : s.mem.started = false := Bool.eq_false_iff.2 hstarted
        rw [hfalse]
        exact h
  | assertErr => exact Op.safe_check (beq_iff_eq.2 h.err) (h.goto rfl rfl rfl rfl hb trivial)
  | loop i =>
    refine Op.safe_act ?_
    split
    · exact h.goto rfl rfl rfl rfl hb trivial
    · exact h.goto rfl rfl rfl rfl hb trivial
  | setStop => exact Op.safe_act (h.goto rfl rfl rfl rfl hb ⟨rfl, hg.2.1 rfl ht⟩)
  | join =>
    refine Op.safe_wait (fun hd => h.goto rfl rfl rfl rfl hb ⟨h.exit hd, hs.2.resolve_right fun ⟨i, cur, hr⟩ => ?_⟩) h
    cases (h.exit hd).symm.trans hr
  | expectErr => exact Op.safe_check (beq_iff_eq.2 h.err) (h.goto rfl rfl rfl rfl hb hs)
  | expectRenames => exact Op.safe_check (decide_eq_true hs.2) (h.goto rfl rfl rfl rfl hb hs.1)
  | unlinkLast =>
    have hpath : ∃ n, (if s.mem.renames = 0 then firstName else s.mem.lastName) = G_DEEP ++ [n] := by
      split
      · exact ⟨getcwdTestfile, rfl⟩
      · exact h.last (Nat.pos_of_ne_zero ‹_›)
    obtain ⟨n, hn⟩ := hpath
    obtain ⟨fs', hr, hflat, ho, -⟩ := Fs.unlink_flat hb.flat n
    have hserve : ∃ r, world.serve x (.unlink (if s.mem.renames = 0 then firstName else s.mem.lastName)) fs =
        (r, fs') := by
      rw [hn]
      exact ⟨_, congrArg answer hr⟩
    obtain ⟨r, hserve⟩ := hserve
    exact Op.safe_expectCall hserve rfl (h.alone (Or.inr hs) rfl rfl rfl (hb.only ho hflat (by decide)) hs)
  | createSib =>
    obtain ⟨k, fs', hr, hflat, ho, hfile, hk, -⟩ := Fs.create_flat hb.flat sib0
    refine Op.safe_assertStore (congrArg answer hr) (not_isErr k fs') ?_
    exact h.alone (Or.inr hs) rfl rfl rfl ⟨hb.only ho hflat (by decide), ⟨k, hfile⟩, hk⟩ hs
  | writeSib =>
    obtain ⟨htree, ⟨k, hk⟩, hlt⟩ := hb
    obtain ⟨fs', hr, hflat, ho⟩ := serve_kernelWrite hlt
    refine Op.safe_assert hr rfl ?_
    refine h.alone (Or.inr hs) rfl rfl rfl ⟨htree.only (x := sib0) (ho _) (hflat _ htree.flat) (by decide), k, ?_⟩ hs
    exact ((ho []).get _ (by decide)).trans hk
  | renameAncestor =>
    obtain ⟨htree, k, hk⟩ := hb
    obtain ⟨fs', hr, htree', hto⟩ := htree.rename (by decide)
    exact Op.safe_assert (congrArg answer hr) rfl (h.alone (Or.inr hs) rfl rfl rfl ⟨htree', k, (hto _).trans hk⟩ hs)
  | expectGone => exact Op.safe_expectCall (serve_exists (hb.1.free [['d']])) rfl (h.goto rfl rfl rfl rfl hb hs)
  | unlinkSib =>
    obtain ⟨htree, k, hk⟩ := hb
    obtain ⟨fs', hr, hflat, ho, -⟩ := Fs.unlink_file htree.flat hk
    exact Op.safe_assert (congrArg answer hr) rfl
      (h.alone (Or.inr hs) rfl rfl rfl (htree.only ho hflat (by decide)) hs)
  | renameBack =>
    obtain ⟨fs', hr, htree', -⟩ := Tree.rename hb (by decide)
    exact Op.safe_assert (congrArg answer hr) rfl (h.alone (Or.inr hs) rfl rfl rfl htree' hs)
  | ret =>
    refine ⟨h.only, h.err, h.last, h.exit, h.tree, h.work, fun u hu => ?_, fun u hu => ?_⟩
    · cases hu
    · cases hu

/-! ## The racer -/

/-- A change of one file of the directory the paths are looked up in. -/
theorem Lookup.Stands.racing {l : Lookup} (h : l.Stands fs) (hl : l.Sched s) (hst : s.started 0 = true)
    (hne : s.thread 0 ≠ .exit) (htree : Tree nameC nameC2 fs') : l.Stands fs' := by
  cases l with
  | initial => cases hl.1.symm.trans hst
  | racing => exact htree
  | ancestor | child | back => exact absurd hl hne

/-- The racer moves on; of the frame it changes its struct, and of the tree its file. -/
theorem Inv.move (h : Inv s fs) {u : Racing} {m : Frame} (hst : s.started 0 = true) (hne : s.thread 0 ≠ .exit)
    (htree : Tree nameC nameC2 fs') (hrefs : ∀ i : Nat, fs.refs[i]? = some G_DEEP → fs'.refs[i]? = some G_DEEP)
    (hwork : Worked u m fs') (herr : m.err = 0) (hlast : 0 < m.renames → ∃ n, m.lastName = G_DEEP ++ [n])
    (hp : m.p = s.mem.p) (hrendered : m.rendered = s.mem.rendered) (hstop : m.stop = s.mem.stop)
    (hrenaming : s.mem.stop = true → Renaming s → 0 < m.renames ∨ ∃ i cur, u = .rename i cur) :
    Inv (s.move 0 u m) fs' := by
  refine ⟨h.only, herr, hlast, fun hd => absurd (h.exit hd) hne, fun _ _ => htree, fun _ => ?_, fun t ht => ?_,
    fun t ht => ?_⟩
  · rw [State.move_thread]
    exact hwork
  · have hb := h.body t ht
    have hs := h.sched t ht
    cases t with
    | mounted | mkdir | addAction | mkdirA | mkdirB | mkdirC | mkdirDeep | start => cases hs.1.symm.trans hst
    | kmalloc l | kernPath l => exact hb.racing hs hst hne htree
    | dPath l =>
      refine ⟨hb.1.racing hs hst hne htree, ?_⟩
      cases l with
      | initial => cases hs.1.symm.trans hst
      | racing => exact hp ▸ hrefs _ hb.2
      | ancestor | child | back => exact absurd hs hne
    | assertBelow l | assertSame l => exact ⟨hb.1.racing hs hst hne htree, hrendered.trans hb.2⟩
    | waitStarted | assertErr | loop | setStop | join => exact htree
    | expectErr | expectRenames => exact absurd hs.1 hne
    | _ => exact absurd hs hne
  · have hs := h.sched t ht
    cases t with
    | mounted | mkdir | addAction | mkdirA | mkdirB | mkdirC | mkdirDeep | start => cases hs.1.symm.trans hst
    | kmalloc l | kernPath l | dPath l | assertBelow l | assertSame l =>
      cases l with
      | initial => cases hs.1.symm.trans hst
      | racing => trivial
      | ancestor | child | back => exact absurd hs hne
    | waitStarted | assertErr | loop | setStop => trivial
    | join =>
      refine ⟨hstop.trans hs.1, (hrenaming hs.1 hs.2).imp (fun hpos => hpos) fun ⟨i, cur, hu⟩ => ⟨i, cur, ?_⟩⟩
      rw [State.move_thread]
      exact hu
    | expectErr | expectRenames => exact absurd hs.1 hne
    | _ => exact absurd hs hne

/-- Only the racer's file is changed. -/
theorem Inv.only_refs {p : Path} (ho : Fs.OnlyAt p fs fs') (i : Nat) (h : fs.refs[i]? = some G_DEEP) :
    fs'.refs[i]? = some G_DEEP := by
  rw [ho.refs]
  exact h

theorem thread_safe {x : Bool} {i : Nat} (h : Inv s fs) (hg : Friendly (s, fs) (some i, x)) (hst : s.started i = true) :
    (renameChain (s.thread i)).Safe world i x s fs Inv := by
  obtain rfl := h.only i hst
  have hwork := h.work hst
  cases hpoint : s.thread 0 with
  | create =>
    have hne : s.thread 0 ≠ .exit := by simp [hpoint]
    have htree := h.tree hst hne
    obtain ⟨k, fs', hr, hflat, ho, hfile, hk, -⟩ := Fs.create_flat htree.flat getcwdTestfile
    refine ThreadOp.safe_call (congrArg answer hr) ?_
    rw [isErr_file]
    refine h.move hst hne (htree.only ho hflat (by decide)) (Inv.only_refs ho) ⟨⟨k, hfile⟩, hk⟩ h.err h.last rfl rfl rfl
      fun _ hr => Or.inl (hr.resolve_right fun ⟨i, cur, hc⟩ => ?_)
    cases hpoint.symm.trans hc
  | write =>
    have hne : s.thread 0 ≠ .exit := by simp [hpoint]
    have htree := h.tree hst hne
    rw [hpoint] at hwork
    obtain ⟨⟨k, hk⟩, hlt⟩ := hwork
    obtain ⟨fs', hr, hflat, ho⟩ := serve_kernelWrite hlt
    refine ThreadOp.safe_call hr ?_
    refine h.move hst hne (htree.only (x := sib0) (ho _) (hflat _ htree.flat) (by decide))
      (Inv.only_refs (ho [])) ?_ h.err ?_ rfl rfl rfl fun _ hr => Or.inl (hr.resolve_right fun ⟨i, cur, hc⟩ => ?_)
    · exact ⟨k, ((ho []).get _ (by decide)).trans hk⟩
    · exact fun _ => ⟨getcwdTestfile, rfl⟩
    · cases hpoint.symm.trans hc
  | failed =>
    rw [hpoint] at hwork
    exact hwork.elim
  | announce =>
    have hne : s.thread 0 ≠ .exit := by simp [hpoint]
    rw [hpoint] at hwork
    refine h.move hst hne (h.tree hst hne) (fun _ h => h) ⟨getcwdTestfile, rfl, hwork⟩ h.err h.last rfl rfl rfl
      fun _ hr => Or.inl (hr.resolve_right fun ⟨i, cur, hc⟩ => ?_)
    cases hpoint.symm.trans hc
  | head i cur =>
    have hne : s.thread 0 ≠ .exit := by simp [hpoint]
    rw [hpoint] at hwork
    refine h.move hst hne (h.tree hst hne) (fun _ h => h) ?_ h.err h.last rfl rfl rfl
      fun _ hr => Or.inl (hr.resolve_right fun ⟨i, cur, hc⟩ => ?_)
    · show Worked (if s.mem.stop then .complete else .rename (incr i) cur) s.mem fs
      split
      · trivial
      · exact hwork
    · cases hpoint.symm.trans hc
  | rename i cur =>
    have hne : s.thread 0 ≠ .exit := by simp [hpoint]
    have htree := h.tree hst hne
    rw [hpoint] at hwork
    obtain ⟨n, rfl, k, hk⟩ := hwork
    obtain ⟨fs', hr, hren⟩ := Fs.rename_flat (n := getcwdTestfile ++ decimal i) htree.flat hk
    refine ThreadOp.safe_call (congrArg answer hr) ?_
    refine h.move hst hne (htree.renamed hren (by decide)) (fun j hj => hren.refs j _ hj ?_) ⟨_, rfl, hren.file⟩ h.err
      (fun _ => ⟨_, rfl⟩) rfl rfl rfl fun hstop _ => Or.inl ?_
    · exact fun hp => absurd hp.length_le (by simp [G_DEEP, G_C, nameC])
    · show 0 < incr s.mem.renames
      rw [incr, Nat.mod_eq_of_lt (hg.2.2 rfl hstop)]
      exact Nat.succ_pos _
  | complete =>
    refine ⟨h.only, h.err, h.last, fun _ => State.signal_thread .., fun _ hne => ?_, fun _ => ?_, h.body,
      fun t ht => ?_⟩
    · exact absurd (State.signal_thread ..) hne
    · rw [State.signal_thread]
      trivial
    · have hs := h.sched t ht
      cases t with
      | mounted | mkdir | addAction | mkdirA | mkdirB | mkdirC | mkdirDeep | start => cases hs.1.symm.trans hst
      | kmalloc l | kernPath l | dPath l | assertBelow l | assertSame l =>
        cases l with
        | initial => cases hs.1.symm.trans hst
        | racing => trivial
        | ancestor | child | back => cases hpoint.symm.trans hs
      | waitStarted | assertErr | loop | setStop => trivial
      | join => exact ⟨hs.1, Or.inl (hs.2.resolve_right fun ⟨i, cur, hc⟩ => by cases hpoint.symm.trans hc)⟩
      | expectErr | expectRenames => cases hpoint.symm.trans hs.1
      | _ => cases hpoint.symm.trans hs
  | exit => exact h

theorem init_inv (hfresh : Fresh G_ROOT fs) : Inv program.init fs := by
  refine ⟨fun id hid => ?_, rfl, fun hpos => ?_, fun hd => ?_, fun hst => ?_, fun hst => ?_, fun t ht => ?_,
    fun t ht => ?_⟩
  · cases hid
  · cases hpos
  · cases hd
  · cases hst
  · cases hst
  · cases ht
    exact hfresh
  · cases ht
    exact ⟨rfl, rfl⟩

/-- No friendly run on a conforming file system fails a check. -/
theorem passes (hfresh : Fresh G_ROOT fs) {is : List (Option Nat × Bool)}
    (h : Runs.Along (program.stepIn world) Friendly (program.init, fs) is) (n : Nat) :
    (Runs.exec (program.stepIn world) (program.init, fs) (is.take n)).1.failed = false :=
  never_fails (fun _ _ _ _ hinv hg ht => test_safe hinv hg ht) (fun _ _ _ _ hinv hg hst => thread_safe hinv hg hst)
    (init_inv hfresh) h n

/-! ## The stop flag is set -/

/-- How many steps the test function has to make from the point on where it knows that the racer has started, until it
has set the flag. -/
def ahead : Point → Option Nat
  | .assertErr => some (6 * G028_READS + 3)
  | .loop i => some (6 * (G028_READS - i) + 2)
  | .kmalloc (.racing i) => some (6 * (G028_READS - (i + 1)) + 7)
  | .kernPath (.racing i) => some (6 * (G028_READS - (i + 1)) + 6)
  | .dPath (.racing i) => some (6 * (G028_READS - (i + 1)) + 5)
  | .assertBelow (.racing i) => some (6 * (G028_READS - (i + 1)) + 4)
  | .assertSame (.racing i) => some (6 * (G028_READS - (i + 1)) + 3)
  | .setStop => some 1
  | .join => some 0
  | _ => none

theorem ahead_goes (t : Point) (n : Nat) (h : ahead t = some (n + 1)) : (code t).Goes fun t' => ahead t' = some n := by
  cases t with
  | assertErr | setStop =>
    rw [ahead, Option.some.injEq] at h
    refine ⟨fun _ _ => rfl, fun _ _ _ => congrArg some ?_⟩
    omega
  | loop i =>
    rw [ahead, Option.some.injEq] at h
    refine ⟨fun _ _ => rfl, fun _ _ _ => ?_⟩
    show ahead (if i < G028_READS then .kmalloc (.racing i) else .setStop) = some n
    split
    · refine congrArg some ?_
      omega
    · refine congrArg some ?_
      omega
  | kmalloc l | kernPath l | dPath l | assertBelow l | assertSame l =>
    cases l with
    | racing i =>
      rw [ahead, Option.some.injEq] at h
      refine ⟨fun _ _ => rfl, fun _ _ _ => congrArg some ?_⟩
      omega
    | _ => cases h
  | _ => cases h

/-- In a friendly run the test function gets its steps once the racer has started, and sets the flag. -/
theorem stops (hfresh : Fresh G_ROOT fs) {is js : List (Option Nat × Bool)}
    (h : Runs.Along (program.stepIn world) Friendly (program.init, fs) (is ++ js))
    (hstarted : (Runs.exec (program.stepIn world) (program.init, fs) is).1.test = some .assertErr)
    (hsteps : js.countP (·.1.isNone) = 6 * G028_READS + 3) :
    (Runs.exec (program.stepIn world) (program.init, fs) (is ++ js)).1.mem.stop = true := by
  have htest : ∀ s e x t, Inv s e → Friendly (s, e) (none, x) → s.test = some t →
      (code t).Safe world program x s e Inv :=
    fun _ _ _ _ hinv hg ht => test_safe hinv hg ht
  have hthread : ∀ s e x i, Inv s e → Friendly (s, e) (some i, x) → s.started i = true →
      (renameChain (s.thread i)).Safe world i x s e Inv := fun _ _ _ _ hinv hg hst => thread_safe hinv hg hst
  obtain ⟨hbefore, hafter⟩ := (Runs.along_append ..).1 h
  have hinv := Runs.exec_inv (stepIn_safe htest hthread) is ⟨init_inv hfresh, rfl⟩ hbefore
  rw [Runs.exec_append]
  obtain ⟨t, ht, hzero⟩ := reaches htest hthread ahead_goes (k := 0) hinv hafter hstarted
    (by rw [hsteps, Nat.zero_add]; rfl)
  obtain ⟨hinv', -⟩ := Runs.exec_inv (stepIn_safe htest hthread) js hinv hafter
  have hsched := hinv'.sched t ht
  cases t with
  | join => exact hsched.1
  | kmalloc l | kernPath l | dPath l | assertBelow l | assertSame l => cases l <;> simp [ahead] at hzero
  | _ => simp [ahead] at hzero

theorem code_counts (t : Point) : (code t).Stores (Counts Frame.renames) := by
  cases t with
  | start | join | ret => trivial
  | _ => exact fun _ _ => Or.inl rfl

theorem work_counts (i : Nat) (u : Racing) : (program.work i u).Stores (Counts Frame.renames) := by
  cases u with
  | create | write => exact fun _ _ => counts_ite (Or.inl rfl) (Or.inl rfl)
  | failed | announce | head => exact fun _ _ => Or.inl rfl
  | rename i cur => exact fun _ _ => counts_ite (Or.inl rfl) (Or.inr rfl)
  | complete | exit => trivial

/-- Once the racer has renamed its file every run is friendly that is not too long. -/
theorem friendly_of_renamed {y : Config × Fs Text} {is : List (Option Nat × Bool)} (hx : ∀ i ∈ is, i.2 = false)
    (hpos : 0 < y.1.mem.renames) (hlt : y.1.mem.renames + is.length < 2 ^ 64) :
    Runs.Along (program.stepIn world) Friendly y is := by
  refine along_of_counting (P := fun i => i.2 = false) code_counts work_counts
    (fun _ i hi hpos hlt => ⟨fun _ _ htrue => ?_, fun _ _ => Or.inl hpos, fun _ _ => hlt⟩) hx hpos hlt
  cases hi.symm.trans htrue

end NfsPlayground.Races.G028
