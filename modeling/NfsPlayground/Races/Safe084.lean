import NfsPlayground.Races.G084
import NfsPlayground.Races.World

/-!
# generic/084 on a conforming file system

What holds at each program point (`Body`, `Sched`) and of the names of each storm (`Worked`) is kept by every step of
the test function (`test_safe`) and of a storm (`thread_safe`), if the step is friendly.
-/

namespace NfsPlayground.Races.G084

open Lines Posix Threads

abbrev Config : Type := State Point Storming Frame

/-! ## The names -/

theorem linkName_inj : ∀ id < G084_STORMS, ∀ i < 8, ∀ j < 8, linkName id i = linkName id j → i = j := by decide

theorem linkName_zero_ne_one : ∀ i < 8, ∀ j < 8, linkName 0 i ≠ linkName 1 j := by decide

/-- Two storms have no name in common. -/
theorem linkName_ne {id id' i j : Nat} (h : id < G084_STORMS) (h' : id' < G084_STORMS) (hne : id ≠ id') (hi : i < 8)
    (hj : j < 8) : linkName id i ≠ linkName id' j := by
  unfold G084_STORMS at h h'
  have hcases : id = 0 ∧ id' = 1 ∨ id = 1 ∧ id' = 0 := by omega
  rcases hcases with ⟨rfl, rfl⟩ | ⟨rfl, rfl⟩
  · exact linkName_zero_ne_one i hi j hj
  · exact (linkName_zero_ne_one j hj i hi).symm

theorem linkName_ne_src (id i : Nat) : linkName id i ≠ G084_SRC := by
  simp [linkName, G084_SRC]

theorem linkName_ne_unlinked (id i j : Nat) : linkName id i ≠ unlinkedName j := by
  simp [linkName, unlinkedName]

/-! ## The invariant -/

/-- There is a file at the path. -/
def IsFile (p : Path) (fs : Fs Text) : Prop := ∃ k, fs.get p = some (.file k)

/-- The file is there, and is open for the bytes to be written. -/
structure Created (p : Path) (f : Int) (fs : Fs Text) : Prop where
  flat : fs.Flat G084_ROOT
  file : IsFile p fs
  lt : f.toNat < fs.next

/-- What holds of the frame and the file system at a program point. -/
def Body : Point → Frame → Fs Text → Prop
  | .mounted, _, fs | .mkdir, _, fs => Fresh G084_ROOT fs
  | .addAction, _, fs | .create _, _, fs | .createSrc, _, fs | .recreate _, _, fs => fs.Flat G084_ROOT
  | .write i, m, fs => Created (unlinkedName i) m.f fs
  | .openFile i, _, fs | .unlink i, _, fs => fs.Flat G084_ROOT ∧ IsFile (unlinkedName i) fs
  | .writeSrc, m, fs | .rewrite _, m, fs => Created G084_SRC m.f fs
  | .start _, _, fs | .remove _, _, fs | .setStop, _, fs | .join _, _, fs | .expectErr _, _, fs
  | .expectLinks _, _, fs => fs.Flat G084_ROOT ∧ IsFile G084_SRC fs
  | .close _, _, _ | .ret, _, _ => True

/-- The storm has made a link, or is past its test of the stop flag. -/
def Linked (s : Config) (id : Nat) : Prop := 0 < (s.mem.storms id).links ∨ ∃ i, s.thread id = .link i

/-- What holds of the storms at a program point. -/
def Sched : Point → Config → Prop
  | .start i, s => ∀ id, s.started id = true → id < i
  | .remove _, _ | .recreate _, _ | .rewrite _, _ | .setStop, _ | .close _, _ | .ret, _ => True
  | .join _, s => s.mem.stop = true ∧ ∀ id < G084_STORMS, Linked s id
  | .expectErr i, s | .expectLinks i, s =>
    i < G084_STORMS ∧ s.thread i = .exit ∧ s.mem.stop = true ∧ ∀ id < G084_STORMS, Linked s id
  | _, s => ∀ id, s.started id = false

/-- Which of the names of storm `id` are free where it is. -/
def Worked (id : Nat) : Storming → Fs Text → Prop
  | .head i, fs | .link i, fs => i < 8 ∧ ∀ j < 8, fs.get (linkName id j) = none
  | .unlink i, fs => i < 8 ∧ ∀ j < 8, j ≠ i → fs.get (linkName id j) = none
  | .complete, _ | .exit, _ => True

structure Inv (s : Config) (fs : Fs Text) : Prop where
  only : ∀ id, s.started id = true → id < G084_STORMS
  early : ∀ id, s.started id = false → s.thread id = .head 0 ∧ s.done id = false
  err : ∀ id, (s.mem.storms id).err = 0
  flat : ∀ id, s.started id = true → fs.Flat G084_ROOT
  exit : ∀ id, s.done id = true → s.thread id = .exit
  work : ∀ id < G084_STORMS, Worked id (s.thread id) fs
  body : ∀ t, s.test = some t → Body t s.mem fs
  sched : ∀ t, s.test = some t → Sched t s

/-- When the stop flag is set each storm has made a link, or is past its test of the flag; and then its counter does
not wrap any more. -/
def Friendly (x : Config × Fs Text) (i : Option Nat × Bool) : Prop :=
  (i.1 = none → x.1.test = some .setStop → ∀ id < G084_STORMS, Linked x.1 id) ∧
    ∀ id, i.1 = some id → x.1.mem.stop = true → (x.1.mem.storms id).links + 1 < 2 ^ 64

instance (s : Config) (id : Nat) : Decidable (Linked s id) :=
  match h : s.thread id with
  | .link i => isTrue (Or.inr ⟨i, h⟩)
  | .head _ | .unlink _ | .complete | .exit =>
    decidable_of_iff (0 < (s.mem.storms id).links) (by simp [Linked, h])

instance (x : Config × Fs Text) (i : Option Nat × Bool) : Decidable (Friendly x i) :=
  inferInstanceAs (Decidable (_ ∧ ∀ id ∈ i.1, _))

variable {s : Config} {fs fs' : Fs Text}

theorem Worked.only {id : Nat} {u : Storming} {p : Path} (h : Worked id u fs) (ho : Fs.OnlyAt p fs fs')
    (hp : ∀ j < 8, linkName id j ≠ p) : Worked id u fs' := by
  cases u with
  | head i | link i => exact ⟨h.1, fun j hj => (ho.get _ (hp j hj)).trans (h.2 j hj)⟩
  | unlink i => exact ⟨h.1, fun j hj hne => (ho.get _ (hp j hj)).trans (h.2 j hj hne)⟩
  | complete | exit => trivial

theorem IsFile.only {p q : Path} (h : IsFile p fs) (ho : Fs.OnlyAt q fs fs') (hne : p ≠ q) : IsFile p fs' := by
  obtain ⟨k, hk⟩ := h
  exact ⟨k, (ho.get p hne).trans hk⟩

/-- The test function moves on, and the file system changes at a name that is not one of the storms'. -/
theorem Inv.goto (h : Inv s fs) {t : Point} {m : Frame} {p : Path} (hstorms : m.storms = s.mem.storms)
    (hflat : fs'.Flat G084_ROOT) (ho : Fs.OnlyAt p fs fs') (hp : ∀ id j, linkName id j ≠ p) (hbody : Body t m fs')
    (hsched : Sched t (s.goto t m)) : Inv (s.goto t m) fs' := by
  refine ⟨h.only, h.early, fun id => ?_, fun _ _ => hflat, h.exit, fun id hid => ?_, fun u hu => ?_, fun u hu => ?_⟩
  · show (m.storms id).err = 0
    rw [hstorms]
    exact h.err id
  · exact (h.work id hid).only ho fun j _ => hp id j
  · cases hu
    exact hbody
  · cases hu
    exact hsched

/-- The file system stays. -/
theorem Inv.goto' (h : Inv s fs) {t : Point} {m : Frame} (hstorms : m.storms = s.mem.storms) (hbody : Body t m fs)
    (hsched : Sched t (s.goto t m)) : Inv (s.goto t m) fs := by
  refine ⟨h.only, h.early, fun id => ?_, h.flat, h.exit, h.work, fun u hu => ?_, fun u hu => ?_⟩
  · show (m.storms id).err = 0
    rw [hstorms]
    exact h.err id
  · cases hu
    exact hbody
  · cases hu
    exact hsched

theorem test_safe {x : Bool} {t : Point} (h : Inv s fs) (hg : Friendly (s, fs) (none, x)) (ht : s.test = some t) :
    (code t).Safe world program x s fs Inv := by
  have hb := h.body t ht
  have hs := h.sched t ht
  cases t with
  | mounted | addAction => exact Op.safe_assert rfl rfl (h.goto' rfl hb hs)
  | mkdir =>
    obtain ⟨fs', hr, hdir, hnone⟩ := Fresh.mkdir hb
    have hflat : fs'.Flat G084_ROOT := Fs.Flat.of_new hdir hnone
    refine Op.safe_assert (congrArg answer hr) rfl
      ⟨h.only, h.early, h.err, fun _ _ => hflat, h.exit, fun id _ => ?_, fun u hu => ?_, fun u hu => ?_⟩
    · have hhead : (s.goto .addAction s.mem).thread id = .head 0 := (h.early id (hs id)).1
      rw [hhead]
      exact ⟨Nat.zero_lt_succ _, fun j _ => hnone _ []⟩
    · cases hu
      exact hflat
    · cases hu
      exact hs
  | create i =>
    refine Op.safe_ite (fun _ => ?_) fun _ => Op.safe_act (h.goto' rfl hb hs)
    obtain ⟨k, fs', hr, hflat, ho, hfile, hk, -⟩ := Fs.create_flat hb _
    refine Op.safe_assertStore (congrArg answer hr) (not_isErr k fs') ?_
    exact h.goto rfl hflat ho (fun id j => linkName_ne_unlinked id j i) ⟨hflat, ⟨k, hfile⟩, hk⟩ hs
  | write i =>
    obtain ⟨fs', hr, hflat, ho⟩ := serve_kernelWrite hb.lt
    refine Op.safe_assert hr rfl ?_
    exact h.goto rfl (hflat _ hb.flat) (ho _) linkName_ne_src
      ⟨hflat _ hb.flat, hb.file.only (ho G084_ROOT) (by simp [unlinkedName])⟩ hs
  | openFile i =>
    obtain ⟨hflat, k, hk⟩ := hb
    refine Op.safe_assertStore (serve_open (Fs.openFile_flat hflat hk)) (not_isErr k fs) (h.goto' rfl ⟨hflat, k, hk⟩ hs)
  | unlink i =>
    obtain ⟨hflat, k, hk⟩ := hb
    obtain ⟨fs', hr, hflat', ho, -⟩ := Fs.unlink_file hflat hk
    refine Op.safe_assert (congrArg answer hr) rfl ?_
    exact h.goto rfl hflat' ho (fun id j => linkName_ne_unlinked id j i) hflat' hs
  | createSrc =>
    obtain ⟨k, fs', hr, hflat, ho, hfile, hk, -⟩ := Fs.create_flat hb _
    refine Op.safe_assertStore (congrArg answer hr) (not_isErr k fs') ?_
    exact h.goto rfl hflat ho linkName_ne_src ⟨hflat, ⟨k, hfile⟩, hk⟩ hs
  | writeSrc =>
    obtain ⟨fs', hr, hflat, ho⟩ := serve_kernelWrite hb.lt
    refine Op.safe_assert hr rfl (h.goto rfl (hflat _ hb.flat) (ho _) linkName_ne_src
      ⟨hflat _ hb.flat, hb.file.only (ho G084_ROOT) (by simp [G084_SRC])⟩ fun id hid => ?_)
    cases (hs id).symm.trans hid
  | start i =>
    refine Op.safe_ite (fun hi => ?_) fun _ => Op.safe_act (h.goto' rfl hb trivial)
    have hnot : s.started i = false := by
      cases hst : s.started i with
      | false => rfl
      | true => exact absurd (hs i hst) (Nat.lt_irrefl i)
    have hthread : (s.spawn i (.head 0) (.start (i + 1))).thread = s.thread := by
      show Function.update s.thread i (.head 0) = s.thread
      rw [← (h.early i hnot).1, Function.update_eq_self]
    refine Op.safe_start rfl rfl ⟨fun id hid => ?_, fun id hid => ?_, h.err, fun _ _ => hb.1, fun id hd => ?_,
      fun id hid => ?_, fun u hu => ?_, fun u hu => ?_⟩
    · rcases State.of_spawn_started hid with rfl | hid
      · exact hi
      · exact h.only id hid
    · rw [show program.first i = .head 0 from rfl, hthread]
      exact h.early id (State.not_started_of_spawn hid)
    · rw [show program.first i = .head 0 from rfl, hthread]
      exact h.exit id hd
    · rw [show program.first i = .head 0 from rfl, hthread]
      exact h.work id hid
    · cases hu
      exact hb
    · cases hu
      intro id hid
      rcases State.of_spawn_started hid with rfl | hid
      · exact Nat.lt_succ_self _
      · exact Nat.lt_succ_of_lt (hs id hid)
  | remove i =>
    refine Op.safe_ite (fun _ => ?_) fun _ => Op.safe_act (h.goto' rfl hb trivial)
    obtain ⟨hflat, k, hk⟩ := hb
    obtain ⟨fs', hr, hflat', ho, -⟩ := Fs.unlink_file hflat hk
    exact Op.safe_assert (congrArg answer hr) rfl (h.goto rfl hflat' ho linkName_ne_src hflat' trivial)
  | recreate i =>
    obtain ⟨k, fs', hr, hflat, ho, hfile, hk, -⟩ := Fs.create_flat hb _
    refine Op.safe_assertStore (congrArg answer hr) (not_isErr k fs') ?_
    exact h.goto rfl hflat ho linkName_ne_src ⟨hflat, ⟨k, hfile⟩, hk⟩ trivial
  | rewrite i =>
    obtain ⟨fs', hr, hflat, ho⟩ := serve_kernelWrite hb.lt
    exact Op.safe_assert hr rfl (h.goto rfl (hflat _ hb.flat) (ho _) linkName_ne_src
      ⟨hflat _ hb.flat, hb.file.only (ho G084_ROOT) (by simp [G084_SRC])⟩ trivial)
  | setStop => exact Op.safe_act (h.goto' rfl hb ⟨rfl, hg.1 rfl ht⟩)
  | join i =>
    refine Op.safe_ite (fun hi => ?_) fun _ => Op.safe_act (h.goto' rfl trivial trivial)
    exact Op.safe_wait (fun hd => h.goto' rfl hb ⟨hi, h.exit i hd, hs⟩) h
  | expectErr i => exact Op.safe_check (beq_iff_eq.2 (h.err i)) (h.goto' rfl hb hs)
  | expectLinks i =>
    obtain ⟨hi, hexit, hstop, hlinked⟩ := hs
    have hpos : 0 < (s.mem.storms i).links := (hlinked i hi).resolve_right fun ⟨j, hj⟩ => by
      cases hexit.symm.trans hj
    exact Op.safe_check (decide_eq_true hpos) (h.goto' rfl hb ⟨hstop, hlinked⟩)
  | close i =>
    refine Op.safe_ite (fun _ => Op.safe_expectCall rfl rfl (h.goto' rfl trivial trivial)) fun _ => ?_
    refine ⟨h.only, h.early, h.err, h.flat, h.exit, h.work, fun u hu => ?_, fun u hu => ?_⟩
    · cases hu
    · cases hu
  | ret =>
    refine ⟨h.only, h.early, h.err, h.flat, h.exit, h.work, fun u hu => ?_, fun u hu => ?_⟩
    · cases hu
    · cases hu

/-- A storm moves on; the file system changes at one of its names, and the frame in its struct. -/
theorem Inv.move (h : Inv s fs) {id i : Nat} {u : Storming} {z : Storm} (hst : s.started id = true)
    (hne : s.thread id ≠ .exit) (hi : i < 8) (hflat : fs'.Flat G084_ROOT) (ho : Fs.OnlyAt (linkName id i) fs fs')
    (hwork : Worked id u fs') (herr : z.err = 0)
    (hlinked : s.mem.stop = true → IsFile G084_SRC fs → Linked s id → 0 < z.links ∨ ∃ j, u = .link j) :
    Inv (s.move id u (s.mem.setStorm id z)) fs' := by
  have hid := h.only id hst
  have hsrc : IsFile G084_SRC fs → IsFile G084_SRC fs' := fun hf => hf.only ho (linkName_ne_src id i).symm
  have hall : s.mem.stop = true → IsFile G084_SRC fs → (∀ id' < G084_STORMS, Linked s id') →
      ∀ id' < G084_STORMS, Linked (s.move id u (s.mem.setStorm id z)) id' := by
    intro hstop hf hl id' hid'
    by_cases heq : id' = id
    · subst heq
      rcases hlinked hstop hf (hl id' hid') with hpos | ⟨j, hj⟩
      · exact Or.inl (by simpa [State.move, Frame.setStorm] using hpos)
      · exact Or.inr ⟨j, (State.move_thread ..).trans hj⟩
    · rcases hl id' hid' with hpos | ⟨j, hj⟩
      · exact Or.inl (by simpa [State.move, Frame.setStorm, heq] using hpos)
      · exact Or.inr ⟨j, (State.move_thread_ne heq ..).trans hj⟩
  refine ⟨h.only, fun id' hid' => ?_, fun id' => ?_, fun _ _ => hflat, fun id' hd => ?_, fun id' hid' => ?_,
    fun t ht => ?_, fun t ht => ?_⟩
  · have hneq : id' ≠ id := by
      rintro rfl
      cases hst.symm.trans hid'
    rw [State.move_thread_ne hneq]
    exact h.early id' hid'
  · by_cases heq : id' = id
    · simpa [State.move, Frame.setStorm, heq] using herr
    · simpa [State.move, Frame.setStorm, heq] using h.err id'
  · have hneq : id' ≠ id := by
      rintro rfl
      exact hne (h.exit id' hd)
    rw [State.move_thread_ne hneq]
    exact h.exit id' hd
  · by_cases heq : id' = id
    · subst heq
      rw [State.move_thread]
      exact hwork
    · rw [State.move_thread_ne heq]
      exact (h.work id' hid').only ho fun j hj => linkName_ne hid' hid heq hj hi
  · have hb := h.body t ht
    have hs := h.sched t ht
    cases t with
    | mounted | mkdir | addAction | create | write | openFile | unlink | createSrc | writeSrc =>
      cases (hs id).symm.trans hst
    | start | remove | setStop | join | expectErr | expectLinks => exact ⟨hflat, hsrc hb.2⟩
    | recreate => exact hflat
    | rewrite => exact ⟨hflat, hsrc hb.file, Nat.lt_of_lt_of_le hb.lt ho.next⟩
    | close | ret => trivial
  · have hb := h.body t ht
    have hs := h.sched t ht
    cases t with
    | mounted | mkdir | addAction | create | write | openFile | unlink | createSrc | writeSrc =>
      cases (hs id).symm.trans hst
    | start => exact hs
    | remove | recreate | rewrite | setStop | close | ret => trivial
    | join => exact ⟨hs.1, hall hs.1 hb.2 hs.2⟩
    | expectErr j | expectLinks j =>
      obtain ⟨hj, hexit, hstop, hl⟩ := hs
      have hneq : j ≠ id := by
        rintro rfl
        exact hne hexit
      exact ⟨hj, (State.move_thread_ne hneq ..).trans hexit, hstop, hall hstop hb.2 hl⟩

theorem setStorm_self (m : Frame) (id : Nat) : m.setStorm id (m.storms id) = m := by
  rw [Frame.setStorm, Function.update_eq_self]

theorem thread_safe {x : Bool} {id : Nat} (h : Inv s fs) (hg : Friendly (s, fs) (some id, x))
    (hst : s.started id = true) : (linkUnlink id (s.thread id)).Safe world id x s fs Inv := by
  have hflat := h.flat id hst
  have hid := h.only id hst
  have hwork := h.work id hid
  cases hpoint : s.thread id with
  | head i =>
    rw [hpoint] at hwork
    have hmove := h.move (u := if s.mem.stop then .complete else .link i) (z := s.mem.storms id) hst (by simp [hpoint])
      hwork.1 hflat (Fs.OnlyAt.refl _ _) (by split; exacts [trivial, hwork]) (h.err id) fun _ _ hl => Or.inl ?_
    · rwa [setStorm_self] at hmove
    · exact hl.resolve_right fun ⟨j, hj⟩ => by cases hpoint.symm.trans hj
  | link i =>
    rw [hpoint] at hwork
    obtain ⟨hi, hfree⟩ := hwork
    rcases hflat.name _ with hnone | ⟨k, hfile, -⟩
    · have hmove := h.move (u := .unlink i) (z := s.mem.storms id) hst (by simp [hpoint]) hi hflat (Fs.OnlyAt.refl _ _)
        ⟨hi, fun j hj _ => hfree j hj⟩ (h.err id) fun _ ⟨k, hk⟩ _ => by cases hnone.symm.trans hk
      rw [setStorm_self] at hmove
      exact ThreadOp.safe_call (congrArg answer (Fs.link_flat_none hflat hnone)) hmove
    · obtain ⟨fs', hr, hflat', ho⟩ := Fs.link_flat hflat hfile (hfree i hi)
      refine ThreadOp.safe_call (congrArg answer hr) (h.move hst (by simp [hpoint]) hi hflat' ho
        ⟨hi, fun j hj hne => (ho.get _ fun heq => hne (linkName_inj id hid j hj i hi heq)).trans (hfree j hj)⟩
        (h.err id) fun hstop _ _ => Or.inl ?_)
      rw [incr, Nat.mod_eq_of_lt (hg.2 id rfl hstop)]
      exact Nat.succ_pos _
  | unlink i =>
    rw [hpoint] at hwork
    obtain ⟨hi, hfree⟩ := hwork
    obtain ⟨fs', hr, hflat', ho, hgone⟩ := Fs.unlink_flat hflat _
    have hmove := h.move (u := .head ((i + 1) % 8)) (z := s.mem.storms id) hst (by simp [hpoint]) hi hflat' ho
      ⟨Nat.mod_lt _ (by decide), fun j hj => ?_⟩ (h.err id) fun _ _ hl => Or.inl ?_
    · rw [setStorm_self] at hmove
      refine ThreadOp.safe_call (congrArg answer hr) ?_
      split
      · exact hmove
      · exact hmove
    · by_cases hji : j = i
      · exact hji ▸ hgone
      · exact (ho.get _ fun heq => hji (linkName_inj id hid j hj i hi heq)).trans (hfree j hj hji)
    · exact hl.resolve_right fun ⟨j, hj⟩ => by cases hpoint.symm.trans hj
  | complete =>
    have hne : ∀ {id'}, s.started id' = false → id' ≠ id := by
      rintro id' hid' rfl
      cases hst.symm.trans hid'
    refine ⟨h.only, fun id' hid' => ?_, h.err, h.flat, fun id' hd => ?_, fun id' hid' => ?_, h.body, fun t ht => ?_⟩
    · rw [State.signal_thread_ne (hne hid')]
      refine ⟨(h.early id' hid').1, ?_⟩
      show Function.update s.done id true id' = false
      rw [Function.update_of_ne (hne hid')]
      exact (h.early id' hid').2
    · by_cases heq : id' = id
      · subst heq
        exact State.signal_thread ..
      · have hd' : Function.update s.done id true id' = true := hd
        rw [Function.update_of_ne heq] at hd'
        rw [State.signal_thread_ne heq]
        exact h.exit id' hd'
    · by_cases heq : id' = id
      · subst heq
        rw [State.signal_thread]
        trivial
      · rw [State.signal_thread_ne heq]
        exact h.work id' hid'
    · have hs := h.sched t ht
      have hall : (∀ id' < G084_STORMS, Linked s id') → ∀ id' < G084_STORMS, Linked (s.signal id .exit) id' := by
        intro hl id' hid'
        refine (hl id' hid').imp (fun hpos => hpos) fun ⟨j, hj⟩ => ⟨j, ?_⟩
        have heq : id' ≠ id := by
          rintro rfl
          cases hpoint.symm.trans hj
        rw [State.signal_thread_ne heq]
        exact hj
      cases t with
      | join => exact ⟨hs.1, hall hs.2⟩
      | expectErr j | expectLinks j =>
        obtain ⟨hj, hexit, hstop, hl⟩ := hs
        have heq : j ≠ id := by
          rintro rfl
          cases hpoint.symm.trans hexit
        exact ⟨hj, (State.signal_thread_ne heq ..).trans hexit, hstop, hall hl⟩
      | _ => exact hs
  | exit => exact h

theorem init_inv (hfresh : Fresh G084_ROOT fs) : Inv program.init fs := by
  refine ⟨fun id hid => ?_, fun _ _ => ⟨rfl, rfl⟩, fun _ => rfl, fun id hid => ?_, fun id hd => ?_, fun id _ => ?_,
    fun t ht => ?_, fun t ht => ?_⟩
  · cases hid
  · cases hid
  · cases hd
  · exact ⟨Nat.zero_lt_succ _, fun j _ => hfresh.free _⟩
  · cases ht
    exact hfresh
  · cases ht
    exact fun _ => rfl

/-- No friendly run on a conforming file system fails a check. -/
theorem passes (hfresh : Fresh G084_ROOT fs) {is : List (Option Nat × Bool)}
    (h : Runs.Along (program.stepIn world) Friendly (program.init, fs) is) (n : Nat) :
    (Runs.exec (program.stepIn world) (program.init, fs) (is.take n)).1.failed = false :=
  never_fails (fun _ _ _ _ hinv hg ht => test_safe hinv hg ht) (fun _ _ _ _ hinv hg hst => thread_safe hinv hg hst)
    (init_inv hfresh) h n

end NfsPlayground.Races.G084
