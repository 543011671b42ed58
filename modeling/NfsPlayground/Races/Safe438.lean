import NfsPlayground.Races.G438
import NfsPlayground.Races.World

/-!
# generic/438 on a conforming file system

What holds at each program point (`Body`, `Sched`) is kept by every step of the test function (`test_safe`) and of the
syncer (`thread_safe`), if the step is friendly.
-/

namespace NfsPlayground.Races.G438

open Lines Posix Threads

abbrev Config : Type := State Point Syncing Frame

/-- The test file is open as `f`, with the given bytes in it. -/
structure Open (f : Int) (bytes : List UInt8) (fs : Fs Text) : Prop where
  flat : fs.Flat G438_ROOT
  file : fs.get G438_FILE = some (.file f.toNat)
  lt : f.toNat < fs.next
  data : fs.data f.toNat = bytes

/-- It is mapped, too, and open for the syncer. -/
structure Ready (f addr sf : Int) (bytes : List UInt8) (fs : Fs Text) : Prop extends Open f bytes fs where
  mapped : fs.mapped addr = some f.toNat
  sf : sf.toNat < fs.next

/-- The first `n` bytes, written. -/
def written (n : Nat) : List UInt8 := List.replicate n G438_BYTE

/-- What holds of the frame and the file system at a program point. -/
def Body : Point → Frame → Fs Text → Prop
  | .mounted, _, fs | .mkdir, _, fs => Fresh G438_ROOT fs
  | .addAction, _, fs | .openFile, _, fs => fs.Flat G438_ROOT
  | .mmap, m, fs => Open m.f [] fs
  | .openSync, m, fs => Open m.f [] fs ∧ fs.mapped m.addr = some m.f.toNat
  | .start, m, fs => Ready m.f m.addr m.sf (written 0) fs
  | .fallocate i, m, fs => i ≤ G438_SIZE ∧ Ready m.f m.addr m.sf (written i) fs
  | .write i, m, fs => i < G438_SIZE ∧ Ready m.f m.addr m.sf (written i ++ [0]) fs
  | .readBack i, m, fs => i < G438_SIZE ∧ Ready m.f m.addr m.sf (written (i + 1)) fs
  | .assertBack i, m, fs => i < G438_SIZE ∧ Ready m.f m.addr m.sf (written (i + 1)) fs ∧ m.back = G438_BYTE
  | .setStop, m, fs | .join, m, fs | .expectErr, m, fs | .expectSyncs, m, fs | .kmalloc, m, fs
  | .readAll, m, fs | .munmap, m, fs => Ready m.f m.addr m.sf (written G438_SIZE) fs
  | .verify, m, fs => Ready m.f m.addr m.sf (written G438_SIZE) fs ∧ m.got = written G438_SIZE
  | .lastSync, m, fs | .closeSync, m, fs | .close, m, fs | .readServer, m, fs => Open m.f (written G438_SIZE) fs
  | .verifyServer, m, _ => m.got = written G438_SIZE
  | .ret, _, _ => True

/-- What holds of the syncer at a program point. -/
def Sched : Point → Config → Prop
  | .mounted, s | .mkdir, s | .addAction, s | .openFile, s | .mmap, s | .openSync, s | .start, s =>
    s.started 0 = false ∧ s.done 0 = false
  | .join, s => s.mem.stop = true ∧ (0 < s.mem.syncs ∨ s.thread 0 = .sync)
  | .expectErr, s | .expectSyncs, s => s.thread 0 = .exit ∧ 0 < s.mem.syncs
  | _, _ => True

structure Inv (s : Config) (fs : Fs Text) : Prop where
  only : ∀ i, s.started i = true → i = 0
  err : s.mem.err = 0
  sf : s.started 0 = true → s.mem.sf.toNat < fs.next
  exit : s.done 0 = true → s.thread 0 = .exit
  body : ∀ t, s.test = some t → Body t s.mem fs
  sched : ∀ t, s.test = some t → Sched t s

/-- When the stop flag is set the syncer has synced, or is past its test of the flag; and then its counter does not
wrap any more. -/
def Friendly (x : Config × Fs Text) (i : Option Nat × Bool) : Prop :=
  (i.1 = none → x.1.test = some .setStop → 0 < x.1.mem.syncs ∨ x.1.thread 0 = .sync) ∧
    (i.1 = some 0 → x.1.mem.stop = true → x.1.thread 0 = .sync → x.1.mem.syncs + 1 < 2 ^ 64)

instance (x : Config × Fs Text) (i : Option Nat × Bool) : Decidable (Friendly x i) :=
  inferInstanceAs (Decidable (_ ∧ _))

variable {s : Config} {fs fs' : Fs Text}

theorem Inv.goto (h : Inv s fs) {t : Point} {m : Frame} (herr : m.err = s.mem.err)
    (hsf : s.started 0 = true → m.sf.toNat < fs'.next) (hbody : Body t m fs') (hsched : Sched t (s.goto t m)) :
    Inv (s.goto t m) fs' := by
  refine ⟨h.only, herr.trans h.err, hsf, h.exit, fun u hu => ?_, fun u hu => ?_⟩
  · cases hu
    exact hbody
  · cases hu
    exact hsched

variable {f addr sf : Int}

theorem Ready.setData {bytes : List UInt8} (h : Ready f addr sf bytes fs) (new : List UInt8) :
    Ready f addr sf new (fs.setData f.toNat new) where
  flat := ⟨h.flat.dir, h.flat.files⟩
  file := h.file
  lt := h.lt
  data := Function.update_self ..
  mapped := h.mapped
  sf := h.sf

theorem written_succ (n : Nat) : written n ++ [G438_BYTE] = written (n + 1) := List.replicate_succ'.symm

theorem length_written (n : Nat) : (written n).length = n := List.length_replicate

theorem all_written {m : Frame} {n : Nat} (h : m.got = written n) : allBytes m = true := by
  rw [allBytes, h, written, List.all_replicate]
  simp

/-- A byte that was written is read through the mapping. -/
theorem Ready.load {n off len : Nat} (h : Ready f addr sf (written n) fs) (hle : off + len ≤ n) :
    fs.load addr off len = (0, written len) := by
  rw [Fs.load_within h.mapped (by rw [h.data, length_written]; exact hle), Fs.read_replicate h.data hle]
  rfl

theorem test_safe {x : Bool} {t : Point} (h : Inv s fs) (hg : Friendly (s, fs) (none, x)) (ht : s.test = some t) :
    (code t).Safe world program x s fs Inv := by
  have hb := h.body t ht
  have hs := h.sched t ht
  cases t with
  | mounted => exact Op.safe_assert rfl rfl (h.goto rfl h.sf hb hs)
  | mkdir =>
    obtain ⟨fs', hr, hdir, hnone⟩ := Fresh.mkdir hb
    refine Op.safe_assert (congrArg answer hr) rfl (h.goto rfl (fun hst => ?_) (Fs.Flat.of_new hdir hnone) hs)
    rw [hs.1] at hst
    cases hst
  | addAction => exact Op.safe_assert rfl rfl (h.goto rfl h.sf hb hs)
  | openFile =>
    obtain ⟨k, fs', hr, hflat, -, hfile, hk, hdata⟩ := Fs.create_flat hb testfile
    refine Op.safe_assertStore (congrArg answer hr) (not_isErr k fs') (h.goto rfl (fun hst => ?_) ?_ hs)
    · rw [hs.1] at hst
      cases hst
    · exact ⟨hflat, hfile, hk, hdata⟩
  | mmap =>
    obtain ⟨addr, hr, hne, hmapped⟩ := Fs.mmap_mapped (Open.lt hb)
    refine Op.safe_assertStore (congrArg answer hr) ?_ (h.goto rfl h.sf ?_ hs)
    · exact bne_iff_ne.2 (Int.natCast_ne_zero.2 hne)
    · exact ⟨⟨⟨hb.flat.dir, hb.flat.files⟩, hb.file, hb.lt, hb.data⟩, hmapped⟩
  | openSync =>
    have hr := Fs.openFile_flat hb.1.flat hb.1.file
    refine Op.safe_assertStore (serve_open hr) (not_isErr _ fs) (h.goto rfl (fun hst => ?_) ?_ hs)
    · rw [hs.1] at hst
      cases hst
    · exact ⟨⟨hb.1.flat, hb.1.file, hb.1.lt, hb.1.data⟩, hb.2, hb.1.lt⟩
  | start =>
    refine Op.safe_start rfl rfl ⟨fun i hi => ?_, h.err, fun _ => hb.sf, fun hd => ?_, fun u hu => ?_, fun u hu => ?_⟩
    · exact (State.of_spawn_started hi).elim id (h.only i)
    · cases hs.2.symm.trans hd
    · cases hu
      exact ⟨Nat.zero_le _, hb⟩
    · cases hu
      trivial
  | fallocate i =>
    refine Op.safe_ite (fun hi => ?_) fun hi => ?_
    · have hr := Fs.fallocate_end hb.2.lt (by rw [hb.2.data, length_written])
      refine Op.safe_assert (congrArg answer hr) rfl (h.goto rfl h.sf ⟨hi, ?_⟩ trivial)
      rw [hb.2.data]
      exact hb.2.setData _
    · have hi : i = G438_SIZE := Nat.le_antisymm hb.1 (Nat.not_lt.1 hi)
      subst hi
      exact Op.safe_act (h.goto rfl h.sf hb.2 trivial)
  | write i =>
    have hr := Fs.store_last hb.2.mapped hb.2.data (length_written i) G438_BYTE
    refine Op.safe_assert (serve_copyToUser hr) rfl (h.goto rfl h.sf ⟨hb.1, ?_⟩ trivial)
    rw [← written_succ]
    exact hb.2.setData _
  | readBack i =>
    have hr := hb.2.load (Nat.le_refl (i + 1))
    exact Op.safe_assertStore (serve_copyFromUser hr) rfl (h.goto rfl h.sf ⟨hb.1, hb.2, rfl⟩ trivial)
  | assertBack i =>
    exact Op.safe_check (beq_iff_eq.2 hb.2.2) (h.goto rfl h.sf ⟨hb.1, hb.2.1⟩ trivial)
  | setStop =>
    exact Op.safe_act (h.goto rfl h.sf hb ⟨rfl, hg.1 rfl ht⟩)
  | join =>
    refine Op.safe_wait (fun hd => h.goto rfl h.sf hb ⟨h.exit hd, hs.2.resolve_right fun hsync => ?_⟩) h
    cases (h.exit hd).symm.trans hsync
  | expectErr => exact Op.safe_check (beq_iff_eq.2 h.err) (h.goto rfl h.sf hb hs)
  | expectSyncs => exact Op.safe_check (decide_eq_true hs.2) (h.goto rfl h.sf hb trivial)
  | kmalloc => exact Op.safe_assert rfl rfl (h.goto rfl h.sf hb trivial)
  | readAll =>
    have hr := hb.load (Nat.le_of_eq (Nat.zero_add G438_SIZE))
    exact Op.safe_assertStore (serve_copyFromUser hr) rfl (h.goto rfl h.sf ⟨hb, rfl⟩ trivial)
  | verify => exact Op.safe_check (all_written hb.2) (h.goto rfl h.sf hb.1 trivial)
  | munmap =>
    refine Op.safe_expectCall (congrArg answer (Fs.munmap_mapped hb.mapped)) rfl (h.goto rfl h.sf ?_ trivial)
    exact ⟨⟨hb.flat.dir, hb.flat.files⟩, hb.file, hb.lt, hb.data⟩
  | lastSync =>
    exact Op.safe_expectCall (serve_fsync hb.lt) rfl (h.goto rfl h.sf hb trivial)
  | closeSync | close => exact Op.safe_expectCall rfl rfl (h.goto rfl h.sf hb trivial)
  | readServer =>
    have hopen := Fs.openFile_flat hb.flat hb.file
    have hread := Fs.read_replicate hb.data (Nat.le_of_eq (Nat.zero_add G438_SIZE))
    refine Op.safe_assertStore (serve_readRange hopen hread) ?_ (h.goto rfl h.sf rfl trivial)
    exact beq_iff_eq.2 (congrArg Nat.cast (length_written G438_SIZE))
  | verifyServer => exact Op.safe_check (all_written hb) (h.goto rfl h.sf trivial trivial)
  | ret =>
    refine ⟨h.only, h.err, h.sf, h.exit, fun u hu => ?_, fun u hu => ?_⟩
    · cases hu
    · cases hu

/-- The syncer moves on; only its counter changes. -/
theorem Inv.move (h : Inv s fs) {u : Syncing} {n : Nat} (hst : s.started 0 = true) (hne : s.thread 0 ≠ .exit)
    (hsched : s.mem.stop = true → 0 < s.mem.syncs ∨ s.thread 0 = .sync → 0 < n ∨ u = .sync) :
    Inv (s.move 0 u { s.mem with syncs := n }) fs := by
  refine ⟨h.only, h.err, h.sf, fun hd => absurd (h.exit hd) hne, fun t ht => ?_, fun t ht => ?_⟩
  · have hb := h.body t ht
    cases t <;> exact hb
  · have hs := h.sched t ht
    cases t with
    | mounted | mkdir | addAction | openFile | mmap | openSync | start => cases hs.1.symm.trans hst
    | join =>
      rw [Sched, State.move_thread]
      exact ⟨hs.1, hsched hs.1 hs.2⟩
    | expectErr | expectSyncs => exact absurd hs.1 hne
    | _ => trivial

theorem thread_safe {x : Bool} {i : Nat} (h : Inv s fs) (hg : Friendly (s, fs) (some i, x)) (hst : s.started i = true) :
    (fsyncLoop (s.thread i)).Safe world i x s fs Inv := by
  obtain rfl := h.only i hst
  cases hpoint : s.thread 0 with
  | head => exact h.move hst (by simp [hpoint]) fun _ hs => Or.inl (hs.resolve_right (by simp [hpoint]))
  | sync =>
    refine ThreadOp.safe_call (serve_fsync (h.sf hst)) (h.move hst (by simp [hpoint]) fun hstop _ => Or.inl ?_)
    rw [incr, Nat.mod_eq_of_lt (hg.2 rfl hstop hpoint)]
    exact Nat.succ_pos _
  | complete =>
    refine ⟨h.only, h.err, h.sf, fun _ => State.signal_thread .., h.body, fun t ht => ?_⟩
    have hs := h.sched t ht
    cases t with
    | mounted | mkdir | addAction | openFile | mmap | openSync | start => cases hs.1.symm.trans hst
    | join => exact ⟨hs.1, Or.inl (hs.2.resolve_right (by simp [hpoint]))⟩
    | expectErr | expectSyncs => cases hpoint.symm.trans hs.1
    | _ => trivial
  | exit => exact h

theorem init_inv (hfresh : Fresh G438_ROOT fs) : Inv program.init fs := by
  refine ⟨fun i hi => ?_, rfl, fun hst => ?_, fun hd => ?_, fun t ht => ?_, fun t ht => ?_⟩
  · cases hi
  · cases hst
  · cases hd
  · cases ht
    exact hfresh
  · cases ht
    exact ⟨rfl, rfl⟩

/-- No friendly run on a conforming file system fails a check. -/
theorem passes (hfresh : Fresh G438_ROOT fs) {is : List (Option Nat × Bool)}
    (h : Runs.Along (program.stepIn world) Friendly (program.init, fs) is) (n : Nat) :
    (Runs.exec (program.stepIn world) (program.init, fs) (is.take n)).1.failed = false :=
  never_fails (fun _ _ _ _ hinv hg ht => test_safe hinv hg ht) (fun _ _ _ _ hinv hg hst => thread_safe hinv hg hst)
    (init_inv hfresh) h n

/-! ## The stop flag is set -/

/-- How many steps the test function has to make until it has set the flag. -/
def ahead : Point → Option Nat
  | .mounted => some (4 * G438_SIZE + 9)
  | .mkdir => some (4 * G438_SIZE + 8)
  | .addAction => some (4 * G438_SIZE + 7)
  | .openFile => some (4 * G438_SIZE + 6)
  | .mmap => some (4 * G438_SIZE + 5)
  | .openSync => some (4 * G438_SIZE + 4)
  | .start => some (4 * G438_SIZE + 3)
  | .fallocate i => some (4 * (G438_SIZE - i) + 2)
  | .write i => some (4 * (G438_SIZE - (i + 1)) + 5)
  | .readBack i => some (4 * (G438_SIZE - (i + 1)) + 4)
  | .assertBack i => some (4 * (G438_SIZE - (i + 1)) + 3)
  | .setStop => some 1
  | .join => some 0
  | _ => none

theorem ahead_goes (t : Point) (n : Nat) (h : ahead t = some (n + 1)) : (code t).Goes fun t' => ahead t' = some n := by
  cases t with
  | mounted | mkdir | addAction | openFile | mmap | openSync =>
    refine ⟨fun _ _ => rfl, fun _ _ _ => ?_⟩
    simpa [ahead] using h
  | start => simpa [ahead, code, Op.Goes] using h
  | fallocate i =>
    rw [ahead, Option.some.injEq] at h
    show Op.Goes _ (if i < G438_SIZE then _ else _)
    split
    · refine ⟨fun _ _ => rfl, fun _ _ _ => congrArg some ?_⟩
      omega
    · refine ⟨fun _ _ => rfl, fun _ _ _ => congrArg some ?_⟩
      omega
  | write i | readBack i | assertBack i =>
    rw [ahead, Option.some.injEq] at h
    refine ⟨fun _ _ => rfl, fun _ _ _ => congrArg some ?_⟩
    omega
  | setStop =>
    rw [ahead, Option.some.injEq] at h
    refine ⟨fun _ _ => rfl, fun _ _ _ => congrArg some ?_⟩
    omega
  | _ => cases h

/-- In a friendly run the test function gets its steps, and sets the flag. -/
theorem stops (hfresh : Fresh G438_ROOT fs) {is : List (Option Nat × Bool)}
    (h : Runs.Along (program.stepIn world) Friendly (program.init, fs) is)
    (hsteps : is.countP (·.1.isNone) = 4 * G438_SIZE + 9) :
    (Runs.exec (program.stepIn world) (program.init, fs) is).1.mem.stop = true := by
  have htest : ∀ s e x t, Inv s e → Friendly (s, e) (none, x) → s.test = some t →
      (code t).Safe world program x s e Inv :=
    fun _ _ _ _ hinv hg ht => test_safe hinv hg ht
  have hthread : ∀ s e x i, Inv s e → Friendly (s, e) (some i, x) → s.started i = true →
      (fsyncLoop (s.thread i)).Safe world i x s e Inv := fun _ _ _ _ hinv hg hst => thread_safe hinv hg hst
  obtain ⟨t, ht, hzero⟩ := reaches htest hthread ahead_goes (k := 0) ⟨init_inv hfresh, rfl⟩ h rfl
    (by rw [hsteps, Nat.zero_add]; rfl)
  obtain ⟨hinv, -⟩ := Runs.exec_inv (stepIn_safe htest hthread) is ⟨init_inv hfresh, rfl⟩ h
  have hsched := hinv.sched t ht
  cases t with
  | join => exact hsched.1
  | _ => simp [ahead] at hzero

theorem code_counts (t : Point) : (code t).Stores (Counts Frame.syncs) := by
  cases t with
  | start | join | ret => trivial
  | fallocate i => exact Op.stores_ite (fun _ m => counts_rfl _ m) fun _ m => counts_rfl _ m
  | _ => exact fun _ _ => Or.inl rfl

theorem work_counts (i : Nat) (u : Syncing) : (program.work i u).Stores (Counts Frame.syncs) := by
  cases u with
  | head => exact fun _ m => counts_rfl _ m
  | sync => exact fun _ _ => counts_ite (Or.inl rfl) (Or.inr rfl)
  | complete | exit => trivial

/-- Once the syncer has synced every run is friendly that is not too long. -/
theorem friendly_of_synced {y : Config × Fs Text} {is : List (Option Nat × Bool)} (hpos : 0 < y.1.mem.syncs)
    (hlt : y.1.mem.syncs + is.length < 2 ^ 64) : Runs.Along (program.stepIn world) Friendly y is :=
  along_of_counting (P := fun _ => True) code_counts work_counts
    (fun _ _ _ hpos hlt => ⟨fun _ _ => Or.inl hpos, fun _ _ _ => hlt⟩)
    (fun _ _ => trivial) hpos hlt

end NfsPlayground.Races.G438
