import NfsPlayground.Races.G364
import NfsPlayground.Races.World

/-!
# generic/364 on a conforming file system

What holds at each program point (`Body`, `Sched`) and of the file while the writer writes it (`Worked`) is kept by
every step of the test function (`test_safe`) and of the writer (`thread_safe`), if the step is friendly.
-/

namespace NfsPlayground.Races.G364

open Lines Posix Threads

abbrev Config : Type := State Point Writing Frame

/-- The test file is open as `f`. -/
structure Open (f : Int) (fs : Fs Text) : Prop where
  flat : fs.Flat G364_ROOT
  file : fs.get G364_FILE = some (.file f.toNat)

/-- The first `n` bytes, written. -/
def written (n : Nat) : List UInt8 := List.replicate n G364_BYTE

/-- What holds of the frame and the file system at a program point. -/
def Body : Point → Frame → Fs Text → Prop
  | .mounted, _, fs | .mkdir, _, fs => Fresh G364_ROOT fs
  | .addAction, _, fs | .openFile, _, fs => fs.Flat G364_ROOT
  | .start, m, fs => Open m.f fs ∧ m.f.toNat < fs.next ∧ fs.data m.f.toNat = written 0
  | .verify _, m, fs => Open m.f fs ∧ m.buf = written G364_CHUNK
  | .ret, _, _ => True
  | _, m, fs => Open m.f fs

/-- What holds of the threads at a program point. -/
def Sched : Point → Config → Prop
  | .mounted, s | .mkdir, s | .addAction, s | .openFile, s | .start, s =>
    s.started 0 = false ∧ s.done 0 = false ∧ s.mem.syncs = 0
  | .head, s | .sync, s => s.started 0 = true ∧ 0 ≤ s.mem.syncs
  | .join, s => s.started 0 = true ∧ 0 < s.mem.syncs
  | .expectErr, s | .expectSyncs, s => s.started 0 = true ∧ s.thread 0 = .exit ∧ 0 < s.mem.syncs
  | _, s => s.started 0 = true ∧ s.thread 0 = .exit

/-- What the file holds where the writer is. -/
def Worked : Writing → Frame → Fs Text → Prop
  | .kmalloc, m, fs => fs.data m.f.toNat = written 0
  | .write i, m, fs => i ≤ G364_ROUNDS ∧ fs.data m.f.toNat = written (i * G364_CHUNK)
  | .complete, m, fs | .exit, m, fs => fs.data m.f.toNat = written (G364_ROUNDS * G364_CHUNK)

structure Inv (s : Config) (fs : Fs Text) : Prop where
  only : ∀ i, s.started i = true → i = 0
  err : s.mem.err = 0
  lt : s.started 0 = true → s.mem.f.toNat < fs.next
  exit : s.done 0 = true → s.thread 0 = .exit
  work : s.started 0 = true → Worked (s.thread 0) s.mem fs
  body : ∀ t, s.test = some t → Body t s.mem fs
  sched : ∀ t, s.test = some t → Sched t s

/-- The test function does not find the writer done before it has synced, and its counter does not overflow. -/
def Friendly (x : Config × Fs Text) (i : Option Nat × Bool) : Prop :=
  (i.1 = none → x.1.test = some .head → x.1.done 0 = true → x.1.mem.syncs ≠ 0) ∧
    (i.1 = none → x.1.test = some .sync → x.1.mem.syncs + 1 < 2 ^ 31)

instance (x : Config × Fs Text) (i : Option Nat × Bool) : Decidable (Friendly x i) :=
  inferInstanceAs (Decidable (_ ∧ _))

variable {s : Config} {fs fs' : Fs Text}

/-- The test function moves on, and what the writer works on stays. -/
theorem Inv.goto (h : Inv s fs) {t : Point} {m : Frame} (herr : m.err = s.mem.err)
    (hlt : s.started 0 = true → m.f.toNat < fs'.next)
    (hwork : s.started 0 = true → Worked (s.thread 0) s.mem fs → Worked (s.thread 0) m fs')
    (hbody : Body t m fs') (hsched : Sched t (s.goto t m)) : Inv (s.goto t m) fs' := by
  refine ⟨h.only, herr.trans h.err, hlt, h.exit, fun hst => hwork hst (h.work hst), fun u hu => ?_, fun u hu => ?_⟩
  · cases hu
    exact hbody
  · cases hu
    exact hsched

/-- The file system and the file stay. -/
theorem Inv.goto' (h : Inv s fs) {t : Point} {m : Frame} (herr : m.err = s.mem.err) (hf : m.f = s.mem.f)
    (hbody : Body t m fs) (hsched : Sched t (s.goto t m)) : Inv (s.goto t m) fs := by
  refine h.goto herr (fun hst => hf ▸ h.lt hst) (fun _ hwork => ?_) hbody hsched
  cases hpoint : s.thread 0 <;> rw [hpoint] at hwork <;> simp only [Worked, hf] at hwork ⊢ <;> exact hwork

theorem incrInt_eq {n : Int} (hle : 0 ≤ n) (hlt : n + 1 < 2 ^ 31) : incrInt n = n + 1 := by
  exact Int.bmod_eq_of_le (by omega) (by omega)

theorem test_safe {x : Bool} {t : Point} (h : Inv s fs) (hg : Friendly (s, fs) (none, x)) (ht : s.test = some t) :
    (code t).Safe world program x s fs Inv := by
  have hb := h.body t ht
  have hs := h.sched t ht
  cases t with
  | mounted | addAction => exact Op.safe_assert rfl rfl (h.goto' rfl rfl hb hs)
  | mkdir =>
    obtain ⟨fs', hr, hdir, hnone⟩ := Fresh.mkdir hb
    refine Op.safe_assert (congrArg answer hr) rfl
      (h.goto rfl (fun hst => ?_) (fun hst => ?_) (Fs.Flat.of_new hdir hnone) hs)
    · cases hs.1.symm.trans hst
    · cases hs.1.symm.trans hst
  | openFile =>
    obtain ⟨k, fs', hr, hflat, -, hfile, hk, hdata⟩ := Fs.create_flat hb testfile
    refine Op.safe_assertStore (congrArg answer hr) (not_isErr k fs')
      (h.goto rfl (fun hst => ?_) (fun hst => ?_) ⟨⟨hflat, hfile⟩, hk, hdata⟩ hs)
    · cases hs.1.symm.trans hst
    · cases hs.1.symm.trans hst
  | start =>
    refine Op.safe_start rfl rfl ⟨fun i hi => ?_, h.err, fun _ => hb.2.1, fun hd => ?_, fun _ => ?_, fun u hu => ?_,
      fun u hu => ?_⟩
    · exact (State.of_spawn_started hi).elim id (h.only i)
    · cases hs.2.1.symm.trans hd
    · rw [State.spawn_thread]
      exact hb.2.2
    · cases hu
      exact hb.1
    · cases hu
      exact ⟨State.spawn_started .., Int.le_of_eq hs.2.2.symm⟩
  | head =>
    refine Op.safe_branch ?_
    by_cases hd : s.done 0 = true
    · have hle : 0 ≤ s.mem.syncs := hs.2
      have hne : s.mem.syncs ≠ 0 := hg.1 rfl ht hd
      have hpos : 0 < s.mem.syncs := by omega
      rw [if_pos hd]
      exact h.goto' rfl rfl hb ⟨hs.1, hpos⟩
    · rw [if_neg hd]
      exact h.goto' rfl rfl hb hs
  | sync =>
    refine Op.safe_assertStore (serve_fsync (h.lt hs.1)) rfl (h.goto' rfl rfl hb ⟨hs.1, ?_⟩)
    show 0 ≤ incrInt s.mem.syncs
    rw [incrInt_eq hs.2 (hg.2 rfl ht)]
    exact Int.le_trans hs.2 (Int.le_add_one (Int.le_refl _))
  | join => exact Op.safe_wait (fun hd => h.goto' rfl rfl hb ⟨hs.1, h.exit hd, hs.2⟩) h
  | expectErr => exact Op.safe_check (beq_iff_eq.2 h.err) (h.goto' rfl rfl hb hs)
  | expectSyncs => exact Op.safe_check (decide_eq_true hs.2.2) (h.goto' rfl rfl hb ⟨hs.1, hs.2.1⟩)
  | lastSync => exact Op.safe_expectCall (serve_fsync (h.lt hs.1)) rfl (h.goto' rfl rfl hb hs)
  | close => exact Op.safe_expectCall rfl rfl (h.goto' rfl rfl hb hs)
  | kmalloc => exact Op.safe_assert rfl rfl (h.goto' rfl rfl hb hs)
  | read i =>
    refine Op.safe_ite (fun hi => ?_) fun _ => ?_
    · have hopen := Fs.openFile_flat hb.flat hb.file
      have hdata := h.work hs.1
      rw [hs.2] at hdata
      have hread : fs.read s.mem.f.toNat (i * G364_CHUNK) G364_CHUNK = written G364_CHUNK :=
        Fs.read_replicate hdata (by rw [← Nat.succ_mul]; exact Nat.mul_le_mul_right _ hi)
      refine Op.safe_assertStore (serve_readRange hopen hread) ?_ (h.goto' rfl rfl ⟨hb, rfl⟩ hs)
      exact beq_iff_eq.2 (congrArg Nat.cast (List.length_replicate (n := G364_CHUNK) (a := G364_BYTE)))
    · refine ⟨h.only, h.err, h.lt, h.exit, h.work, fun u hu => ?_, fun u hu => ?_⟩
      · cases hu
      · cases hu
  | verify i =>
    refine Op.safe_expectOr ?_ (h.goto' rfl rfl hb.1 hs)
    rw [hb.2, written, List.all_replicate]
    simp
  | ret =>
    refine ⟨h.only, h.err, h.lt, h.exit, h.work, fun u hu => ?_, fun u hu => ?_⟩
    · cases hu
    · cases hu

/-- The writer moves on; it changes nothing but the data of its file. -/
theorem Inv.move (h : Inv s fs) {u : Writing} (hst : s.started 0 = true) (hne : s.thread 0 ≠ .exit)
    (hget : fs'.nodes = fs.nodes) (hnext : fs'.next = fs.next) (hwork : Worked u s.mem fs') :
    Inv (s.move 0 u s.mem) fs' := by
  have hflat : ∀ {d}, fs.Flat d → fs'.Flat d := fun hd => by
    refine ⟨fun q hq => ?_, fun n t x hx => ?_⟩
    · rw [Fs.get, hget]
      exact hd.dir q hq
    · rw [Fs.get, hget] at hx
      rw [hnext]
      exact hd.files n t x hx
  have hopen : ∀ {f}, Open f fs → Open f fs' := fun ho => by
    refine ⟨hflat ho.flat, ?_⟩
    rw [Fs.get, hget]
    exact ho.file
  refine ⟨h.only, h.err, fun _ => hnext ▸ h.lt hst, fun hd => absurd (h.exit hd) hne, fun _ => ?_, fun t ht => ?_,
    fun t ht => ?_⟩
  · rw [State.move_thread]
    exact hwork
  · have hb := h.body t ht
    have hs := h.sched t ht
    cases t with
    | mounted | mkdir | addAction | openFile | start => cases hs.1.symm.trans hst
    | verify i => exact ⟨hopen hb.1, hb.2⟩
    | ret => trivial
    | _ => exact hopen hb
  · have hs := h.sched t ht
    cases t with
    | mounted | mkdir | addAction | openFile | start => cases hs.1.symm.trans hst
    | head | sync | join => exact hs
    | expectErr | expectSyncs => exact absurd hs.2.1 hne
    | _ => exact absurd hs.2 hne

theorem thread_safe {x : Bool} {i : Nat} (h : Inv s fs) (hst : s.started i = true) :
    (writeLoop (s.thread i)).Safe world i x s fs Inv := by
  obtain rfl := h.only i hst
  have hwork := h.work hst
  cases hpoint : s.thread 0 with
  | kmalloc =>
    rw [hpoint] at hwork
    refine ThreadOp.safe_call rfl (h.move hst (by simp [hpoint]) rfl rfl ⟨Nat.zero_le _, ?_⟩)
    rw [Nat.zero_mul]
    exact hwork
  | write i =>
    rw [hpoint] at hwork
    obtain ⟨hle, hdata⟩ := hwork
    refine ThreadOp.safe_ite (fun hi => ?_) fun hi => ?_
    · have hlen : (fs.data s.mem.f.toNat).length = i * G364_CHUNK := by rw [hdata, written, List.length_replicate]
      have hall : fs.data s.mem.f.toNat ++ List.replicate G364_CHUNK G364_BYTE = written ((i + 1) * G364_CHUNK) := by
        rw [hdata, written, List.replicate_append_replicate, ← Nat.succ_mul]
        rfl
      have hr := Fs.write_end (h.lt hst) hlen _ hall
      rw [List.length_replicate] at hr
      refine ThreadOp.safe_call (congrArg answer hr) (h.move hst (by simp [hpoint]) rfl rfl ⟨hi, ?_⟩)
      exact Function.update_self ..
    · have hi : i = G364_ROUNDS := Nat.le_antisymm hle (Nat.not_lt.1 hi)
      subst hi
      exact h.move hst (by simp [hpoint]) rfl rfl hdata
  | complete =>
    rw [hpoint] at hwork
    refine ⟨h.only, h.err, h.lt, fun _ => State.signal_thread .., fun _ => ?_, h.body, fun t ht => ?_⟩
    · rw [State.signal_thread]
      exact hwork
    · have hs := h.sched t ht
      cases t with
      | mounted | mkdir | addAction | openFile | start => cases hs.1.symm.trans hst
      | head | sync | join => exact hs
      | expectErr | expectSyncs => cases hpoint.symm.trans hs.2.1
      | _ => cases hpoint.symm.trans hs.2
  | exit => exact h

theorem init_inv (hfresh : Fresh G364_ROOT fs) : Inv program.init fs := by
  refine ⟨fun i hi => ?_, rfl, fun hst => ?_, fun hd => ?_, fun hst => ?_, fun t ht => ?_, fun t ht => ?_⟩
  · cases hi
  · cases hst
  · cases hd
  · cases hst
  · cases ht
    exact hfresh
  · cases ht
    exact ⟨rfl, rfl, rfl⟩

/-- No friendly run on a conforming file system fails a check. -/
theorem passes (hfresh : Fresh G364_ROOT fs) {is : List (Option Nat × Bool)}
    (h : Runs.Along (program.stepIn world) Friendly (program.init, fs) is) (n : Nat) :
    (Runs.exec (program.stepIn world) (program.init, fs) (is.take n)).1.failed = false :=
  never_fails (fun _ _ _ _ hinv hg ht => test_safe hinv hg ht) (fun _ _ _ _ hinv _ hst => thread_safe hinv hst)
    (init_inv hfresh) h n

end NfsPlayground.Races.G364
