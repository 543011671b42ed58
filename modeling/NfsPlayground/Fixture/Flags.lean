import NfsPlayground.Fixture.Cleanup

/-!
# The flags and the mount table

`Truthful s`: on each of the three directories there is a mount exactly when its flag is set, and never two. Teardown
clears a flag whether or not the unmount behind it succeeded, so a call keeps this exactly when every unmount its
teardown makes succeeds (`UmountsDetach`, `step_truthful_iff`), and the flags tell the truth in every state of a run
exactly when that holds of all its calls (`flags_truthful_iff`).
-/

namespace NfsPlayground.Fixture

structure Truthful (s : State) : Prop where
  tmpfs : s.mounts .xfsExport ≠ [] ↔ s.env.tmpfsMounted = true
  nfsdfs : s.mounts .xfsNfsdfs ≠ [] ↔ s.env.nfsdfsMounted = true
  client : s.mounts .xfsMnt ≠ [] ↔ s.env.clientMounted = true
  single : (s.mounts .xfsExport).length ≤ 1 ∧ (s.mounts .xfsNfsdfs).length ≤ 1 ∧ (s.mounts .xfsMnt).length ≤ 1

/-- The unmounts a call makes succeed: those of the last put, which finds everything mounted, and those of a get whose
bring-up fails, which finds what the bring-up got to mount. -/
def UmountsDetach (s : State) : PublicCall → Prop
  | .exportOpts _ => True
  | .get b t => s.refs = 0 → ¬ b.MountsClient s →
      (b.MountsTmpfs s → t.tmpfs.err = 0) ∧ (b.MountsNfsdfs s → t.nfsdfs.err = 0)
  | .put t => s.refs = 1 → t.Succeeds

theorem truthful_initial : Truthful initial :=
  ⟨by decide, by decide, by decide, by decide, by decide, by decide⟩

/-- Truth is about mounts and flags only. -/
theorem Truthful.congr {s s' : State} (hm : s'.mounts = s.mounts) (he : s'.env = s.env) (hs : Truthful s) :
    Truthful s' := by
  obtain ⟨h1, h2, h3, h4⟩ := hs
  exact ⟨by rwa [hm, he], by rwa [hm, he], by rwa [hm, he], by rwa [hm]⟩

/-- With no flag set, truth is an empty mount table. -/
theorem truthful_idle_iff {s : State} (h : s.env = ⟨false, false, false, false⟩) :
    Truthful s ↔ s.mounts .xfsExport = [] ∧ s.mounts .xfsNfsdfs = [] ∧ s.mounts .xfsMnt = [] := by
  constructor
  · intro hs
    have h1 := hs.tmpfs
    have h2 := hs.nfsdfs
    have h3 := hs.client
    simp only [h, Bool.false_eq_true, iff_false, ne_eq, not_not] at h1 h2 h3
    exact ⟨h1, h2, h3⟩
  · rintro ⟨h1, h2, h3⟩
    refine ⟨?_, ?_, ?_, ?_⟩ <;> simp [h, h1, h2, h3]

/-- With every flag set, truth is one mount on each directory. -/
theorem truthful_live_iff {s : State} (h : s.env = ⟨true, true, true, true⟩) :
    Truthful s ↔ (s.mounts .xfsExport).length = 1 ∧ (s.mounts .xfsNfsdfs).length = 1 ∧
      (s.mounts .xfsMnt).length = 1 := by
  have hlen : ∀ l : List Mount, l.length = 1 ↔ l ≠ [] ∧ l.length ≤ 1 := fun l => by
    cases l <;> simp
  simp only [hlen]
  constructor
  · intro hs
    exact ⟨⟨hs.tmpfs.2 (by rw [h]), hs.single.1⟩, ⟨hs.nfsdfs.2 (by rw [h]), hs.single.2.1⟩,
      hs.client.2 (by rw [h]), hs.single.2.2⟩
  · rintro ⟨⟨h1, l1⟩, ⟨h2, l2⟩, h3, l3⟩
    exact ⟨iff_of_true h1 (by rw [h]), iff_of_true h2 (by rw [h]), iff_of_true h3 (by rw [h]), l1, l2, l3⟩

/-! ## The calls that run teardown -/

/-- An unmount of the only mount empties the directory exactly when it succeeds. -/
theorem umount_single_iff (a : UmountAnswer) (m : Mount) : (xfsUmount a [m]).2 = [] ↔ a.err = 0 := by
  rw [umount_cons]
  split <;> simp_all

theorem umountSettled_single_iff (a : SettleAnswer) (m : Mount) : (xfsUmountSettled a [m]).2 = [] ↔ a.Detaches := by
  rcases umountSettled_cons a m [] with ⟨h, heq⟩ | ⟨h, -, heq⟩
  · exact iff_of_true (by rw [heq]) h
  · exact iff_of_false (by rw [heq]; simp) h

/-- The last put empties the three directories exactly when its unmounts succeed. -/
theorem put_last_truthful_iff (t : TeardownAnswer) {s : State} (hs : Truthful s)
    (henv : s.env = ⟨true, true, true, true⟩) (h1 : s.refs = 1) :
    Truthful (xfstestsNfsPut t s).2 ↔ t.Succeeds := by
  obtain ⟨hexp, hnfsdfs, hmnt⟩ := (truthful_live_iff henv).1 hs
  obtain ⟨m₁, hm₁⟩ := List.length_eq_one_iff.1 hexp
  obtain ⟨m₂, hm₂⟩ := List.length_eq_one_iff.1 hnfsdfs
  obtain ⟨m₃, hm₃⟩ := List.length_eq_one_iff.1 hmnt
  rw [put_last t h1, truthful_idle_iff (teardown_env _ _), teardown_mounts_export, teardown_mounts_nfsdfs,
    teardown_mounts_mnt]
  simp only [henv, if_true, hm₁, hm₂, hm₃, umount_single_iff, umountSettled_single_iff]
  exact ⟨fun h => ⟨h.2.2, h.2.1, h.1⟩, fun h => ⟨h.tmpfs, h.nfsdfs, h.client⟩⟩

/-- How far a failed bring-up got is what its flags say. -/
theorem bringup_err_flags {b : BringupAnswer} {s : State} (h0 : (xfsBringup b s).1 ≠ 0)
    (henv : s.env = ⟨false, false, false, false⟩) :
    ((xfsBringup b s).2.env.tmpfsMounted = true ↔ b.MountsTmpfs s) ∧
      ((xfsBringup b s).2.env.nfsdfsMounted = true ↔ b.MountsNfsdfs s) := by
  have h := bringup_spec b s
  generalize xfsBringup b s = r at h h0
  cases h with
  | unprepared _ hP => simpa [started, henv] using ⟨fun h => hP h.1, fun h => hP h.1.1⟩
  | noTmpfs _ _ hT => simpa [started, henv] using ⟨hT, fun h => hT h.1⟩
  | noNfsdfs _ hT hN => simpa [started, withTmpfs, henv] using ⟨hT, hN⟩
  | noExports _ hN _ => simpa [withServ, withNfsdfs, withTmpfs] using ⟨hN.1, hN⟩
  | noNfsd _ hE _ => simpa [withServ, withNfsdfs, withTmpfs] using ⟨hE.1.1, hE.1⟩
  | noClient _ hD _ => simpa [withNfsd] using ⟨hD.nfsdfs.1, hD.nfsdfs⟩
  | up _ => exact absurd rfl h0

/-- The first get leaves the flags true exactly when the unmounts after a failed bring-up succeed. -/
theorem get_first_truthful_iff (b : BringupAnswer) (t : TeardownAnswer) {s : State} (hs : Truthful s)
    (henv : s.env = ⟨false, false, false, false⟩) (hroot : s.bringupRoot = none) (h : s.refs = 0) :
    Truthful (xfstestsNfsGet b t s).2 ↔ (¬ b.MountsClient s →
      (b.MountsTmpfs s → t.tmpfs.err = 0) ∧ (b.MountsNfsdfs s → t.nfsdfs.err = 0)) := by
  obtain ⟨hexp, hnfsdfs, hmnt⟩ := (truthful_idle_iff henv).1 hs
  by_cases h0 : (xfsBringup b s).1 = 0
  · have hup := (bringup_ok_iff b s).1 h0
    refine iff_of_true ?_ fun hno => absurd hup hno
    obtain ⟨hexp', hnfsdfs', hmnt'⟩ := bringup_ok_mounts h0
    rw [hexp] at hexp'
    rw [hnfsdfs] at hnfsdfs'
    rw [hmnt] at hmnt'
    rw [get_first b t h h0]
    refine Truthful.congr (s := (xfsBringup b s).2) rfl rfl ((truthful_live_iff (bringup_ok h0 hroot).1).2 ?_)
    exact ⟨congrArg List.length hexp', congrArg List.length hnfsdfs', congrArg List.length hmnt'⟩
  · have hno := mt (bringup_ok_iff b s).2 h0
    obtain ⟨hftmpfs, hfnfsdfs⟩ := bringup_err_flags h0 henv
    obtain ⟨hmnt', hclient, hexp', hnfsdfs'⟩ := bringup_err_mounts h0 henv
    rw [get_failed b t h h0, truthful_idle_iff (teardown_env _ _), teardown_mounts_export, teardown_mounts_nfsdfs,
      teardown_mounts_mnt, hclient, hmnt', hexp', hnfsdfs', hexp, hnfsdfs, hmnt, ← hftmpfs, ← hfnfsdfs]
    simp only [hno, not_false_eq_true, forall_const, Bool.false_eq_true, if_false, and_true]
    refine and_congr ?_ ?_
    · by_cases hf : (xfsBringup b s).2.env.tmpfsMounted <;> simp [hf, umount_single_iff]
    · by_cases hf : (xfsBringup b s).2.env.nfsdfsMounted <;> simp [hf, umount_single_iff]

/-! ## Every call, and runs -/

/-- A call keeps the flags true exactly when the unmounts of its teardown succeed. -/
theorem step_truthful_iff (s : State) (c : PublicCall) (hT : Truthful s) (hC : Counted s) :
    Truthful (step s c).2 ↔ UmountsDetach s c := by
  have hTf : Truthful s.fresh := Truthful.congr (s := s) rfl rfl hT
  cases c with
  | exportOpts opts => exact iff_of_true (Truthful.congr (s := s) rfl rfl hT) trivial
  | get b t =>
    by_cases h : s.refs = 0
    · obtain ⟨henv, hroot, -⟩ := hC.idle h
      have := get_first_truthful_iff b t hTf henv hroot h
      exact ⟨fun hx _ => this.1 hx, fun hx => this.2 (hx h)⟩
    · refine iff_of_true ?_ fun h0 => absurd h0 h
      rw [step, get_shared b t (s := s.fresh) h]
      exact Truthful.congr (s := s) rfl rfl hT
  | put t =>
    by_cases h : s.refs ≤ 0
    · refine iff_of_true ?_ fun h1 => ?_
      · rw [step, put_rejected t (s := s.fresh) h]
        exact hTf
      · rw [h1] at h
        exact absurd h (by decide)
    by_cases h1 : s.refs = 1
    · obtain ⟨henv, -⟩ := hC.live (by rw [h1]; decide)
      have := put_last_truthful_iff t hTf henv h1
      exact ⟨fun hx _ => this.1 hx, fun hx => this.2 (hx h1)⟩
    · refine iff_of_true ?_ fun h0 => absurd h0 h1
      rw [step, put_shared t (s := s.fresh) h h1]
      exact Truthful.congr (s := s) rfl rfl hT

/-- **The flags tell the truth** after every call of a run, and no mount is ever stacked on another, exactly when
every unmount the run's teardowns make succeeds (in a run that keeps the count below `2 ^ 31`). -/
theorem flags_truthful_iff (cs : List PublicCall) (hcs : ∀ n, outstanding (cs.take n) < 2 ^ 31) :
    (∀ n, Truthful (after (cs.take n))) ↔ Runs.Along step UmountsDetach initial cs := by
  have hI : ∀ s c, Truthful s ∧ Counted s →
      (Truthful (step s c).2 ∧ Counted (step s c).2 ↔ UmountsDetach s c ∧ InRange s c) := fun s c hs => by
    rw [step_truthful_iff s c hs.1 hs.2, step_counted_iff s c hs.2]
  have hC : ∀ n, Counted (after (cs.take n)) := fun n =>
    (counted_after (cs.take n) fun k => by rw [List.take_take]; exact hcs _).1
  have hall := Runs.forall_take_iff_along (P := fun s c => UmountsDetach s c ∧ InRange s c) hI cs
    ⟨truthful_initial, counted_initial⟩
  have hrange : Runs.Along step InRange initial cs :=
    (Runs.forall_take_iff_along (fun s c => step_counted_iff s c) cs counted_initial).1 hC
  rw [Runs.along_and] at hall
  constructor
  · exact fun hT => (hall.1 fun n => ⟨hT n, hC n⟩).1
  · exact fun hU n => (hall.2 ⟨hU, hrange⟩ n).1

theorem flags_truthful_pair : Truthful (after [.get .ok .ok]) ∧ Truthful (after [.get .ok .ok, .put .ok]) := by
  have hall : ∀ n, Truthful (after ([.get .ok .ok, .put .ok].take n)) := by
    refine (flags_truthful_iff _ fun n => ?_).2 ⟨fun _ hno => absurd ?_ hno, fun _ => ok_succeeds, trivial⟩
    · have h := outstanding_le_length ([.get .ok .ok, .put .ok].take n)
      have hl : ([PublicCall.get .ok .ok, .put .ok].take n).length ≤ 2 := List.length_take_le' n _
      omega
    · exact (bringup_ok_iff .ok initial).1 (by decide)
  exact ⟨hall 1, hall 2⟩

/-- The tmpfs export is busy at the teardown. -/
def tmpfsBusy : TeardownAnswer := { TeardownAnswer.ok with tmpfs := ⟨0, -EBUSY⟩ }

/-- After a busy unmount the flag is clear and the tmpfs still there, and the next bring-up stacks a second one. -/
theorem tmpfsBusy_stacks : (after [.get .ok .ok, .put tmpfsBusy]).env.tmpfsMounted = false ∧
    ((after [.get .ok .ok, .put tmpfsBusy]).mounts .xfsExport).length = 1 ∧
    ((after [.get .ok .ok, .put tmpfsBusy, .get .ok .ok]).mounts .xfsExport).length = 2 ∧
    ¬ Truthful (after [.get .ok .ok, .put tmpfsBusy]) :=
  ⟨by decide, by decide, by decide, fun h => absurd (h.tmpfs.1 (by decide)) (by decide)⟩

end NfsPlayground.Fixture
