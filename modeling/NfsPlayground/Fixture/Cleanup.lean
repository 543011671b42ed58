import NfsPlayground.Fixture.Refcount

/-!
# What a failed bring-up leaves behind

The mounts a failed bring-up made are unmounted by the teardown that follows it (`failed_get_mounts`). The nfsd stage
is four calls behind one flag: when one of the two `svc_xprt_create()` calls fails, the service that
`nfsd_create_serv()` created stays, because `nfsd_up` was not set yet (`failed_get_nfsdServ`). So the state before the
get is restored exactly when the bring-up did not fail at a listener (`failed_get_restores_iff`).
-/

namespace NfsPlayground.Fixture

/-- No deployment: nobody holds one, nothing is flagged, and there is no nfsd service. -/
structure NoDeployment (s : State) : Prop where
  refs : s.refs = 0
  env : s.env = ⟨false, false, false, false⟩
  serv : s.nfsdServ = none

/-- Every unmount of the teardown does what it is called for. -/
structure TeardownAnswer.Succeeds (t : TeardownAnswer) : Prop where
  client : t.client.Detaches
  nfsdfs : t.nfsdfs.err = 0
  tmpfs : t.tmpfs.err = 0

/-- The bring-up reaches `xfs_start_nfsd()`, the service is created, and one of the listeners is not. -/
def BringupAnswer.FailsAtListener (b : BringupAnswer) (s : State) : Prop :=
  b.ReachesNfsd s ∧ 0 ≤ b.nfsd.createServ ∧ (b.nfsd.udp < 0 ∨ b.nfsd.tcp < 0)

/-- The three mount points and the nfsd service are as they were. -/
def Restored (s s' : State) : Prop :=
  s'.mounts .xfsExport = s.mounts .xfsExport ∧ s'.mounts .xfsNfsdfs = s.mounts .xfsNfsdfs ∧
    s'.mounts .xfsMnt = s.mounts .xfsMnt ∧ s'.nfsdServ = s.nfsdServ

/-- Without a service before, a failing `xfs_start_nfsd()` leaves one exactly when it was created and a listener
failed. -/
theorem startNfsd_leaves_none_iff {a : NfsdAnswer} (h0 : (xfsStartNfsd a none).1 ≠ 0) :
    (xfsStartNfsd a none).2 = none ↔ ¬ (0 ≤ a.createServ ∧ (a.udp < 0 ∨ a.tcp < 0)) := by
  rw [ne_eq, startNfsd_ok_iff] at h0
  unfold xfsStartNfsd nfsdCreateServ svcXprtCreate nfsdSvc
  grind

/-! ## After the failed bring-up, before its teardown -/

section Failed

variable {b : BringupAnswer} {s : State}

/-- The flag of each of the two server mounts says whether that mount is new, and the client mount is never made. -/
theorem bringup_err_mounts (h0 : (xfsBringup b s).1 ≠ 0) (henv : s.env = ⟨false, false, false, false⟩) :
    (xfsBringup b s).2.mounts .xfsMnt = s.mounts .xfsMnt ∧ (xfsBringup b s).2.env.clientMounted = false ∧
      (xfsBringup b s).2.mounts .xfsExport = (if (xfsBringup b s).2.env.tmpfsMounted then
        tmpfsMount s :: s.mounts .xfsExport else s.mounts .xfsExport) ∧
      (xfsBringup b s).2.mounts .xfsNfsdfs = (if (xfsBringup b s).2.env.nfsdfsMounted then
        nfsdfsMount :: s.mounts .xfsNfsdfs else s.mounts .xfsNfsdfs) := by
  have h := bringup_spec b s
  generalize xfsBringup b s = r at h h0
  cases h with
  | up _ => exact absurd rfl h0
  | _ => simp [started, withTmpfs, withNfsdfs, withServ, withNfsd, henv, tmpfsMount]

/-- Before nfsd is up there is a service exactly when the bring-up failed at a listener; once it is up, the flag is
set. -/
theorem bringup_err_serv (h0 : (xfsBringup b s).1 ≠ 0) (hs : NoDeployment s) :
    if (xfsBringup b s).2.env.nfsdUp then ¬ b.FailsAtListener s
    else ((xfsBringup b s).2.nfsdServ = none ↔ ¬ b.FailsAtListener s) := by
  have hserv := hs.serv
  have henv := hs.env
  have h := bringup_spec b s
  generalize xfsBringup b s = r at h h0
  -- short of `xfs_start_nfsd()` there was no service to leave
  have hno : ¬ b.ReachesNfsd s → ((none : Option NfsdServ) = none ↔ ¬ b.FailsAtListener s) := fun hE =>
    iff_of_true rfl fun hF => hE hF.1
  cases h with
  | unprepared _ hP => simpa [started, henv, hserv] using hno fun hE => hP hE.1.1.1
  | noTmpfs _ _ hT => simpa [started, henv, hserv] using hno fun hE => hT hE.1.1
  | noNfsdfs _ _ hN => simpa [started, withTmpfs, henv, hserv] using hno fun hE => hN hE.1
  | noExports _ _ hE => simpa [started, withTmpfs, withNfsdfs, withServ, henv, hserv] using hno hE
  | noNfsd _ hE hD =>
    have hfail : (xfsStartNfsd b.nfsd none).1 ≠ 0 := fun h1 => hD ⟨hE, by
      rw [hserv]; exact (startNfsd_ok_iff b.nfsd none).1 h1⟩
    have := startNfsd_leaves_none_iff hfail
    simpa [started, withTmpfs, withNfsdfs, withServ, henv, hserv, BringupAnswer.FailsAtListener, hE] using this
  | noClient _ hD _ =>
    have hF : ¬ b.FailsAtListener s := fun hF => by
      have := hD.2
      have := hF.2.2
      omega
    simpa [withNfsd] using hF
  | up _ => exact absurd rfl h0

end Failed

/-! ## After the teardown -/

section Get

variable {b : BringupAnswer} {t : TeardownAnswer} {s : State}

/-- A get on a module without deployment that fails is a failed bring-up and its teardown. -/
theorem failed_get (hs : s.refs = 0) (hf : (xfstestsNfsGet b t s).1 ≠ 0) :
    (xfsBringup b s).1 ≠ 0 ∧ (xfstestsNfsGet b t s).2 = xfsTeardown t (xfsBringup b s).2 := by
  by_cases h0 : (xfsBringup b s).1 = 0
  · rw [get_first b t hs h0] at hf
    exact absurd rfl hf
  · exact ⟨h0, by rw [get_failed b t hs h0]⟩

/-- The mounts of a failed bring-up are gone after a teardown whose unmounts succeed. -/
theorem failed_get_mounts (hs : NoDeployment s) (ht : t.Succeeds) (hf : (xfstestsNfsGet b t s).1 ≠ 0) :
    (xfstestsNfsGet b t s).2.mounts .xfsExport = s.mounts .xfsExport ∧
      (xfstestsNfsGet b t s).2.mounts .xfsNfsdfs = s.mounts .xfsNfsdfs ∧
      (xfstestsNfsGet b t s).2.mounts .xfsMnt = s.mounts .xfsMnt := by
  obtain ⟨h0, heq⟩ := failed_get hs.refs hf
  obtain ⟨hmnt, hclient, hexp, hnfsdfs⟩ := bringup_err_mounts h0 hs.env
  rw [heq, teardown_mounts_export, teardown_mounts_nfsdfs, teardown_mounts_mnt, hclient, hmnt, hexp, hnfsdfs]
  refine ⟨?_, ?_, rfl⟩
  · split
    · rw [umount_cons, if_pos ht.tmpfs]
    · rfl
  · split
    · rw [umount_cons, if_pos ht.nfsdfs]
    · rfl

/-- The service is gone after the teardown, unless the bring-up failed at a listener. -/
theorem failed_get_nfsdServ (hs : NoDeployment s) (hf : (xfstestsNfsGet b t s).1 ≠ 0) :
    (xfstestsNfsGet b t s).2.nfsdServ = none ↔ ¬ b.FailsAtListener s := by
  obtain ⟨h0, heq⟩ := failed_get hs.refs hf
  have hserv := bringup_err_serv h0 hs
  rw [heq, teardown_nfsdServ]
  by_cases hup : (xfsBringup b s).2.env.nfsdUp
  · rw [if_pos hup] at hserv ⊢
    exact iff_of_true rfl hserv
  · rwa [if_neg hup] at hserv ⊢

/-- **A failed bring-up leaves nothing behind** exactly when it did not fail at one of the two listeners. -/
theorem failed_get_restores_iff (hs : NoDeployment s) (ht : t.Succeeds) (hf : (xfstestsNfsGet b t s).1 ≠ 0) :
    Restored s (xfstestsNfsGet b t s).2 ↔ ¬ b.FailsAtListener s := by
  obtain ⟨hexp, hnfsdfs, hmnt⟩ := failed_get_mounts hs ht hf
  unfold Restored
  rw [hs.serv, ← failed_get_nfsdServ hs hf]
  exact ⟨fun h => h.2.2.2, fun h => ⟨hexp, hnfsdfs, hmnt, h⟩⟩

end Get

theorem ok_succeeds : TeardownAnswer.ok.Succeeds :=
  ⟨Or.inl ⟨0, by decide, fun _ h => absurd h (Nat.not_lt_zero _), rfl⟩, rfl, rfl⟩

/-- The address is in use: the tcp listener is refused. -/
def tcpRefused : BringupAnswer := { BringupAnswer.ok with nfsd := ⟨0, 2049, -98, 1⟩ }

/-- The client mount is refused, after everything before it succeeded. -/
def clientRefused : BringupAnswer := { BringupAnswer.ok with client := ⟨true, 0, -111⟩ }

theorem noDeployment_initial : NoDeployment initial := ⟨rfl, rfl, rfl⟩

theorem clientRefused_restores : Restored initial (xfstestsNfsGet clientRefused .ok initial).2 :=
  (failed_get_restores_iff noDeployment_initial ok_succeeds (by decide)).2 fun h =>
    absurd h.2.2 (by decide)

/-- After the refused tcp listener and a teardown that succeeds, the service and its udp listener are still there. -/
theorem tcpRefused_leaves_serv : NoDeployment initial ∧ TeardownAnswer.ok.Succeeds ∧
    (xfstestsNfsGet tcpRefused .ok initial).1 = -98 ∧
    (xfstestsNfsGet tcpRefused .ok initial).2.nfsdServ = some ⟨[("udp", 2049)], 0⟩ ∧
    ¬ Restored initial (xfstestsNfsGet tcpRefused .ok initial).2 :=
  ⟨noDeployment_initial, ok_succeeds, by decide, by decide, fun h => absurd h.2.2.2 (by decide)⟩

end NfsPlayground.Fixture
