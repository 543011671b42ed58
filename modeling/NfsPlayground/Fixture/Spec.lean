import NfsPlayground.Fixture.Deploy

/-!
# What bring-up and teardown do

- `bringup_spec`: the six ways `xfsBringup` can end, each with the exact state it leaves, told apart by predicates on
  the answers (`Prepares`, `MountsTmpfs`, `MountsNfsdfs`, `StartsNfsd`, `MountsClient`, each including the one
  before it);
- `teardown_*`: every field after `xfsTeardown`;
- `umountSettled_cons`: when the settled unmount takes the top mount off.

The results about runs use these and never unfold the two functions.
-/

namespace NfsPlayground.Fixture

open ErrChain

/-! ## How far a bring-up gets -/

namespace BringupAnswer

variable (a : BringupAnswer) (s : State)

def tolerated (answer : Int) : Prop := answer = 0 ∨ answer = -EEXIST

/-- Loopback is up and the four directories are there. -/
def Prepares : Prop :=
  (s.loUp = true ∨ a.devChangeFlags = 0) ∧ tolerated a.mkdirExport ∧ tolerated a.mkdirMntParent ∧
    tolerated a.mkdirMnt ∧ tolerated a.mkdirNfsdfs

def MountsTmpfs : Prop := a.Prepares s ∧ a.tmpfs.err (some s.exportMountOpts.str) = 0

def MountsNfsdfs : Prop := a.MountsTmpfs s ∧ a.nfsdfs.err none = 0

/-- The three cache lines are accepted, so that `xfs_start_nfsd()` is called. -/
def ReachesNfsd : Prop := a.MountsNfsdfs s ∧ a.ipMap.err = 0 ∧ a.svcExport.err = 0 ∧ a.expkey.err = 0

def StartsNfsd : Prop :=
  a.ReachesNfsd s ∧ (s.nfsdServ ≠ none ∨ 0 ≤ a.nfsd.createServ) ∧ 0 ≤ a.nfsd.udp ∧ 0 ≤ a.nfsd.tcp ∧ 0 ≤ a.nfsd.svc

def MountsClient : Prop := a.StartsNfsd s ∧ a.client.err (some XFS_CLIENT_OPTS) = 0

variable {a s}

theorem MountsNfsdfs.tmpfs (h : a.MountsNfsdfs s) : a.MountsTmpfs s := h.1
theorem StartsNfsd.nfsdfs (h : a.StartsNfsd s) : a.MountsNfsdfs s := h.1.1
theorem MountsClient.nfsdfs (h : a.MountsClient s) : a.MountsNfsdfs s := h.1.1.1

end BringupAnswer

/-! ## The nfsd stage -/

theorem startNfsd_ok_iff (a : NfsdAnswer) (serv : Option NfsdServ) :
    (xfsStartNfsd a serv).1 = 0 ↔ (serv ≠ none ∨ 0 ≤ a.createServ) ∧ 0 ≤ a.udp ∧ 0 ≤ a.tcp ∧ 0 ≤ a.svc := by
  unfold xfsStartNfsd nfsdCreateServ svcXprtCreate nfsdSvc
  cases serv <;> simp only [ne_eq, not_true_eq_false, reduceCtorEq, not_false_eq_true, true_or, false_or] <;>
    grind

/-! ## Bring-up -/

section Bringup

variable (a : BringupAnswer) (s : State)

/-- The state when the directories are made, with the loopback flag `u`. -/
def started (u : Bool) : State := { s with log := s.log ++ [.bringup], loUp := u }

def withTmpfs : State :=
  { s with
    log := s.log ++ [.mountAt .xfsExport (tmpfsMount s)]
    mounts := Function.update s.mounts .xfsExport (tmpfsMount s :: s.mounts .xfsExport)
    env := { s.env with tmpfsMounted := true } }

def withNfsdfs : State :=
  { s with
    log := s.log ++ [.mountAt .xfsNfsdfs nfsdfsMount]
    mounts := Function.update s.mounts .xfsNfsdfs (nfsdfsMount :: s.mounts .xfsNfsdfs)
    env := { s.env with nfsdfsMounted := true } }

def withClient : State :=
  { s with
    log := s.log ++ [.mountAt .xfsMnt clientMount]
    mounts := Function.update s.mounts .xfsMnt (clientMount :: s.mounts .xfsMnt)
    env := { s.env with clientMounted := true } }

/-- The state when tmpfs and nfsdfs are mounted, with the nfsd service `serv`. -/
def withServ (u : Bool) (serv : Option NfsdServ) : State :=
  { withNfsdfs (withTmpfs (started s u)) with nfsdServ := serv }

/-- The state when the nfsd stage has succeeded. -/
def withNfsd (u : Bool) : State :=
  { withServ s u (xfsStartNfsd a.nfsd s.nfsdServ).2 with
    env := { s.env with tmpfsMounted := true, nfsdfsMounted := true, nfsdUp := true } }

/-- The ways a bring-up can end. -/
inductive BringupSpec : Int × State → Prop
  | unprepared {err : Int} {u : Bool} : err ≠ 0 → ¬ a.Prepares s → BringupSpec (err, started s u)
  | noTmpfs {err : Int} {u : Bool} : err ≠ 0 → a.Prepares s → ¬ a.MountsTmpfs s →
      BringupSpec (err, (started s u).note (.mountAt .xfsExport (tmpfsMount s)))
  | noNfsdfs {err : Int} {u : Bool} : err ≠ 0 → a.MountsTmpfs s → ¬ a.MountsNfsdfs s →
      BringupSpec (err, (withTmpfs (started s u)).note (.mountAt .xfsNfsdfs nfsdfsMount))
  | noExports {err : Int} {u : Bool} : err ≠ 0 → a.MountsNfsdfs s → ¬ a.ReachesNfsd s →
      BringupSpec (err, withServ s u s.nfsdServ)
  | noNfsd {err : Int} {u : Bool} : err ≠ 0 → a.ReachesNfsd s → ¬ a.StartsNfsd s →
      BringupSpec (err, withServ s u (xfsStartNfsd a.nfsd s.nfsdServ).2)
  | noClient {err : Int} {u : Bool} : err ≠ 0 → a.StartsNfsd s → ¬ a.MountsClient s →
      BringupSpec (err, (withNfsd a s u).note (.mountAt .xfsMnt clientMount))
  | up {u : Bool} : a.MountsClient s → BringupSpec (0, (captureRoot a.root (withClient (withNfsd a s u))).2)

variable {a s}

theorem mkdirTolerant_ok_iff {answer : Int} {s : State} :
    (xfsMkdirTolerant answer s).1 = 0 ↔ BringupAnswer.tolerated answer := by
  unfold xfsMkdirTolerant BringupAnswer.tolerated
  split <;> simp_all

/-- The part before the first mount. -/
def prepare (a : BringupAnswer) : List (Call State) :=
  [assign (·.note .bringup), xfsLoopbackUp a.devChangeFlags, xfsMkdirTolerant a.mkdirExport,
    xfsMkdirTolerant a.mkdirMntParent, xfsMkdirTolerant a.mkdirMnt, xfsMkdirTolerant a.mkdirNfsdfs]

/-- The preparation leaves the state but for the loopback flag, and succeeds when the answers say so. -/
theorem prepare_spec (a : BringupAnswer) (s : State) :
    (∃ u, (chain (prepare a) s).2 = started s u) ∧ ((chain (prepare a) s).1 = 0 ↔ a.Prepares s) := by
  have hlo : ∃ u, (xfsLoopbackUp a.devChangeFlags (s.note .bringup)).2 = started s u := by
    unfold xfsLoopbackUp
    split
    · exact ⟨s.loUp, rfl⟩
    · exact ⟨_, rfl⟩
  have hlo0 : (xfsLoopbackUp a.devChangeFlags (s.note .bringup)).1 = 0 ↔ s.loUp = true ∨ a.devChangeFlags = 0 := by
    unfold xfsLoopbackUp State.note
    split <;> simp_all
  obtain ⟨u, hu⟩ := hlo
  unfold prepare
  rw [chain_ok (show (assign (·.note .bringup) s).1 = 0 from rfl)]
  show (∃ u, (chain _ (s.note .bringup)).2 = _) ∧ ((chain _ (s.note .bringup)).1 = 0 ↔ _)
  by_cases h1 : (xfsLoopbackUp a.devChangeFlags (s.note .bringup)).1 = 0
  · rw [chain_ok h1, hu]
    have hP : a.Prepares s ↔ BringupAnswer.tolerated a.mkdirExport ∧ BringupAnswer.tolerated a.mkdirMntParent ∧
        BringupAnswer.tolerated a.mkdirMnt ∧ BringupAnswer.tolerated a.mkdirNfsdfs := by
      unfold BringupAnswer.Prepares
      rw [and_iff_right (hlo0.1 h1)]
    rw [hP]
    constructor
    · refine ⟨u, chain_frame (V := id) ?_ _⟩
      intro f hf t
      simp only [List.mem_cons, List.not_mem_nil, or_false] at hf
      rcases hf with rfl | rfl | rfl | rfl <;> rfl
    · have hmk : ∀ answer, (xfsMkdirTolerant answer (started s u)).2 = started s u := fun _ => rfl
      rw [chain_readonly (hmk _), chain_readonly (hmk _), chain_readonly (hmk _), chain_readonly (hmk _)]
      simp only [mkdirTolerant_ok_iff, chain, and_true]
  · rw [chain_err h1, hu]
    refine ⟨⟨u, rfl⟩, ?_⟩
    simp only [h1, false_iff]
    exact fun hP => h1 (hlo0.2 hP.1)

theorem exports_spec (ipMap svcExport expkey : CacheAnswer) (s : State) :
    ∃ err, xfsConfigureExports ipMap svcExport expkey s = (err, s) ∧
      (err = 0 ↔ ipMap.err = 0 ∧ svcExport.err = 0 ∧ expkey.err = 0) := by
  have hline : ∀ a : CacheAnswer, (xfsCacheLine a s).2 = s := fun _ => rfl
  refine ⟨(xfsConfigureExports ipMap svcExport expkey s).1, Prod.ext rfl (chain_frame (V := id) ?_ s), ?_⟩
  · intro f hf t
    simp only [List.mem_cons, List.not_mem_nil, or_false] at hf
    rcases hf with rfl | rfl | rfl <;> rfl
  · unfold xfsConfigureExports
    rw [chain_readonly (hline _), chain_readonly (hline _), chain_readonly (hline _)]
    simp [xfsCacheLine, chain]

theorem mountAt_ok {a : MountAnswer} {m : Mount} (h : a.err m.opts = 0) (d : Dir) (s : State) :
    xfsMountAt a d m s = (0, s.mounted d m) := by simp [xfsMountAt, h]

theorem mountAt_err {a : MountAnswer} {m : Mount} (h : a.err m.opts ≠ 0) (d : Dir) (s : State) :
    xfsMountAt a d m s = (a.err m.opts, s.note (.mountAt d m)) := by simp [xfsMountAt, h]

theorem mountExport_ok {a : MountAnswer} {s : State} (h : a.err (tmpfsMount s).opts = 0) :
    mountExport a s = (0, s.mounted .xfsExport (tmpfsMount s)) :=
  mountAt_ok h _ s

theorem mountExport_err {a : MountAnswer} {s : State} (h : a.err (tmpfsMount s).opts ≠ 0) :
    mountExport a s = (a.err (tmpfsMount s).opts, s.note (.mountAt .xfsExport (tmpfsMount s))) := mountAt_err h _ s

theorem assign_eq (f : State → State) (s : State) : assign f s = (0, f s) := rfl

theorem onNfsd_withNfsdfs (f : Call (Option NfsdServ)) (s : State) (u : Bool) :
    onNfsd f (withNfsdfs (withTmpfs (started s u))) = ((f s.nfsdServ).1, withServ s u (f s.nfsdServ).2) := rfl

/-- **Bring-up** ends in one of seven ways. -/
theorem bringup_spec (a : BringupAnswer) (s : State) : BringupSpec a s (xfsBringup a s) := by
  obtain ⟨⟨u, hu⟩, hprep⟩ := prepare_spec a s
  show BringupSpec a s (chain (prepare a ++ _) s)
  by_cases hP : a.Prepares s
  swap
  · have h0 := mt hprep.1 hP
    have h := BringupSpec.unprepared (u := u) h0 hP
    rw [chain_append_err _ h0]
    rwa [← hu] at h
  rw [chain_append_ok _ (hprep.2 hP), hu]
  -- the tmpfs mount
  by_cases hT : a.MountsTmpfs s
  swap
  · have h0 : a.tmpfs.err (tmpfsMount (started s u)).opts ≠ 0 := fun h => hT ⟨hP, h⟩
    rw [chain_stop (mountExport_err h0) h0]
    exact .noTmpfs h0 hP hT
  rw [chain_step (mountExport_ok (s := started s u) hT.2), chain_step (assign_eq _ _)]
  show BringupSpec a s (chain _ (withTmpfs (started s u)))
  -- the nfsdfs mount
  by_cases hN : a.MountsNfsdfs s
  swap
  · have h0 : a.nfsdfs.err nfsdfsMount.opts ≠ 0 := fun h => hN ⟨hT, h⟩
    rw [chain_stop (mountAt_err h0 .xfsNfsdfs _) h0]
    exact .noNfsdfs h0 hT hN
  rw [chain_step (mountAt_ok (m := nfsdfsMount) hN.2 .xfsNfsdfs _), chain_step (assign_eq _ _)]
  show BringupSpec a s (chain _ (withNfsdfs (withTmpfs (started s u))))
  -- the exports
  obtain ⟨err, hex, hex0⟩ := exports_spec a.ipMap a.svcExport a.expkey (withNfsdfs (withTmpfs (started s u)))
  by_cases hE : a.ReachesNfsd s
  swap
  · have h0 : err ≠ 0 := fun h => hE ⟨hN, hex0.1 h⟩
    rw [chain_stop hex h0]
    exact .noExports h0 hN hE
  rw [hex0.2 hE.2] at hex
  rw [chain_step hex]
  -- nfsd
  have hserv := startNfsd_ok_iff a.nfsd s.nfsdServ
  have hstart := onNfsd_withNfsdfs (xfsStartNfsd a.nfsd) s u
  by_cases hD : a.StartsNfsd s
  swap
  · have h0 : (xfsStartNfsd a.nfsd s.nfsdServ).1 ≠ 0 := fun h => hD ⟨hE, hserv.1 h⟩
    rw [chain_stop hstart h0]
    exact .noNfsd h0 hE hD
  rw [hserv.2 hD.2] at hstart
  rw [chain_step hstart, chain_step (assign_eq _ _)]
  show BringupSpec a s (chain _ (withNfsd a s u))
  -- the client mount
  by_cases hC : a.MountsClient s
  swap
  · have h0 : a.client.err clientMount.opts ≠ 0 := fun h => hC ⟨hD, h⟩
    rw [chain_stop (mountAt_err h0 .xfsMnt _) h0]
    exact .noClient h0 hD hC
  rw [chain_step (mountAt_ok (m := clientMount) hC.2 .xfsMnt _), chain_step (assign_eq _ _)]
  exact .up hC

/-- Bring-up succeeds exactly when its last stage does. -/
theorem bringup_ok_iff (a : BringupAnswer) (s : State) : (xfsBringup a s).1 = 0 ↔ a.MountsClient s := by
  have h := bringup_spec a s
  generalize xfsBringup a s = r at h
  cases h with
  | unprepared h0 hP => exact iff_of_false h0 fun h => hP h.1.1.1.1.1
  | noTmpfs h0 _ hT => exact iff_of_false h0 fun h => hT h.nfsdfs.tmpfs
  | noNfsdfs h0 _ hN => exact iff_of_false h0 fun h => hN h.nfsdfs
  | noExports h0 _ hE => exact iff_of_false h0 fun h => hE h.1.1
  | noNfsd h0 _ hD => exact iff_of_false h0 fun h => hD h.1
  | noClient h0 _ hC => exact iff_of_false h0 hC
  | up hC => exact iff_of_true rfl hC

@[simp] theorem putRoot_frame (s : State) : s.putRoot.refs = s.refs ∧ s.putRoot.exportMountOpts = s.exportMountOpts ∧
    s.putRoot.env = s.env ∧ s.putRoot.mounts = s.mounts ∧ s.putRoot.nfsdServ = s.nfsdServ ∧
    s.putRoot.log = s.log := by
  unfold State.putRoot
  split <;> simp [State.pathPut]

/-- Bring-up does not touch the count. -/
theorem bringup_refs (a : BringupAnswer) (s : State) : (xfsBringup a s).2.refs = s.refs := by
  have h := bringup_spec a s
  generalize xfsBringup a s = r at h
  cases h with
  | @up u _ => exact (putRoot_frame (withClient (withNfsd a s u))).1
  | _ => rfl

/-- A failed bring-up has not captured a root. -/
theorem bringup_err_root {a : BringupAnswer} {s : State} (h0 : (xfsBringup a s).1 ≠ 0) :
    (xfsBringup a s).2.bringupRoot = s.bringupRoot ∧ (xfsBringup a s).2.pathRefs = s.pathRefs := by
  have h := bringup_spec a s
  generalize xfsBringup a s = r at h h0
  cases h with
  | up _ => exact absurd rfl h0
  | _ => exact ⟨rfl, rfl⟩

/-- A bring-up on a module that holds no root takes one reference on the caller's. -/
theorem bringup_ok {a : BringupAnswer} {s : State} (h0 : (xfsBringup a s).1 = 0) (hr : s.bringupRoot = none) :
    (xfsBringup a s).2.env = ⟨true, true, true, true⟩ ∧ (xfsBringup a s).2.bringupRoot = some a.root ∧
      (xfsBringup a s).2.pathRefs = Function.update s.pathRefs a.root (s.pathRefs a.root + 1) := by
  have h := bringup_spec a s
  generalize xfsBringup a s = r at h h0
  cases h with
  | @up u _ =>
    have hput : (withClient (withNfsd a s u)).putRoot = withClient (withNfsd a s u) := by
      unfold State.putRoot
      rw [show (withClient (withNfsd a s u)).bringupRoot = none from hr]
    unfold captureRoot assign
    simp only [hput]
    exact ⟨rfl, rfl, rfl⟩
  | _ => contradiction

/-- A bring-up that succeeds has stacked one mount on each of the three directories. -/
theorem bringup_ok_mounts {a : BringupAnswer} {s : State} (h0 : (xfsBringup a s).1 = 0) :
    (xfsBringup a s).2.mounts .xfsExport = tmpfsMount s :: s.mounts .xfsExport ∧
      (xfsBringup a s).2.mounts .xfsNfsdfs = nfsdfsMount :: s.mounts .xfsNfsdfs ∧
      (xfsBringup a s).2.mounts .xfsMnt = clientMount :: s.mounts .xfsMnt := by
  have h := bringup_spec a s
  generalize xfsBringup a s = r at h h0
  cases h with
  | @up u _ =>
    have hm : (captureRoot a.root (withClient (withNfsd a s u))).2.mounts = (withClient (withNfsd a s u)).mounts :=
      (putRoot_frame (withClient (withNfsd a s u))).2.2.2.1
    rw [hm]
    simp [withClient, withNfsd, withServ, withNfsdfs, withTmpfs, started, tmpfsMount]
  | _ => contradiction

end Bringup

/-! ## Unmounting -/

theorem umount_cons (a : UmountAnswer) (m : Mount) (ms : List Mount) :
    xfsUmount a (m :: ms) = if a.err = 0 then (0, ms) else (a.err, m :: ms) := by
  unfold xfsUmount UmountAnswer.err pathUmount
  split <;> simp_all

/-- The first try that is not `-EBUSY` unmounts, or every try is busy and the lazy detach does. -/
def SettleAnswer.Detaches (a : SettleAnswer) : Prop :=
  (∃ n < 20, (∀ i < n, (a.tries i).err = -EBUSY) ∧ (a.tries n).err = 0) ∨
    ((∀ i < 20, (a.tries i).err = -EBUSY) ∧ a.detach.err = 0)

/-- The tries end with the first answer that is not `-EBUSY`, if there is one. -/
theorem umountTries_cons (a : SettleAnswer) (m : Mount) (ms : List Mount) : ∀ left ≤ 20,
    (∃ n < 20, (∀ i, 20 - left ≤ i → i < n → (a.tries i).err = -EBUSY) ∧ (a.tries n).err ≠ -EBUSY ∧
      20 - left ≤ n ∧
      umountTries a left (-EBUSY) (m :: ms) = ((a.tries n).err, if (a.tries n).err = 0 then ms else m :: ms)) ∨
    ((∀ i, 20 - left ≤ i → i < 20 → (a.tries i).err = -EBUSY) ∧
      umountTries a left (-EBUSY) (m :: ms) = (-EBUSY, m :: ms))
  | 0, _ => Or.inr ⟨fun i h1 h2 => by omega, rfl⟩
  | left + 1, hle => by
    rw [umountTries, if_pos rfl, umount_cons]
    by_cases hb : (a.tries (20 - (left + 1))).err = -EBUSY
    · have hne : ¬ (a.tries (20 - (left + 1))).err = 0 := by rw [hb]; decide
      rw [if_neg hne, hb]
      rcases umountTries_cons a m ms left (by omega) with ⟨n, hn, hbusy, hend, hle', heq⟩ | ⟨hbusy, heq⟩
      · refine Or.inl ⟨n, hn, fun i h1 h2 => ?_, hend, by omega, heq⟩
        by_cases hi : i = 20 - (left + 1)
        · rw [hi, hb]
        · exact hbusy i (by omega) h2
      · refine Or.inr ⟨fun i h1 h2 => ?_, heq⟩
        by_cases hi : i = 20 - (left + 1)
        · rw [hi, hb]
        · exact hbusy i (by omega) h2
    · refine Or.inl ⟨20 - (left + 1), by omega, fun i h1 h2 => by omega, hb, Nat.le_refl _, ?_⟩
      -- the loop condition fails at its next test
      have hstop : ∀ l st, umountTries a l (a.tries (20 - (left + 1))).err st =
          ((a.tries (20 - (left + 1))).err, st) := by
        intro l st
        cases l with
        | zero => rfl
        | succ l => rw [umountTries, if_neg hb]
      by_cases h0 : (a.tries (20 - (left + 1))).err = 0
      · have := hstop left ms
        rw [h0] at this ⊢
        simpa only [if_true] using this
      · simpa only [if_neg h0] using hstop left (m :: ms)

/-- The settled unmount takes the top mount off exactly when the answers say so. -/
theorem umountSettled_cons (a : SettleAnswer) (m : Mount) (ms : List Mount) :
    (a.Detaches ∧ xfsUmountSettled a (m :: ms) = (0, ms)) ∨
      (¬ a.Detaches ∧ (xfsUmountSettled a (m :: ms)).1 ≠ 0 ∧ (xfsUmountSettled a (m :: ms)).2 = m :: ms) := by
  unfold xfsUmountSettled
  rcases umountTries_cons a m ms 20 (Nat.le_refl _) with ⟨n, hn, hbusy, hend, -, heq⟩ | ⟨hbusy, heq⟩
  · simp only [heq, hend, false_and, if_false]
    by_cases h0 : (a.tries n).err = 0
    · exact Or.inl ⟨Or.inl ⟨n, hn, fun i hi => hbusy i (by omega) hi, h0⟩, by simp [h0]⟩
    · refine Or.inr ⟨?_, h0, by simp [h0]⟩
      rintro (⟨k, hk, hkb, hk0⟩ | ⟨hall, -⟩)
      · -- the first answer that is not busy is both `n` and `k`
        rcases Nat.lt_trichotomy k n with h | h | h
        · exact absurd (hbusy k (by omega) h) (by rw [hk0]; decide)
        · exact h0 (h ▸ hk0)
        · exact hend (hkb n h)
      · exact hend (hall n hn)
  · simp only [heq, true_and]
    have hno : ¬ ∃ n < 20, (∀ i < n, (a.tries i).err = -EBUSY) ∧ (a.tries n).err = 0 := by
      rintro ⟨n, hn, -, h0⟩
      exact absurd (hbusy n (by omega) hn) (by rw [h0]; decide)
    by_cases hk : a.detach.kernPath = 0
    · simp only [hk, if_true, pathUmount]
      have herr : a.detach.err = a.detach.pathUmount := by simp [UmountAnswer.err, hk]
      by_cases h0 : a.detach.pathUmount = 0
      · exact Or.inl ⟨Or.inr ⟨fun i hi => hbusy i (by omega) hi, by rw [herr, h0]⟩, by simp [h0]⟩
      · refine Or.inr ⟨?_, by simp [h0], by simp [h0]⟩
        rintro (h | ⟨-, h⟩)
        · exact hno h
        · exact h0 (herr ▸ h)
    · simp only [hk, if_false]
      refine Or.inr ⟨?_, by decide, trivial⟩
      rintro (h | ⟨-, h⟩)
      · exact hno h
      · simp [UmountAnswer.err, hk] at h

/-! ## Teardown -/

section Teardown

variable (s : State)

@[simp] theorem note_fields (e : Event) : (s.note e).refs = s.refs ∧ (s.note e).exportMountOpts = s.exportMountOpts ∧
    (s.note e).bringupRoot = s.bringupRoot ∧ (s.note e).env = s.env ∧
    (s.note e).hostbinMounted = s.hostbinMounted ∧ (s.note e).loUp = s.loUp ∧ (s.note e).mounts = s.mounts ∧
    (s.note e).nfsdServ = s.nfsdServ ∧ (s.note e).pathRefs = s.pathRefs ∧ (s.note e).log = s.log ++ [e] :=
  ⟨rfl, rfl, rfl, rfl, rfl, rfl, rfl, rfl, rfl, rfl⟩

/-- An unmount changes the mounts only. -/
@[simp] theorem umountAt_frame (d : Dir) (f : Call (List Mount)) :
    (s.umountAt d f).refs = s.refs ∧ (s.umountAt d f).bringupRoot = s.bringupRoot ∧
    (s.umountAt d f).env = s.env ∧ (s.umountAt d f).nfsdServ = s.nfsdServ ∧
    (s.umountAt d f).pathRefs = s.pathRefs ∧ (s.umountAt d f).log = s.log := ⟨rfl, rfl, rfl, rfl, rfl, rfl⟩

@[simp] theorem umountAt_mounts (d e : Dir) (f : Call (List Mount)) :
    (s.umountAt d f).mounts e = if e = d then (f (s.mounts d)).2 else s.mounts e := by
  simp [State.umountAt, Function.update_apply]

@[simp] theorem hostbinUmount_frame (a : SettleAnswer) :
    (xfsHostbinUmount a s).refs = s.refs ∧ (xfsHostbinUmount a s).bringupRoot = s.bringupRoot ∧
    (xfsHostbinUmount a s).env = s.env ∧ (xfsHostbinUmount a s).nfsdServ = s.nfsdServ ∧
    (xfsHostbinUmount a s).pathRefs = s.pathRefs ∧ (xfsHostbinUmount a s).log = s.log := by
  unfold xfsHostbinUmount
  split <;> simp

theorem hostbinUmount_mounts (a : SettleAnswer) {d : Dir} (hd : d ≠ .xfsHostbin) :
    (xfsHostbinUmount a s).mounts d = s.mounts d := by
  unfold xfsHostbinUmount
  split <;> simp [hd]

section DropMount

variable (flag : Env → Bool) (clear : Env → Env) (d : Dir) (f : Call (List Mount))

/-- `dropMount` changes the mounts and the flags only. -/
@[simp] theorem dropMount_frame :
    (s.dropMount flag clear d f).refs = s.refs ∧ (s.dropMount flag clear d f).bringupRoot = s.bringupRoot ∧
    (s.dropMount flag clear d f).nfsdServ = s.nfsdServ ∧ (s.dropMount flag clear d f).pathRefs = s.pathRefs ∧
    (s.dropMount flag clear d f).log = s.log := by
  unfold State.dropMount
  split <;> simp

@[simp] theorem dropMount_env :
    (s.dropMount flag clear d f).env = if flag s.env then clear s.env else s.env := by
  unfold State.dropMount
  split <;> rfl

@[simp] theorem dropMount_mounts (e : Dir) : (s.dropMount flag clear d f).mounts e =
    if e = d ∧ flag s.env = true then (f (s.mounts d)).2 else s.mounts e := by
  unfold State.dropMount
  by_cases h : flag s.env <;> simp [h]

/-- A flag that `clear` leaves alone. -/
theorem dropMount_flag {p : Env → Bool} (h : ∀ e, p (clear e) = p e) :
    p (s.dropMount flag clear d f).env = p s.env := by
  rw [dropMount_env]
  split
  · exact h _
  · rfl

end DropMount

/-- `dropNfsd` changes the service and its flag only. -/
@[simp] theorem dropNfsd_frame (answer : Int) :
    (s.dropNfsd answer).refs = s.refs ∧ (s.dropNfsd answer).bringupRoot = s.bringupRoot ∧
    (s.dropNfsd answer).mounts = s.mounts ∧ (s.dropNfsd answer).pathRefs = s.pathRefs ∧
    (s.dropNfsd answer).log = s.log := by
  unfold State.dropNfsd
  split <;> simp

@[simp] theorem dropNfsd_env (answer : Int) : (s.dropNfsd answer).env = { s.env with nfsdUp := false } := by
  unfold State.dropNfsd
  split
  · rfl
  · rename_i h
    simp only [Bool.not_eq_true] at h
    simp [← h]

@[simp] theorem dropNfsd_nfsdServ (answer : Int) :
    (s.dropNfsd answer).nfsdServ = if s.env.nfsdUp then none else s.nfsdServ := by
  unfold State.dropNfsd
  split <;> simp [nfsdSvc]

variable (a : TeardownAnswer)

theorem teardown_refs : (xfsTeardown a s).refs = s.refs := by simp [xfsTeardown]

theorem teardown_opts : (xfsTeardown a s).exportMountOpts = strscpy XFS_EXPORT_OPTS_DEFAULT := by
  simp [xfsTeardown]

theorem teardown_root : (xfsTeardown a s).bringupRoot = none := rfl

theorem teardown_log : (xfsTeardown a s).log = s.log ++ [.teardown] := by simp [xfsTeardown]

/-- Every flag is cleared, whatever the calls answered. -/
theorem teardown_env : (xfsTeardown a s).env = ⟨false, false, false, false⟩ := by
  simp only [xfsTeardown, putRoot_frame, dropMount_env, dropNfsd_env, umountAt_frame, hostbinUmount_frame,
    note_fields]
  obtain ⟨_ | _, _ | _, _ | _, _ | _⟩ := s.env <;> rfl

theorem teardown_pathRefs : (xfsTeardown a s).pathRefs = s.putRoot.pathRefs := by
  unfold xfsTeardown State.putRoot
  cases h : s.bringupRoot <;> simp [h, State.pathPut]

theorem teardown_nfsdServ : (xfsTeardown a s).nfsdServ = if s.env.nfsdUp then none else s.nfsdServ := by
  simp only [xfsTeardown, putRoot_frame, dropMount_frame, dropMount_env, dropNfsd_nfsdServ, umountAt_frame,
    hostbinUmount_frame, note_fields]
  split <;> split <;> simp_all

theorem teardown_mounts_mnt : (xfsTeardown a s).mounts .xfsMnt =
    if s.env.clientMounted then (xfsUmountSettled a.client (s.mounts .xfsMnt)).2 else s.mounts .xfsMnt := by
  simp [xfsTeardown, hostbinUmount_mounts]

theorem teardown_mounts_nfsdfs : (xfsTeardown a s).mounts .xfsNfsdfs =
    if s.env.nfsdfsMounted then (xfsUmount a.nfsdfs (s.mounts .xfsNfsdfs)).2 else s.mounts .xfsNfsdfs := by
  simp only [xfsTeardown, putRoot_frame, dropMount_mounts, dropMount_env, dropNfsd_env, dropNfsd_frame,
    umountAt_mounts, umountAt_frame, hostbinUmount_frame, note_fields, reduceCtorEq, false_and, if_false, true_and,
    ne_eq, not_false_eq_true, hostbinUmount_mounts]
  split <;> split <;> simp_all

theorem teardown_mounts_export : (xfsTeardown a s).mounts .xfsExport =
    if s.env.tmpfsMounted then (xfsUmount a.tmpfs (s.mounts .xfsExport)).2 else s.mounts .xfsExport := by
  -- the flag is that of the state before, through the two other blocks
  have hn : ∀ (t : State) (f : Call (List Mount)), (t.dropMount Env.nfsdfsMounted
      (fun e => { e with nfsdfsMounted := false }) .xfsNfsdfs f).env.tmpfsMounted = t.env.tmpfsMounted :=
    fun t f => dropMount_flag t _ _ _ f (p := Env.tmpfsMounted) fun _ => rfl
  have hc : ∀ (t : State) (f : Call (List Mount)), (t.dropMount Env.clientMounted
      (fun e => { e with clientMounted := false }) .xfsMnt f).env.tmpfsMounted = t.env.tmpfsMounted :=
    fun t f => dropMount_flag t _ _ _ f (p := Env.tmpfsMounted) fun _ => rfl
  simp only [xfsTeardown, putRoot_frame, dropMount_mounts, hn, hc, dropNfsd_env, dropNfsd_frame,
    umountAt_mounts, umountAt_frame, hostbinUmount_frame, note_fields, reduceCtorEq, false_and, if_false, true_and,
    ne_eq, not_false_eq_true, hostbinUmount_mounts]

end Teardown

end NfsPlayground.Fixture
