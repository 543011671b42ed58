import NfsPlayground.Fixture.Refcount

/-!
# The export's mount options

`lastGiven cs` is the option string of the most recent `xfstests_nfs_export_opts()` of `cs`, forgotten whenever a call
runs teardown. The buffer always holds it, cut to what fits, or the default (`opts_after`), and a bring-up mounts the
tmpfs export with what the buffer holds when it starts (`export_opts_reach_bringup`).
-/

namespace NfsPlayground.Fixture

/-- The string given last, after the call `c` from the state `s`. -/
def givenAfter (s : State) (c : PublicCall) (given : Option CStr) : Option CStr :=
  match c with
  | .exportOpts opts => some opts
  | _ => if .teardown ∈ (step s c).2.log then none else given

def lastGivenFrom : State → List PublicCall → Option CStr → Option CStr
  | _, [], given => given
  | s, c :: cs, given => lastGivenFrom (step s c).2 cs (givenAfter s c given)

/-- The string of the most recent `exportOpts` since the last teardown, or since the module was loaded. -/
def lastGiven (cs : List PublicCall) : Option CStr := lastGivenFrom initial cs none

/-- What the buffer holds for a given string: its first 63 bytes, or the default. -/
def bufFor (given : Option CStr) : OptsBuf := strscpy (given.getD XFS_EXPORT_OPTS_DEFAULT)

/-- The option strings of the tmpfs mounts that a call asked for at `XFS_EXPORT`. -/
def exportMounts (s : State) (c : PublicCall) : List (Option CStr) :=
  (step s c).2.log.filterMap fun
    | .mountAt .xfsExport m => some m.opts
    | _ => none

/-- The call is a get that runs a bring-up which gets as far as mounting the export. -/
def MountsExport (s : State) : PublicCall → Prop
  | .get b _ => s.refs = 0 ∧ b.Prepares s
  | _ => False

instance (answer : Int) : Decidable (BringupAnswer.tolerated answer) :=
  inferInstanceAs (Decidable (_ ∨ _))

instance (b : BringupAnswer) (s : State) : Decidable (b.Prepares s) := inferInstanceAs (Decidable (_ ∧ _))

instance (s : State) : (c : PublicCall) → Decidable (MountsExport s c)
  | .exportOpts _ => inferInstanceAs (Decidable False)
  | .get _ _ => inferInstanceAs (Decidable (_ ∧ _))
  | .put _ => inferInstanceAs (Decidable False)

@[simp] theorem fresh_log (s : State) : s.fresh.log = [] := rfl
@[simp] theorem fresh_opts (s : State) : s.fresh.exportMountOpts = s.exportMountOpts := rfl

/-! ## The buffer holds the string given last -/

/-- Bring-up does not touch the buffer. -/
theorem bringup_opts (b : BringupAnswer) (s : State) : (xfsBringup b s).2.exportMountOpts = s.exportMountOpts := by
  have h := bringup_spec b s
  generalize xfsBringup b s = r at h
  cases h with
  | @up u _ => exact (putRoot_frame (withClient (withNfsd b s u))).2.1
  | _ => rfl

/-- A bring-up runs no teardown. -/
theorem bringup_no_teardown (b : BringupAnswer) (s : State) : .teardown ∉ (xfsBringup b s.fresh).2.log := by
  rw [← List.count_eq_zero, (bringup_log b s.fresh).2]
  rfl

theorem step_opts (s : State) (c : PublicCall) {given : Option CStr} (hs : s.exportMountOpts = bufFor given) :
    (step s c).2.exportMountOpts = bufFor (givenAfter s c given) := by
  cases c with
  | exportOpts opts => rfl
  | get b t =>
    by_cases h : s.refs = 0
    swap
    · simpa [givenAfter, step, get_shared b t (s := s.fresh) h] using hs
    by_cases h0 : (xfsBringup b s.fresh).1 = 0
    · simp only [givenAfter, step, get_first b t (s := s.fresh) h h0, bringup_no_teardown, if_false, bringup_opts]
      exact hs
    · simp only [givenAfter, step, get_failed b t (s := s.fresh) h h0, teardown_log, teardown_opts,
        List.mem_append, List.mem_singleton, or_true, if_true]
      rfl
  | put t =>
    by_cases h : s.refs ≤ 0
    · simpa [givenAfter, step, put_rejected t (s := s.fresh) h] using hs
    by_cases h1 : s.refs = 1
    · simp only [givenAfter, step, put_last t (s := s.fresh) h1, teardown_log, teardown_opts,
        List.mem_append, List.mem_singleton, or_true, if_true]
      rfl
    · simpa [givenAfter, step, put_shared t (s := s.fresh) h h1] using hs

theorem opts_exec : ∀ (cs : List PublicCall) {s : State} {given : Option CStr}, s.exportMountOpts = bufFor given →
    (Runs.exec step s cs).exportMountOpts = bufFor (lastGivenFrom s cs given)
  | [], _, _, hs => hs
  | c :: cs, _, _, hs => opts_exec cs (step_opts _ c hs)

theorem opts_after (cs : List PublicCall) : (after cs).exportMountOpts = bufFor (lastGiven cs) :=
  opts_exec cs rfl

/-! ## A bring-up mounts with what the buffer holds -/

/-- The export mounts that a bring-up asks for. -/
theorem bringup_exportMounts (b : BringupAnswer) (s : State) (hlog : s.log = []) :
    (xfsBringup b s).2.log.filterMap (fun | .mountAt .xfsExport m => some m.opts | _ => none) =
      if b.Prepares s then [some s.exportMountOpts.str] else [] := by
  have h := bringup_spec b s
  generalize xfsBringup b s = r at h
  cases h with
  | unprepared _ hP => simp [started, hlog, hP]
  | noTmpfs _ hP _ => simp [started, hlog, hP, tmpfsMount]
  | noNfsdfs _ hT _ => simp [started, withTmpfs, hlog, hT.1, tmpfsMount]
  | noExports _ hN _ => simp [started, withTmpfs, withNfsdfs, withServ, hlog, hN.1.1, tmpfsMount]
  | noNfsd _ hE _ => simp [started, withTmpfs, withNfsdfs, withServ, hlog, hE.1.1.1, tmpfsMount]
  | noClient _ hD _ => simp [started, withTmpfs, withNfsdfs, withServ, withNfsd, hlog, hD.nfsdfs.1.1, tmpfsMount]
  | @up u hC =>
    have hlog' : (captureRoot b.root (withClient (withNfsd b s u))).2.log = (withClient (withNfsd b s u)).log :=
      (putRoot_frame (withClient (withNfsd b s u))).2.2.2.2.2
    rw [hlog']
    simp [started, withTmpfs, withNfsdfs, withServ, withNfsd, withClient, hlog, hC.nfsdfs.1.1, tmpfsMount]

theorem exportMounts_eq (s : State) (c : PublicCall) :
    exportMounts s c = if MountsExport s c then [some s.exportMountOpts.str] else [] := by
  unfold exportMounts
  cases c with
  | exportOpts opts => rfl
  | get b t =>
    have hup := bringup_exportMounts b s.fresh rfl
    by_cases h : s.refs = 0
    swap
    · simp [step, get_shared b t (s := s.fresh) h, MountsExport, h]
    have hiff : MountsExport s (.get b t) ↔ b.Prepares s.fresh := and_iff_right h
    by_cases h0 : (xfsBringup b s.fresh).1 = 0
    · simp only [step, get_first b t (s := s.fresh) h h0, hup, hiff]
      rfl
    · simp only [step, get_failed b t (s := s.fresh) h h0, teardown_log, List.filterMap_append, hup, hiff]
      exact List.append_nil _
  | put t =>
    by_cases h : s.refs ≤ 0
    · simp [step, put_rejected t (s := s.fresh) h, MountsExport]
    by_cases h1 : s.refs = 1
    · simp [step, put_last t (s := s.fresh) h1, teardown_log, MountsExport]
    · simp [step, put_shared t (s := s.fresh) h h1, MountsExport]

/-- **Export options reach the next bring-up.** After any sequence of calls, a call that runs a bring-up mounts the
tmpfs export, if it gets so far, once and with what `strscpy()` keeps of the string given last since the previous
teardown, and with the default if there was none; no other call mounts it. -/
theorem export_opts_reach_bringup (cs : List PublicCall) (c : PublicCall) :
    exportMounts (after cs) c =
      if MountsExport (after cs) c then
        [some (match lastGiven cs with
          | some opts => (strscpy opts).str
          | none => XFS_EXPORT_OPTS_DEFAULT)]
      else [] := by
  rw [exportMounts_eq, opts_after]
  congr 3
  unfold bufFor
  cases lastGiven cs with
  | none => decide
  | some opts => rfl

/-- A string given while the deployment is up is gone at the next bring-up, and a long one is cut. -/
theorem export_opts_lost_at_teardown :
    exportMounts (after [.get .ok .ok, .exportOpts (.ofString "size=4096"), .put .ok]) (.get .ok .ok) =
      [some XFS_EXPORT_OPTS_DEFAULT] ∧
    XFS_EXPORT_OPTS_DEFAULT ≠ .ofString "size=4096" ∧
    exportMounts (after [.exportOpts ⟨List.replicate 64 120, by decide⟩]) (.get .ok .ok) =
      [some ⟨List.replicate 63 120, by decide⟩] := by
  refine ⟨?_, ?_, ?_⟩ <;> decide

end NfsPlayground.Fixture
