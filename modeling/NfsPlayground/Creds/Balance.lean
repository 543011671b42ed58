import NfsPlayground.Creds.Switch

/-!
# Credential switching is balanced

Between calls the task is either `Idle`, on the cred it had when the module was loaded, or `Active` on an override that
holds all the references of its cred. Every call keeps this (`step_balanced`) and the counts of `holders`, under both
contracts of `override_creds()`.
-/

namespace NfsPlayground.Creds

open Refs

/-- The references a cred has while it overrides: its own, and under `extraRef` that of `override_creds()`. -/
def Contract.refs : Contract → Nat
  | .extraRef => 2
  | .noRef => 1

/-- Who holds references between calls. -/
def holders (k : Contract) (others : Nat) (override : Option CredId) : CredId → Nat := fun i =>
  if i = 0 then others + 1 else if override = some i then k.refs else 0

def Idle (s : State) : Prop := s.savedCreds = none ∧ s.override = none ∧ s.current = 0

def Active (s : State) (c : CredId) : Prop :=
  c ≠ 0 ∧ s.savedCreds = some 0 ∧ s.override = some c ∧ s.current = c

structure Balanced (k : Contract) (others : Nat) (s : State) : Prop where
  counts : Counts s.table (holders k others s.override)
  statics : Idle s ∨ ∃ c, Active s c
  /-- No count reached zero while its cred was the current one. -/
  unused : ∀ p ∈ s.table.zeroed, p.1 ≠ p.2

variable {k : Contract} {others : Nat} {s : State}

theorem balanced_initial (k : Contract) (task : Cred) (others : Nat) : Balanced k others (initial task others) where
  counts :=
    { usage := fun i => by
        simp only [initial, holders]
        split <;> simp
      unused := fun i hle => by
        have h1 : 1 ≤ i := hle
        simp only [initial, holders, Table.timesZeroed]
        exact ⟨by rw [if_neg (Nat.ne_of_gt h1)]; rfl, rfl⟩
      once := fun i hlt => by
        have h1 : i < 1 := hlt
        simp [initial, holders, Table.timesZeroed, show i = 0 by omega] }
  statics := Or.inl ⟨rfl, rfl, rfl⟩
  unused := fun p hp => absurd hp List.not_mem_nil

/-- The next identity is not that of the task's cred. -/
theorem Balanced.next_pos (h : Balanced k others s) : 0 < s.table.next :=
  h.counts.lt_next (i := 0) (by simp [holders])

/-- The current cred has been allocated. -/
theorem Balanced.current_lt (h : Balanced k others s) : s.current < s.table.next := by
  rcases h.statics with ⟨-, -, hcur⟩ | ⟨c, hc, -, ho, hcur⟩
  · rw [hcur]
    exact h.next_pos
  · refine h.counts.lt_next ?_
    rw [hcur, holders, if_neg hc, if_pos ho]
    cases k <;> decide

/-! ## Taking an override and giving it back -/

theorem update_holders {n : CredId} (hn : n ≠ 0) :
    Function.update (holders k others none) n k.refs = holders k others (some n) := by
  funext i
  by_cases hi : i = n
  · subst hi
    simp [holders, hn]
  · simp [holders, hi, Ne.symm hi]

/-- An override put into force from the idle state, whatever was written into its cred. -/
theorem active_override (h : Balanced k others s) (hi : Idle s) (cred : CredId → Cred) :
    Balanced k others
      { (({ s with table := s.table.alloc, cred := cred, override := some s.table.next } : State).overrideCreds k
          s.table.next) with savedCreds := some s.current } := by
  obtain ⟨hs, ho, hcur⟩ := hi
  have hn : s.table.next ≠ 0 := Nat.pos_iff_ne_zero.1 h.next_pos
  have hc := h.counts
  rw [ho] at hc
  refine ⟨?_, Or.inr ⟨s.table.next, hn, congrArg some hcur, rfl, rfl⟩, ?_⟩
  · show Counts _ (holders k others (some s.table.next))
    rw [← update_holders hn]
    cases k with
    | extraRef => exact hc.alloc_get
    | noRef => exact hc.alloc
  · cases k <;> exact h.unused

/-- A prepared cred that is aborted before it overrides. -/
theorem balanced_abort (h : Balanced k others s) (cred : CredId → Cred) :
    Balanced k others
      (({ s with table := s.table.alloc, cred := cred } : State).abortCreds s.table.next) where
  counts := h.counts.alloc_put s.current
  statics := h.statics
  unused p hp := by
    rcases Table.mem_put hp with hp | rfl
    · exact h.unused p hp
    · exact (Nat.ne_of_lt h.current_lt).symm

/-- A cred that overrides for the time of one call, on top of whatever is in force. -/
theorem balanced_nested (h : Balanced k others s) (cred : CredId → Cred) :
    Balanced k others
      (((({ s with table := s.table.alloc, cred := cred } : State).overrideCreds k s.table.next).revertCreds k
        s.current).putCred s.table.next) := by
  have hne : s.table.next ≠ s.current := (Nat.ne_of_lt h.current_lt).symm
  cases k with
  | extraRef =>
    refine ⟨h.counts.alloc_get_put_put s.current s.current, h.statics, fun p hp => ?_⟩
    rcases Table.mem_put hp with hp | rfl
    · rcases Table.mem_put hp with hp | rfl
      · exact h.unused p hp
      · exact hne
    · exact hne
  | noRef =>
    refine ⟨h.counts.alloc_put s.current, h.statics, fun p hp => ?_⟩
    rcases Table.mem_put hp with hp | rfl
    · exact h.unused p hp
    · exact hne

/-- A restore puts all the references of the override, and it does so when the task's cred is current again. -/
theorem restore_active (h : Balanced k others s) {c : CredId} (ha : Active s c) :
    Balanced k others (xfsRestoreCreds k s) ∧ Idle (xfsRestoreCreds k s) := by
  obtain ⟨hc, hs, ho, hcur⟩ := ha
  have hcounts := h.counts
  rw [ho, ← update_holders hc] at hcounts
  have hzero : Function.update (holders k others none) c 0 = holders k others none := by
    rw [Function.update_eq_self_iff, holders, if_neg hc, if_neg (by simp)]
  cases k with
  | extraRef =>
    have hput := (hcounts.put 0 (i := c) (by simp [Contract.refs])).put 0 (i := c) (by simp [Contract.refs])
    simp only [Contract.refs, Function.update_self, Function.update_idem, hzero] at hput
    simp only [xfsRestoreCreds, hs, State.revertCreds, State.putCred, ho, hcur]
    refine ⟨⟨hput, Or.inl ⟨rfl, rfl, rfl⟩, fun p hp => ?_⟩, rfl, rfl, rfl⟩
    rcases Table.mem_put hp with hp | rfl
    · rcases Table.mem_put hp with hp | rfl
      · exact h.unused p hp
      · exact hc
    · exact hc
  | noRef =>
    have hput := hcounts.put 0 (i := c) (by simp [Contract.refs])
    simp only [Contract.refs, Function.update_self, Function.update_idem, hzero] at hput
    simp only [xfsRestoreCreds, hs, State.revertCreds, State.putCred, ho]
    refine ⟨⟨hput, Or.inl ⟨rfl, rfl, rfl⟩, fun p hp => ?_⟩, rfl, rfl, rfl⟩
    rcases Table.mem_put hp with hp | rfl
    · exact h.unused p hp
    · exact hc

/-! ## The calls -/

/-- A restore ends idle, wherever it is called. -/
theorem restore_balanced (h : Balanced k others s) :
    Balanced k others (xfsRestoreCreds k s) ∧ Idle (xfsRestoreCreds k s) := by
  rcases h.statics with hi | ⟨c, ha⟩
  · rw [xfsRestoreCreds, hi.1]
    exact ⟨h, hi⟩
  · exact restore_active h ha

theorem switch_balanced (h : Balanced k others s) (prepare : Bool) (uid gid : UInt32) :
    Balanced k others (xfsSwitchCreds k prepare uid gid s).2 := by
  rcases h.statics with hi | ⟨c, -, hs, -⟩
  · cases prepare with
    | false => simpa [xfsSwitchCreds, hi.1] using h
    | true =>
      simp only [xfsSwitchCreds, hi.1, Option.isSome_none]
      exact active_override h hi _
  · simpa [xfsSwitchCreds, hs] using h

theorem seteuid_balanced (h : Balanced k others s) (prepare : Bool) (fix : FixSetuid) (uid : UInt32) :
    Balanced k others (xfsSeteuid k prepare fix uid s).2 := by
  rcases h.statics with hi | ⟨c, -, hs, -⟩
  · cases prepare with
    | false => simpa [xfsSeteuid, hi.1] using h
    | true =>
      simp only [xfsSeteuid, hi.1, Option.isSome_none]
      by_cases herr : fix.err = 0
      · simp only [herr]
        exact active_override h hi _
      · simp only [ne_eq, herr, not_false_eq_true, if_true]
        exact balanced_abort h _
  · simpa [xfsSeteuid, hs] using h

theorem access_balanced (h : Balanced k others s) (prepare : Bool) (kernPath inodePermission : Int) :
    Balanced k others (xfsAccess k prepare kernPath inodePermission s).2 := by
  cases prepare with
  | false => exact h
  | true => exact balanced_nested h _

theorem step_balanced (s : State) (c : CredCall) (h : Balanced k others s) : Balanced k others (step k s c).2 := by
  cases c with
  | switch prepare uid gid => exact switch_balanced h prepare uid gid
  | seteuid prepare fix uid => exact seteuid_balanced h prepare fix uid
  | restore => exact (restore_balanced h).1
  | access prepare kernPath inodePermission => exact access_balanced h prepare kernPath inodePermission

theorem balanced_after (k : Contract) (task : Cred) (others : Nat) (cs : List CredCall) :
    Balanced k others (after k task others cs) :=
  Runs.exec_inv' (I := Balanced k others) step_balanced cs (balanced_initial k task others)

/-! ## What a call leaves alone -/

/-- The fields a caller sees: the current cred and the two statics. -/
def SameInForce (s s' : State) : Prop :=
  s'.current = s.current ∧ s'.savedCreds = s.savedCreds ∧ s'.override = s.override

/-- An access check leaves everything in force as it was, whatever it answers. -/
theorem access_sameInForce (k : Contract) (s : State) (prepare : Bool) (kernPath inodePermission : Int) :
    SameInForce s (step k s (.access prepare kernPath inodePermission)).2 := by
  cases prepare with
  | false => exact ⟨rfl, rfl, rfl⟩
  | true => cases k <;> exact ⟨rfl, rfl, rfl⟩

/-- So does every call that fails. -/
theorem failed_sameInForce (k : Contract) (s : State) (c : CredCall) (h : (step k s c).1 ≠ 0) :
    SameInForce s (step k s c).2 := by
  cases c with
  | switch prepare uid gid =>
    simp only [step, xfsSwitchCreds] at h ⊢
    split
    · exact ⟨rfl, rfl, rfl⟩
    · cases prepare <;> simp_all [SameInForce]
  | seteuid prepare fix uid =>
    simp only [step, xfsSeteuid] at h ⊢
    split
    · exact ⟨rfl, rfl, rfl⟩
    · cases prepare with
      | false => exact ⟨rfl, rfl, rfl⟩
      | true =>
        by_cases herr : fix.err = 0
        · simp_all
        · simp only [ne_eq, herr, not_false_eq_true, if_true]
          exact ⟨rfl, rfl, rfl⟩
  | restore => exact absurd rfl h
  | access prepare kernPath inodePermission => exact access_sameInForce k s prepare kernPath inodePermission

/-- The calls that put an override into force. -/
def CredCall.Switches : CredCall → Prop
  | .switch _ _ _ | .seteuid _ _ _ => True
  | _ => False

/-- A switch while one is in force is refused. -/
theorem switches_busy (k : Contract) {s : State} {c : CredCall} (hc : c.Switches) (hs : s.savedCreds ≠ none) :
    step k s c = (-EBUSY, s) := by
  have hsome := Option.isSome_iff_ne_none.2 hs
  cases c with
  | switch prepare uid gid => simp [step, xfsSwitchCreds, hsome]
  | seteuid prepare fix uid => simp [step, xfsSeteuid, hsome]
  | _ => exact hc.elim

/-- A switch that succeeds saves the current cred. -/
theorem switches_saved (k : Contract) {s : State} {c : CredCall} (hc : c.Switches) (h0 : (step k s c).1 = 0) :
    (step k s c).2.savedCreds = some s.current := by
  cases c with
  | switch prepare uid gid =>
    simp only [step, xfsSwitchCreds] at h0 ⊢
    split
    · simp_all [EBUSY]
    · cases prepare with
      | false => simp_all [ENOMEM]
      | true => cases k <;> rfl
  | seteuid prepare fix uid =>
    simp only [step, xfsSeteuid] at h0 ⊢
    split
    · simp_all [EBUSY]
    · cases prepare with
      | false => simp_all [ENOMEM]
      | true =>
        by_cases herr : fix.err = 0
        · simp only [herr]
          cases k <;> rfl
        · simp_all
  | _ => exact hc.elim

/-- Until it is restored, the saved cred stays. -/
theorem step_saved (k : Contract) {s : State} {c : CredCall} (hc : c ≠ .restore) (hs : s.savedCreds ≠ none) :
    (step k s c).2.savedCreds = s.savedCreds := by
  cases c with
  | switch prepare uid gid => rw [switches_busy k (c := .switch prepare uid gid) trivial hs]
  | seteuid prepare fix uid => rw [switches_busy k (c := .seteuid prepare fix uid) trivial hs]
  | restore => exact absurd rfl hc
  | access prepare kernPath inodePermission =>
    exact (access_sameInForce k s prepare kernPath inodePermission).2.1

theorem exec_saved (k : Contract) : ∀ (cs : List CredCall) {s : State}, .restore ∉ cs → s.savedCreds ≠ none →
    (Runs.exec (step k) s cs).savedCreds = s.savedCreds
  | [], _, _, _ => rfl
  | c :: cs, s, hcs, hs => by
    simp only [List.mem_cons, not_or] at hcs
    have hstep := step_saved k (Ne.symm hcs.1) hs
    rw [Runs.exec, exec_saved k cs hcs.2 (by rwa [hstep]), hstep]

/-- A restore makes the saved cred current. -/
theorem restore_current (k : Contract) {s : State} {saved : CredId} (hs : s.savedCreds = some saved) :
    (xfsRestoreCreds k s).current = saved := by
  have hcur : (s.revertCreds k saved).current = saved := by cases k <;> rfl
  simp only [xfsRestoreCreds, hs]
  split <;> exact hcur

/-- A switch that succeeds and the restore that matches it. -/
theorem switch_restore (k : Contract) {s : State} {c : CredCall} (hc : c.Switches) (h0 : (step k s c).1 = 0)
    {cs : List CredCall} (hcs : .restore ∉ cs) :
    (Runs.exec (step k) s (c :: (cs ++ [.restore]))).current = s.current := by
  rw [Runs.exec, Runs.exec_snoc]
  refine restore_current k ?_
  have hsaved := switches_saved k hc h0
  rw [exec_saved k cs hcs (by rw [hsaved]; simp), hsaved]

/-- No cred that exists has been written, and none has lost its identity. -/
def KeepsCreds (s s' : State) : Prop :=
  s.table.next ≤ s'.table.next ∧ ∀ i < s.table.next, s'.cred i = s.cred i

theorem KeepsCreds.refl (s : State) : KeepsCreds s s := ⟨Nat.le_refl _, fun _ _ => rfl⟩

theorem KeepsCreds.trans {s₁ s₂ s₃ : State} (h : KeepsCreds s₁ s₂) (h' : KeepsCreds s₂ s₃) : KeepsCreds s₁ s₃ :=
  ⟨Nat.le_trans h.1 h'.1, fun i hi => (h'.2 i (Nat.lt_of_lt_of_le hi h.1)).trans (h.2 i hi)⟩

theorem step_keepsCreds (k : Contract) (s : State) (c : CredCall) : KeepsCreds s (step k s c).2 := by
  -- the cred written to is the one just prepared
  have hw : ∀ {f : CredId → Cred} (x : Cred), (∀ i < s.table.next, f i = s.cred i) →
      ∀ i < s.table.next, Function.update f s.table.next x i = s.cred i := by
    intro f x hf i hi
    rw [Function.update_of_ne (Nat.ne_of_lt hi), hf i hi]
  have h0 : ∀ i < s.table.next, s.cred i = s.cred i := fun _ _ => rfl
  cases c with
  | switch prepare uid gid =>
    simp only [step, xfsSwitchCreds]
    split
    · exact .refl s
    · cases prepare with
      | false => exact .refl s
      | true => cases k <;> exact ⟨Nat.le_succ _, hw _ (hw _ h0)⟩
  | seteuid prepare fix uid =>
    simp only [step, xfsSeteuid]
    split
    · exact .refl s
    · cases prepare with
      | false => exact .refl s
      | true =>
        by_cases herr : fix.err = 0
        · simp only [herr]
          cases k <;> exact ⟨Nat.le_succ _, hw _ (hw _ (hw _ h0))⟩
        · simp only [ne_eq, herr, not_false_eq_true, if_true]
          exact ⟨Nat.le_succ _, hw _ (hw _ (hw _ h0))⟩
  | restore =>
    simp only [step, xfsRestoreCreds]
    split
    · exact .refl s
    · cases k <;> split <;> exact .refl s
  | access prepare kernPath inodePermission =>
    cases prepare with
    | false => exact .refl s
    | true => cases k <;> exact ⟨Nat.le_succ _, hw _ (hw _ (hw _ h0))⟩

theorem exec_keepsCreds (k : Contract) (cs : List CredCall) (s : State) :
    KeepsCreds s (Runs.exec (step k) s cs) :=
  Runs.exec_inv' (I := KeepsCreds s) (fun s' c h => h.trans (step_keepsCreds k s' c)) cs (.refl s)

/-! ## The balance -/

/-- How often the reference count of a cred reached zero. -/
def State.timesFreed (s : State) (i : CredId) : Nat := s.table.timesZeroed i

/-- The creds prepared so far. -/
def State.Prepared (s : State) (i : CredId) : Prop := 0 < i ∧ i < s.table.next

/-- Every prepared cred is freed once, except that the one in force is not freed yet. -/
theorem Balanced.timesFreed (h : Balanced k others s) {i : CredId} (hi : s.Prepared i) :
    s.timesFreed i = if s.override = some i then 0 else 1 := by
  rw [State.timesFreed, h.counts.once i hi.2, holders, if_neg (Nat.ne_of_gt hi.1)]
  by_cases ho : s.override = some i
  · cases k <;> simp [ho, Contract.refs]
  · simp [ho]

/-- **Credential switching is balanced** under both contracts of `override_creds()`, after every sequence of calls,
whatever they answered. -/
theorem creds_balanced (k : Contract) (task : Cred) (others : Nat) (cs : List CredCall) :
    let s := after k task others cs
    -- the statics
    (s.savedCreds = none ↔ s.override = none) ∧
    (∀ c : CredCall, c.Switches → s.savedCreds ≠ none → step k s c = (-EBUSY, s)) ∧
    (∀ c, (step k s c).1 ≠ 0 → SameInForce s (step k s c).2) ∧
    -- a switch, any calls but a restore, and the restore
    (∀ c : CredCall, c.Switches → (step k s c).1 = 0 → ∀ cs', .restore ∉ cs' →
      (Runs.exec (step k) s (c :: (cs' ++ [.restore]))).current = s.current ∧
      (Runs.exec (step k) s (c :: (cs' ++ [.restore]))).cred s.current = s.cred s.current) ∧
    (∀ prepare kernPath inodePermission,
      SameInForce s (step k s (.access prepare kernPath inodePermission)).2) ∧
    -- the reference counts
    (∀ i, s.Prepared i → s.timesFreed i = if s.override = some i then 0 else 1) ∧
    (∀ i, (step k s .restore).2.Prepared i → (step k s .restore).2.timesFreed i = 1) ∧
    ∀ i now, (i, now) ∈ s.table.zeroed → i ≠ now := by
  intro s
  have hB : Balanced k others s := balanced_after k task others cs
  obtain ⟨hBr, hIr⟩ := restore_balanced hB
  refine ⟨?_, fun c hc hs => switches_busy k hc hs, failed_sameInForce k s, fun c hc h0 cs' hcs' => ⟨?_, ?_⟩,
    access_sameInForce k s, fun i hi => hB.timesFreed hi, fun i hi => ?_, fun i now hp => hB.unused _ hp⟩
  · rcases hB.statics with ⟨hs, ho, -⟩ | ⟨c, -, hs, ho, -⟩ <;> simp [hs, ho]
  · exact switch_restore k hc h0 hcs'
  · exact (exec_keepsCreds k (c :: (cs' ++ [.restore])) s).2 _ hB.current_lt
  · have := hBr.timesFreed hi
    rwa [hIr.2.1, if_neg (by simp)] at this

end NfsPlayground.Creds
