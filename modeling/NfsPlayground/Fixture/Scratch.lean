import NfsPlayground.Fixture.Spec

/-!
# The unmount of the scratch directory

`xfs_scratch_umount()` takes the stack of mounts on `XFS_SCRATCH_MNT` down one `xfs_umount_settled()` at a time, and
makes eight of them at most. With answers under which each of them takes a mount off, it leaves the stack less its
first eight mounts (`scratchTries_stack`), and returns `0` whether or not any is left: its answer says that none is
left exactly when at most eight were stacked (`scratch_umount_clears_iff`).
-/

namespace NfsPlayground.Fixture

/-- Where nothing is mounted an unmount changes nothing. -/
theorem umount_nil (a : UmountAnswer) : (xfsUmount a []).2 = [] := by
  unfold xfsUmount
  split <;> rfl

theorem umountTries_nil (a : SettleAnswer) : ∀ left err, (umountTries a left err []).2 = []
  | 0, _ => rfl
  | left + 1, err => by
    rw [umountTries]
    split
    · rw [umount_nil]
      exact umountTries_nil a left _
    · rfl

theorem umountSettled_nil (a : SettleAnswer) : (xfsUmountSettled a []).2 = [] := by
  unfold xfsUmountSettled
  dsimp only
  split
  · rw [umountTries_nil]
    rfl
  · exact umountTries_nil a 20 _

theorem scratchTries_nil (a : Nat → SettleAnswer) : ∀ left err, (scratchTries a left err []).2 = []
  | 0, _ => rfl
  | left + 1, err => by
    rw [scratchTries]
    split
    · rw [umountSettled_nil]
      exact scratchTries_nil a left _
    · rfl

/-- Every settled unmount takes the top mount off: what is left of the stack is what the tries did not reach. -/
theorem scratchTries_stack {a : Nat → SettleAnswer} (ha : ∀ k, (a k).Detaches) :
    ∀ left ms, (scratchTries a left 0 ms).2 = ms.drop left
  | 0, _ => rfl
  | left + 1, [] => scratchTries_nil a (left + 1) 0
  | left + 1, m :: ms => by
    rcases umountSettled_cons (a (8 - (left + 1))) m ms with ⟨-, hr⟩ | ⟨hno, -⟩
    · rw [scratchTries, if_pos rfl, hr]
      exact scratchTries_stack ha left ms
    · exact absurd (ha _) hno

/-- While there are as many mounts as tries, no try fails. -/
theorem scratchTries_err {a : Nat → SettleAnswer} (ha : ∀ k, (a k).Detaches) :
    ∀ left ms, left ≤ ms.length → (scratchTries a left 0 ms).1 = 0
  | 0, _, _ => rfl
  | left + 1, [], hlen => by simp at hlen
  | left + 1, m :: ms, hlen => by
    rcases umountSettled_cons (a (8 - (left + 1))) m ms with ⟨-, hr⟩ | ⟨hno, -⟩
    · rw [scratchTries, if_pos rfl, hr]
      exact scratchTries_err ha left ms (by simpa using hlen)
    · exact absurd (ha _) hno

/-- An answer of `0` means that no mount is left exactly when no more than the eight tries were stacked. -/
theorem scratch_umount_clears_iff (a : Nat → SettleAnswer) (ms : List Mount) (ha : ∀ k, (a k).Detaches) :
    ((xfsScratchUmount a ms).1 = 0 → (xfsScratchUmount a ms).2 = []) ↔ ms.length ≤ 8 := by
  have hstack : (xfsScratchUmount a ms).2 = ms.drop 8 := scratchTries_stack ha 8 ms
  rw [hstack, List.drop_eq_nil_iff]
  constructor
  · intro hclear
    by_contra hlen
    have herr : (scratchTries a 8 0 ms).1 = 0 := scratchTries_err ha 8 ms (by omega)
    have hzero : (xfsScratchUmount a ms).1 = 0 := by simp [xfsScratchUmount, herr]
    exact hlen (hclear hzero)
  · exact fun hlen _ => hlen

/-- Two tries find the mount busy, the third takes it off. -/
def busyTwice : SettleAnswer := ⟨fun i => if i < 2 then ⟨0, -EBUSY⟩ else ⟨0, 0⟩, ⟨0, 0⟩⟩

/-- Every try finds the mount busy: it is detached. -/
def alwaysBusy : SettleAnswer := ⟨fun _ => ⟨0, -EBUSY⟩, ⟨0, 0⟩⟩

theorem scratch_umount_clears_two :
    (xfsScratchUmount (fun k => if k = 0 then busyTwice else alwaysBusy) [clientMount, clientMount]).1 = 0 ∧
      (xfsScratchUmount (fun k => if k = 0 then busyTwice else alwaysBusy) [clientMount, clientMount]).2 = [] := by
  refine ⟨rfl, (scratch_umount_clears_iff _ _ fun k => ?_).2 (by decide) rfl⟩
  by_cases hk : k = 0
  · rw [if_pos hk]
    exact Or.inl ⟨2, by decide, by decide, by decide⟩
  · rw [if_neg hk]
    exact Or.inr ⟨by decide, by decide⟩

/-- Of nine mounts one is left, and the answer is `0`. -/
theorem scratch_umount_leaves_ninth :
    xfsScratchUmount TeardownAnswer.ok.scratch (List.replicate 9 clientMount) = (0, [clientMount]) ∧
    ¬ ((xfsScratchUmount TeardownAnswer.ok.scratch (List.replicate 9 clientMount)).1 = 0 →
      (xfsScratchUmount TeardownAnswer.ok.scratch (List.replicate 9 clientMount)).2 = []) := by
  have hrun : xfsScratchUmount TeardownAnswer.ok.scratch (List.replicate 9 clientMount) = (0, [clientMount]) := by
    rfl
  refine ⟨hrun, fun hclear => ?_⟩
  rw [hrun] at hclear
  exact List.cons_ne_nil _ _ (hclear rfl)

end NfsPlayground.Fixture
