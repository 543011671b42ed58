import NfsPlayground.Lib.Outcomes
import NfsPlayground.Races.Faulty
import NfsPlayground.Races.G028

/-!
# generic/028: the clean-up

The racer leaves one file, whose number is the number of its renames. `g_remove_tree()` looks for it under the name
without a number and, counting up from 1, until a number is missing; so a file with a number from 2 on stays, and with
it every directory above it. What there is when the test is left, with calls that may fail at any time, is said by
`Inv`: a tree with the racer's file, if any, and `sib0`.
-/

namespace NfsPlayground.Races.G028.Clean

open Lines Posix Threads

/-! ## The clean-up -/

/-- `for (i = 1; i < 100000; i++)` of `g_remove_tree()`, with `left` passes to go. -/
def removeChain : Nat → Nat → Fs Text → Fs Text
  | 0, _, fs => fs
  | left + 1, i, fs =>
    let r := fs.unlink (chainName i)
    if r.1 ≠ 0 then r.2 else removeChain left (i + 1) r.2

/-- The directories, from the inside out. -/
def removeDirs (fs : Fs Text) : Fs Text :=
  [G_C2 ++ [['d']], G_C2, G_DEEP, G_C, G_AB, G_ROOT ++ [['a']], G_ROOT].foldl (fun fs p => (fs.rmdir p).2) fs

/-- What is on the file system after `g_remove_tree()`. -/
def g_remove_tree (fs : Fs Text) : Fs Text :=
  let fs := (fs.unlink firstName).2
  let fs := removeChain 99999 1 fs
  let fs := (fs.unlink (G_DEEP ++ [sib0])).2
  let fs := (fs.unlink (G_C2 ++ [['d'], sib0])).2
  removeDirs fs

/-! ## The tree -/

def top : Text := ['g', '0', '2', '8']

def upper : Path := [top, ['a'], ['b']]

/-- The directory that is renamed, under either name. -/
def middle (moved : Bool) : Text := if moved then ['c', '2'] else ['c']

/-- The directory of the files, below the mount point. -/
def deep (moved : Bool) : Path := upper ++ [middle moved] ++ [['d']]

/-- The racer's file, if there is one, and `sib0`. -/
def Held (n : Option Text) (sib : Bool) (m : Text) : Prop := n = some m ∨ (sib = true ∧ m = sib0)

theorem not_held_none (m : Text) : ¬ Held none false m := by
  rintro (heq | heq)
  · cases heq
  · cases heq.1

structure Tree (moved : Bool) (n : Option Text) (sib : Bool) (fs : Fs Text) : Prop where
  spine : Fs.Spine XFS_MNT top (deep moved) (Held n sib) fs
  ne : n ≠ some sib0

theorem top_deep (moved : Bool) : [top] <+: deep moved := ⟨_, rfl⟩

variable {moved sib : Bool} {n : Option Text} {m : Text} {fs fs' : Fs Text}

theorem Tree.quiet (h : Tree moved n sib fs) (hq : Quiet fs fs') : Tree moved n sib fs' :=
  ⟨h.spine.congr_get hq.1 hq.2, h.ne⟩

/-- The file the racer creates. -/
theorem Tree.create (h : Tree moved none sib fs) (hm : m ≠ sib0) : ∃ k : Nat, ∃ fs',
    fs.create (XFS_MNT ++ deep moved ++ [m]) = ((k : Int), fs') ∧ Tree moved (some m) sib fs' := by
  obtain ⟨k, fs', hr, hspine⟩ := h.spine.create (top_deep moved) m
  refine ⟨k, fs', hr, hspine.congr_files fun r => ?_, fun heq => hm (Option.some.inj heq)⟩
  unfold Held
  simp [eq_comm]

theorem Tree.rename {m' : Text} (h : Tree moved (some m) sib fs) (hm' : m' ≠ sib0) : ∃ fs',
    fs.rename (XFS_MNT ++ deep moved ++ [m]) (XFS_MNT ++ deep moved ++ [m']) = (0, fs') ∧
      Tree moved (some m') sib fs' := by
  obtain ⟨fs', hr, hspine⟩ := h.spine.rename (top_deep moved) (Or.inl rfl : Held (some m) sib m) m'
  refine ⟨fs', hr, hspine.congr_files fun r => ?_, fun heq => hm' (Option.some.inj heq)⟩
  have hm : m ≠ sib0 := fun heq => h.ne (congrArg some heq)
  unfold Held
  constructor
  · rintro (rfl | ⟨heq | hsib, hne⟩)
    · exact Or.inl rfl
    · exact absurd (Option.some.inj heq).symm hne
    · exact Or.inr hsib
  · rintro (heq | ⟨hsib, rfl⟩)
    · exact Or.inl (Option.some.inj heq).symm
    · exact Or.inr ⟨Or.inr ⟨hsib, rfl⟩, hm.symm⟩

/-- The racer's file is not there any more if it has the name that is unlinked. -/
theorem Tree.unlink (h : Tree moved n sib fs) (hm : m ≠ sib0) :
    Tree moved (if n = some m then none else n) sib (fs.unlink (XFS_MNT ++ deep moved ++ [m])).2 ∧
      ((fs.unlink (XFS_MNT ++ deep moved ++ [m])).1 = 0 ↔ n = some m) := by
  obtain ⟨hspine, hret⟩ := h.spine.unlink (top_deep moved) m
  have hheld : Held n sib m ↔ n = some m := or_iff_left fun hsib => hm hsib.2
  refine ⟨?_, hret.trans hheld⟩
  split
  · rename_i hn
    subst hn
    refine ⟨hspine.congr_files fun r => ?_, by simp⟩
    unfold Held
    constructor
    · rintro ⟨heq | hsib, hne⟩
      · exact absurd (Option.some.inj heq).symm hne
      · exact Or.inr hsib
    · rintro (heq | ⟨hsib, rfl⟩)
      · cases heq
      · exact ⟨Or.inr ⟨hsib, rfl⟩, hm.symm⟩
  · rename_i hn
    refine ⟨hspine.congr_files fun r => ⟨And.left, fun hr => ⟨hr, ?_⟩⟩, h.ne⟩
    rintro rfl
    exact hn (hheld.1 hr)

theorem Tree.create_sib (h : Tree moved n sib fs) : ∃ k : Nat, ∃ fs',
    fs.create (XFS_MNT ++ deep moved ++ [sib0]) = ((k : Int), fs') ∧ Tree moved n true fs' := by
  obtain ⟨k, fs', hr, hspine⟩ := h.spine.create (top_deep moved) sib0
  refine ⟨k, fs', hr, hspine.congr_files fun r => ?_, h.ne⟩
  unfold Held
  constructor
  · rintro (rfl | hr | hr)
    · exact Or.inr ⟨rfl, rfl⟩
    · exact Or.inl hr
    · exact Or.inr ⟨rfl, hr.2⟩
  · rintro (hr | hr)
    · exact Or.inr (Or.inl hr)
    · exact Or.inl hr.2

theorem Tree.unlink_sib (h : Tree moved n sib fs) :
    Tree moved n false (fs.unlink (XFS_MNT ++ deep moved ++ [sib0])).2 := by
  refine ⟨(h.spine.unlink (top_deep moved) sib0).1.congr_files fun r => ?_, h.ne⟩
  unfold Held
  constructor
  · rintro ⟨hr | hr, hne⟩
    · exact Or.inl hr
    · exact absurd hr.2 hne
  · rintro (hr | hr)
    · exact ⟨Or.inl hr, fun heq => h.ne (heq ▸ hr)⟩
    · cases hr.1

/-- The directory in the middle gets its other name. -/
theorem Tree.move (h : Tree moved n sib fs) : ∃ fs',
    fs.rename (XFS_MNT ++ upper ++ [middle moved]) (XFS_MNT ++ upper ++ [middle !moved]) = (0, fs') ∧
      Tree (!moved) n sib fs' := by
  have hne : middle moved ≠ middle !moved := by cases moved <;> decide
  obtain ⟨fs', hr, hspine⟩ := h.spine.rename_dir ⟨_, rfl⟩ hne
  exact ⟨fs', hr, hspine, h.ne⟩

/-! ## What is removed -/

/-- The directories that are removed, from the mount point. -/
def dirs : List Path :=
  [deep true, upper ++ [middle true], deep false, upper ++ [middle false], upper, [top, ['a']], [top]]

theorem dirs_top : ∀ t ∈ dirs, [top] <+: t := by decide

theorem removeDirs_eq (fs : Fs Text) : removeDirs fs = dirs.foldl (fun fs t => (fs.rmdir (XFS_MNT ++ t)).2) fs := rfl

/-- With no file left the directories go, from the inside out. -/
theorem removeDirs_empty (h : Tree moved none false fs) : (removeDirs fs).get G_ROOT = none := by
  have hspine := Fs.Spine.rmdirs not_held_none dirs dirs_top h.spine
  have hend : dirs.foldl Fs.Spine.trimmed (deep moved) = [] := by cases moved <;> decide
  rw [hend] at hspine
  rw [removeDirs_eq]
  exact hspine.get_none (t := [top]) (List.prefix_refl _) (by decide) fun m hm => absurd hm (not_held_none m)

/-- With a file left they all stay. -/
theorem removeDirs_held (h : Tree moved n sib fs) (hm : Held n sib m) : (removeDirs fs).get G_ROOT = some .dir := by
  rw [removeDirs_eq, Fs.Spine.rmdirs_held (top_deep moved) hm h.spine dirs dirs_top]
  exact (h.spine.dirs [top] (List.prefix_refl _)).2 (top_deep moved)

/-- The name of the racer's file with a number. -/
def numbered (i : Nat) : Text := getcwdTestfile ++ decimal i

theorem testfile_ne : getcwdTestfile ≠ sib0 := by decide

theorem numbered_ne (i : Nat) : numbered i ≠ sib0 := by
  intro heq
  have hlen := congrArg List.length heq
  rw [numbered, List.length_append, show getcwdTestfile.length = 17 from rfl, show sib0.length = 4 from rfl] at hlen
  omega

/-- Nothing is below the other name. -/
theorem Tree.get_other (h : Tree moved n sib fs) (m : Text) : fs.get (XFS_MNT ++ deep (!moved) ++ [m]) = none := by
  rw [List.append_assoc]
  refine h.spine.get_none ((top_deep _).trans (List.prefix_append _ _)) (fun hp => ?_) fun r _ heq => ?_
  · exact absurd hp.length_le (by simp [deep, upper])
  · have hdeep := (List.append_inj' heq rfl).1
    cases moved <;> cases hdeep

theorem Tree.unlink_other (h : Tree moved n sib fs) (m : Text) :
    (fs.unlink (XFS_MNT ++ deep (!moved) ++ [m])).1 ≠ 0 ∧ (fs.unlink (XFS_MNT ++ deep (!moved) ++ [m])).2 = fs :=
  Fs.unlink_absent (h.get_other m)

theorem chain_stops {i : Nat} (h : (fs.unlink (chainName i)).1 ≠ 0) (left : Nat) :
    removeChain (left + 1) i fs = (fs.unlink (chainName i)).2 := if_pos h

/-- The loop removes the file with the number 1, and no other one. -/
theorem removeChain_ends (h : Tree false n sib fs) :
    Tree false (if n = some (numbered 1) then none else n) sib (removeChain 99999 1 fs) := by
  obtain ⟨h₁, hret₁⟩ := h.unlink (numbered_ne 1)
  by_cases hn : n = some (numbered 1)
  · rw [if_pos hn] at h₁ ⊢
    obtain ⟨h₂, hret₂⟩ := h₁.unlink (numbered_ne 2)
    have hgo : removeChain 99999 1 fs = removeChain 99998 2 (fs.unlink (chainName 1)).2 :=
      if_neg (not_not.2 (hret₁.2 hn))
    have hstop : (Fs.unlink (fs.unlink (chainName 1)).2 (chainName 2)).1 ≠ 0 := fun hzero => nomatch hret₂.1 hzero
    rw [hgo, chain_stops hstop]
    exact h₂
  · have hstop : (fs.unlink (chainName 1)).1 ≠ 0 := fun hzero => hn (hret₁.1 hzero)
    rw [chain_stops hstop]
    exact h₁

theorem removeDirs_iff (h : Tree moved n false fs) : (removeDirs fs).get G_ROOT = none ↔ n = none := by
  cases n with
  | none => exact iff_of_true (removeDirs_empty h) rfl
  | some m =>
    rw [removeDirs_held h (Or.inl rfl : Held (some m) false m)]
    exact iff_of_false nofun nofun

/-- The loop finds nothing where the directory has its other name. -/
theorem removeChain_moved (h : Tree true n sib fs) : removeChain 99999 1 fs = fs := by
  obtain ⟨hret, hsame⟩ := h.unlink_other (numbered 1)
  exact (chain_stops (i := 1) hret 99998).trans hsame

/-- The tree is removed exactly if no file of the racer is left, or the one that is left is in its place, and has no
number or the number 1. -/
theorem removed_iff (h : Tree moved n sib fs) : (g_remove_tree fs).get G_ROOT = none ↔
    n = none ∨ (moved = false ∧ (n = some getcwdTestfile ∨ n = some (numbered 1))) := by
  cases moved with
  | false =>
    have h₁ := (h.unlink testfile_ne).1
    have h₂ := removeChain_ends h₁
    have h₃ := h₂.unlink_sib
    have hother := (h₃.unlink_other sib0).2
    have hremoved : g_remove_tree fs = removeDirs (Fs.unlink (removeChain 99999 1
        (fs.unlink (XFS_MNT ++ deep false ++ [getcwdTestfile])).2) (XFS_MNT ++ deep false ++ [sib0])).2 :=
      congrArg removeDirs hother
    rw [hremoved, removeDirs_iff h₃]
    by_cases hfirst : n = some getcwdTestfile
    · rw [if_pos hfirst, if_neg nofun]
      exact iff_of_true rfl (Or.inr ⟨rfl, Or.inl hfirst⟩)
    · rw [if_neg hfirst]
      by_cases hone : n = some (numbered 1)
      · rw [if_pos hone]
        exact iff_of_true rfl (Or.inr ⟨rfl, Or.inr hone⟩)
      · rw [if_neg hone]
        exact ⟨Or.inl, fun hor => hor.resolve_right fun hr => hr.2.elim hfirst hone⟩
  | true =>
    have hfirst := (h.unlink_other getcwdTestfile).2
    have hsib := (h.unlink_other sib0).2
    have hchain := removeChain_moved h
    have hremoved : g_remove_tree fs = removeDirs (fs.unlink (XFS_MNT ++ deep true ++ [sib0])).2 := by
      change removeDirs (Fs.unlink (Fs.unlink (removeChain 99999 1
        (fs.unlink (XFS_MNT ++ deep (!true) ++ [getcwdTestfile])).2)
        (XFS_MNT ++ deep (!true) ++ [sib0])).2 (XFS_MNT ++ deep true ++ [sib0])).2 = _
      rw [hfirst, hchain, hsib]
    rw [hremoved, removeDirs_iff h.unlink_sib]
    exact ⟨Or.inl, fun hor => hor.resolve_right fun hr => nomatch hr.1⟩

/-- The racer's file, if one is left, is in its place, and has no number or the number 1. -/
def Findable (fs : Fs Text) : Prop := ∀ m, m ≠ sib0 →
  (fs.get (G_DEEP ++ [m]) ≠ none → m = getcwdTestfile ∨ m = numbered 1) ∧ fs.get (G_C2 ++ [['d'], m]) = none

theorem findable_iff (h : Tree moved n sib fs) :
    Findable fs ↔ n = none ∨ (moved = false ∧ (n = some getcwdTestfile ∨ n = some (numbered 1))) := by
  have hthere : ∀ m, m ≠ sib0 → (fs.get (XFS_MNT ++ deep moved ++ [m]) ≠ none ↔ n = some m) := by
    intro m hm
    have hheld : Held n sib m ↔ n = some m := or_iff_left fun hsib => hm hsib.2
    rw [← hheld]
    constructor
    · intro hne
      by_contra hnot
      exact hne (h.spine.get_free (top_deep moved) hnot)
    · intro hheld
      obtain ⟨k, hk⟩ := h.spine.get_file (top_deep moved) hheld
      rw [hk]
      nofun
  have hother := h.get_other
  unfold Findable
  cases moved with
  | false =>
    constructor
    · intro hfind
      cases hn : n with
      | none => exact Or.inl rfl
      | some m =>
        have hm : m ≠ sib0 := fun heq => h.ne (by rw [hn, heq])
        refine Or.inr ⟨rfl, ?_⟩
        rw [Option.some.injEq, Option.some.injEq]
        exact (hfind m hm).1 ((hthere m hm).2 hn)
    · intro hor m hm
      refine ⟨fun hne => ?_, hother m⟩
      have hn := (hthere m hm).1 hne
      rcases hor with hnone | ⟨-, heq | heq⟩
      · rw [hnone] at hn
        cases hn
      · exact Or.inl (Option.some.inj (hn.symm.trans heq))
      · exact Or.inr (Option.some.inj (hn.symm.trans heq))
  | true =>
    have hiff : (n = none ∨ (true = false ∧ (n = some getcwdTestfile ∨ n = some (numbered 1)))) ↔ n = none :=
      or_iff_left fun hr => nomatch hr.1
    rw [hiff]
    constructor
    · intro hfind
      cases hn : n with
      | none => rfl
      | some m =>
        have hm : m ≠ sib0 := fun heq => h.ne (by rw [hn, heq])
        exact absurd (hfind m hm).2 ((hthere m hm).2 hn)
    · intro hnone m hm
      refine ⟨fun hne => absurd (hother m) hne, ?_⟩
      by_contra hne
      have hn := (hthere m hm).1 hne
      rw [hnone] at hn
      cases hn

end NfsPlayground.Races.G028.Clean
