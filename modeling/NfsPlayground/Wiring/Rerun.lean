import NfsPlayground.Wiring.Stages

/-!
# Running the wiring again

A run from a tree that an interrupted run has left ends where the uninterrupted run does, unless the interruption lost
`do_mknodat`, or an option ran into an open last line of `.kunitconfig` (`wire_completes_iff`). On its own result the
script goes through the options once more and does nothing else (`wire_on_result`).
-/

namespace NfsPlayground.Wiring

open Lines Pattern Resume

/-! ## The list of options -/

/-- The option of the fixture and of all the ports. -/
def xfstestsOpt : Text := symbolOpt fixture

/-- The options before it. -/
def earlierOpts (coverage nfsV41 : Bool) : List Text :=
  baseOpts ++ (if coverage then coverageOpts else []) ++ (if nfsV41 then ["CONFIG_NFS_V4_1=y".toList] else []) ++
    unitTests.map symbolOpt

theorem kunitOpts_eq (repo : Repo) (coverage nfsV41 : Bool) : kunitOpts coverage nfsV41 (tests repo) =
    earlierOpts coverage nfsV41 ++ List.replicate (repo.ports.length + 1) xfstestsOpt := by
  have hports : (repo.ports.map portEntry).map symbolOpt = List.replicate repo.ports.length xfstestsOpt := by
    rw [List.map_map, show symbolOpt ∘ portEntry = fun _ => xfstestsOpt from rfl, List.map_const']
  rw [kunitOpts, tests, List.map_append, List.map_cons, hports, List.replicate_succ, earlierOpts, xfstestsOpt,
    List.append_assoc _ (unitTests.map symbolOpt)]

theorem earlierOpts_facts : (earlierOpts true true).Nodup ∧ xfstestsOpt ∉ earlierOpts true true ∧
    ∀ opt ∈ earlierOpts true true, '\n' ∉ opt := by
  unfold earlierOpts baseOpts coverageOpts unitTests
  apply of_texts₃ (P := fun base coverage unit =>
    let opts := base ++ coverage ++ ["CONFIG_NFS_V4_1=y".toList] ++ (unit.filterMap Entry.read).map symbolOpt
    opts.Nodup ∧ xfstestsOpt ∉ opts ∧ ∀ opt ∈ opts, '\n' ∉ opt)
  all_goals try (repeat apply texts_cons); exact texts_nil
  decide

/-- Fewer of them are in the same order. -/
theorem earlierOpts_sublist (coverage nfsV41 : Bool) :
    (earlierOpts coverage nfsV41).Sublist (earlierOpts true true) := by
  unfold earlierOpts
  refine (((List.Sublist.refl _).append ?_).append ?_).append (.refl _)
  · cases coverage <;> simp
  · cases nfsV41 <;> simp

theorem xfstestsOpt_line : xfstestsOpt ≠ [] ∧ '\n' ∉ xfstestsOpt := by decide

/-- The options can be added again: nothing had been added, or `.kunitconfig` did not end in the middle of a line, or
only the option that comes more than once was missing. -/
def OptionsKept (repo : Repo) (coverage : Bool) (t m : Tree) : Prop :=
  m.text kunitconfig = t.text kunitconfig ∨ Closed (t.text kunitconfig) ∨
    (repo.ports ≠ [] ∧ ∀ opt ∈ kunitOpts coverage (hasNfsV41 t) (tests repo), opt ≠ xfstestsOpt →
      opt ∈ (lines (t.text kunitconfig)).dropLast)

theorem addOptions_text {repo : Repo} {coverage nfsV41 : Bool} {t r : Tree}
    (h : Ends (addOptions repo coverage nfsV41) t r) :
    r.text kunitconfig = addLines (t.text kunitconfig) (kunitOpts coverage nfsV41 (tests repo)) := by
  unfold addOptions at h
  cases hopts : kunitOpts coverage nfsV41 (tests repo) with
  | nil =>
    rw [hopts] at h
    rw [← ends_skip.1 h]
    rfl
  | cons opt opts =>
    rw [hopts, loop_addOption_ends] at h
    rw [h, Tree.text_put_self]

theorem addOptions_again {repo : Repo} {coverage nfsV41 : Bool} {t r m : Tree}
    (hr : Ends (addOptions repo coverage nfsV41) t r) (hm : m ∈ states (addOptions repo coverage nfsV41) t) :
    Ends (addOptions repo coverage nfsV41) m r ↔ m.text kunitconfig = t.text kunitconfig ∨
      Closed (t.text kunitconfig) ∨ (repo.ports ≠ [] ∧ ∀ opt ∈ kunitOpts coverage nfsV41 (tests repo),
        opt ≠ xfstestsOpt → opt ∈ (lines (t.text kunitconfig)).dropLast) := by
  obtain ⟨hnodup, hnew, hnl⟩ := earlierOpts_facts
  have hsub := earlierOpts_sublist coverage nfsV41
  have hopts := kunitOpts_eq repo coverage nfsV41
  unfold addOptions at hr hm ⊢
  rcases mem_states_loop_addOption hm with rfl | ⟨os, ps, happ, rfl⟩
  · exact iff_of_true hr (Or.inl rfl)
  have hagain := addLines_again_iff (hnodup.sublist hsub) (fun h => hnew (hsub.subset h)) xfstestsOpt_line.1
    (fun d hd => hnl d (hsub.subset hd)) xfstestsOpt_line.2 (x := t.text kunitconfig) (hopts.symm.trans happ)
  obtain ⟨opt, opts, hcons⟩ : ∃ opt opts, kunitOpts coverage nfsV41 (tests repo) = opt :: opts :=
    List.exists_cons_of_ne_nil (by rw [hopts]; simp)
  have hports : 2 ≤ repo.ports.length + 1 ↔ repo.ports ≠ [] := by
    rw [← List.length_pos_iff]
    omega
  have hearlier : (∀ d ∈ earlierOpts coverage nfsV41, d ∈ (lines (t.text kunitconfig)).dropLast) ↔
      ∀ opt ∈ kunitOpts coverage nfsV41 (tests repo), opt ≠ xfstestsOpt →
        opt ∈ (lines (t.text kunitconfig)).dropLast := by
    rw [hopts]
    constructor
    · intro h opt hopt hne
      rcases List.mem_append.1 hopt with hd | hrep
      · exact h opt hd
      · exact absurd (List.eq_of_mem_replicate hrep) hne
    · intro h d hd
      exact h d (List.mem_append_left _ hd) fun heq => hnew (heq ▸ hsub.subset hd)
  rw [← hopts, hports, hearlier] at hagain
  rw [Tree.text_put_self, ← hagain]
  rw [hcons] at hr ⊢
  rw [loop_addOption_ends] at hr ⊢
  rw [hr, Tree.text_put_self, Tree.put_put]
  constructor
  · intro h
    have := congrArg (fun s : Tree => s.text kunitconfig) h
    simpa using this.symm
  · intro h
    rw [h]

/-! ## From one stage to the next -/

theorem ldsFiles_facts : ∀ p ∈ ldsFiles, Foreign p ∧ p.2.getLast? ≠ some 'c' ∧ p.2 ≠ "Makefile".toList ∧
    p ≠ internalH ∧ p ≠ kunitconfig ∧ p ≠ mknodat.src ∧ p ≠ ("fs/nfs".toList, "Kconfig".toList) := by
  decide

theorem kunitconfig_facts : Foreign kunitconfig ∧ kunitconfig.2.getLast? ≠ some 'c' ∧
    kunitconfig.2 ≠ "Makefile".toList ∧ kunitconfig ≠ internalH ∧ mknodat.src ≠ kunitconfig := by
  decide

theorem kconfig_facts : ("Kconfig".toList).getLast? ≠ some 'c' ∧ "Kconfig".toList ≠ "Makefile".toList ∧
    ("fs/nfs".toList, "Kconfig".toList) ≠ internalH ∧ ("fs/nfs".toList, "Kconfig".toList) ≠ kunitconfig := by
  decide

theorem hasNfsV41_congr {t m : Tree}
    (h : m.file ("fs/nfs".toList, "Kconfig".toList) = t.file ("fs/nfs".toList, "Kconfig".toList)) :
    hasNfsV41 m = hasNfsV41 t := by
  unfold hasNfsV41 Tree.text
  rw [h]

/-- After the exposing nothing is left to expose, and nothing is lost, as long as its files stay as they are. -/
theorem exposed_later {t r m : Tree} (hr : Ends exposeFunctions t r) (hm : ∀ p ∈ exposePaths, m.file p = r.file p) :
    Ends exposeFunctions m m ∧ ¬ LostMknodat t m := by
  obtain ⟨hdone, hnow⟩ := exposeFunctions_reaches hr
  have hnamei : m.file mknodat.src = r.file mknodat.src := hm _ List.mem_cons_self
  refine ⟨(exposeAll_resumable _).settled ?_, fun hlost => ?_⟩
  · rw [staticMknodat_congr hnamei]
    exact exposedAll_congr hm hnow
  · have hx := (hdone.2 hlost.1).2.2
    rw [← exported_congr hnamei, hlost.2.2] at hx
    cases hx

/-- A run from where `do_mknodat` is lost never exports it. -/
theorem lost_not_exported {t m r : Tree} {rest : Script Tree} (hlost : LostMknodat t m)
    (hrest : Untouched rest mknodat.src) (h : Ends (seq exposeFunctions rest) m r) : mknodat.exported r = false := by
  obtain ⟨s, hs, hr⟩ := ends_seq.1 h
  have hs' : Ends (exposeAll (staticMknodat m)) m s := hs
  rw [hlost.2.1] at hs'
  rw [exported_congr (hrest.file hr.mem_states), exported_congr (loop_unstatic_namei.file hs'.mem_states), hlost.2.2]

/-! ## The stages of a run -/

theorem fixFini_leaves {coverage : Bool} {t m : Tree} (hm : m ∈ states (fixFini coverage) t) :
    m.file mknodat.src = t.file mknodat.src ∧ m.text kunitconfig = t.text kunitconfig ∧ hasNfsV41 m = hasNfsV41 t :=
  ⟨(fixFini_untouched coverage fun h => (ldsFiles_facts _ h).2.2.2.2.2.1 rfl).file hm,
    (fixFini_untouched coverage fun h => (ldsFiles_facts _ h).2.2.2.2.1 rfl).text hm,
    hasNfsV41_congr ((fixFini_untouched coverage fun h => (ldsFiles_facts _ h).2.2.2.2.2.2 rfl).file hm)⟩

theorem exposeFunctions_leaves {t m : Tree} (hm : m ∈ states exposeFunctions t) :
    m.text kunitconfig = t.text kunitconfig ∧ hasNfsV41 m = hasNfsV41 t ∧ ∀ p ∈ ldsFiles, m.file p = t.file p := by
  obtain ⟨-, hc, hmk, hh, -⟩ := kunitconfig_facts
  obtain ⟨kc, kmk, kh, -⟩ := kconfig_facts
  refine ⟨(exposeFunctions_untouched hc hmk hh).text hm, hasNfsV41_congr ?_, fun p hp => ?_⟩
  · exact (exposeFunctions_untouched (p := ("fs/nfs".toList, "Kconfig".toList)) kc kmk kh).file hm
  · obtain ⟨-, lc, lmk, lh, -⟩ := ldsFiles_facts p hp
    exact (exposeFunctions_untouched lc lmk lh).file hm

theorem installTests_leaves {repo : Repo} {t m : Tree} (hm : m ∈ states (installTests repo) t) :
    m.text kunitconfig = t.text kunitconfig ∧ hasNfsV41 m = hasNfsV41 t ∧ (∀ p ∈ ldsFiles, m.file p = t.file p) ∧
      ∀ p ∈ exposePaths, m.file p = t.file p :=
  ⟨(installTests_untouched kunitconfig_facts.1 repo).text hm, installTests_keeps_nfsV41 repo _ t rfl m hm,
    fun p hp => (installTests_untouched (ldsFiles_facts p hp).1 repo).file hm,
    fun p hp => (installTests_untouched (exposePaths_foreign p hp).1 repo).file hm⟩

theorem addOptions_leaves {repo : Repo} {coverage nfsV41 : Bool} {t m : Tree}
    (hm : m ∈ states (addOptions repo coverage nfsV41) t) :
    hasNfsV41 m = hasNfsV41 t ∧ (∀ p ∈ ldsFiles, m.file p = t.file p) ∧ ∀ p ∈ exposePaths, m.file p = t.file p :=
  ⟨hasNfsV41_congr ((addOptions_untouched kconfig_facts.2.2.2 repo coverage nfsV41).file hm),
    fun p hp => (addOptions_untouched (ldsFiles_facts p hp).2.2.2.2.1 repo coverage nfsV41).file hm,
    fun p hp => (addOptions_untouched (exposePaths_foreign p hp).2 repo coverage nfsV41).file hm⟩

/-- The linker scripts stay fixed. -/
theorem fixFini_settled {coverage : Bool} {t s m : Tree} (h : Ends (fixFini coverage) t s)
    (hm : ∀ p ∈ ldsFiles, m.file p = s.file p) : Ends (fixFini coverage) m m := by
  refine (fixFini_resumable coverage).settled fun hc p hp => ?_
  have := (fixFini_resumable coverage).reaches h hc p hp
  rwa [Fixed, Tree.isFile, capturesFini, Tree.text, hm p hp]

/-! ## The whole script -/

section Again

variable {repo : Repo} {coverage : Bool} {t s₁ s₂ s₃ r m : Tree}

/-- A run from a tree whose linker scripts are fixed. -/
theorem wire_fixed (hm : Ends (fixFini coverage) m m) :
    Ends (wire repo coverage) m r ↔ Ends (wireFrom repo coverage (hasNfsV41 m)) m r := by
  rw [wire, ends_seq_settled hm, ends_reading]

theorem lostMknodat_congr (h : s₁.file mknodat.src = t.file mknodat.src) : LostMknodat s₁ m ↔ LostMknodat t m := by
  rw [LostMknodat, staticMknodat_congr h, LostMknodat]

/-- Interrupted in the linker scripts. -/
theorem again_fini (h₁ : Ends (fixFini coverage) t s₁) (h : Ends (wireFrom repo coverage (hasNfsV41 s₁)) s₁ r)
    (hm : m ∈ states (fixFini coverage) t) :
    Ends (wire repo coverage) m r ∧ ¬ LostMknodat t m ∧ OptionsKept repo coverage t m := by
  obtain ⟨hnamei, hconfig, -⟩ := fixFini_leaves hm
  have hagain := (fixFini_resumable coverage).resumes t s₁ h₁ m hm
  refine ⟨?_, fun hl => ?_, Or.inl hconfig⟩
  · rw [wire, ends_seq]
    exact ⟨s₁, hagain, ends_reading.2 h⟩
  · have hstatic := staticMknodat_congr hnamei
    rw [hl.1, hl.2.1] at hstatic
    cases hstatic

/-- Interrupted in the exposing. -/
theorem again_expose (h₁ : Ends (fixFini coverage) t s₁) (h₂ : Ends exposeFunctions s₁ s₂)
    (h : Ends (seq (installTests repo) (addOptions repo coverage (hasNfsV41 s₁))) s₂ r)
    (hm : m ∈ states exposeFunctions s₁) :
    (Ends (wire repo coverage) m r ↔ ¬ LostMknodat s₁ m) ∧ m.text kunitconfig = s₁.text kunitconfig := by
  obtain ⟨hconfig, hV, hlds⟩ := exposeFunctions_leaves hm
  refine ⟨?_, hconfig⟩
  rw [wire_fixed (fixFini_settled h₁ hlds), hV, wireFrom]
  constructor
  · intro hr hl
    have hrest : Untouched (seq (installTests repo) (addOptions repo coverage (hasNfsV41 s₁))) mknodat.src := fun y =>
      keeps_seq (installTests_untouched foreign_variant.2 repo y)
        (addOptions_untouched kunitconfig_facts.2.2.2.2 repo coverage _ y)
    have hx := lost_not_exported hl hrest hr
    rw [exported_congr (hrest.file h.mem_states), ((exposeFunctions_reaches h₂).1.2 hl.1).2.2] at hx
    cases hx
  · intro hl
    exact ends_seq.2 ⟨s₂, (exposeFunctions_again h₂ hm).2 hl, h⟩

/-- Interrupted in the tests. -/
theorem again_install (h₁ : Ends (fixFini coverage) t s₁) (h₂ : Ends exposeFunctions s₁ s₂)
    (h₃ : Ends (installTests repo) s₂ s₃) (h₄ : Ends (addOptions repo coverage (hasNfsV41 s₁)) s₃ r)
    (hm : m ∈ states (installTests repo) s₂) :
    Ends (wire repo coverage) m r ∧ ¬ LostMknodat s₁ m ∧ m.text kunitconfig = s₁.text kunitconfig := by
  obtain ⟨hconfig₂, hV₂, hlds₂⟩ := exposeFunctions_leaves h₂.mem_states
  obtain ⟨hconfig, hV, hlds, hexpose⟩ := installTests_leaves hm
  obtain ⟨hexposed, hlost⟩ := exposed_later h₂ hexpose
  refine ⟨?_, hlost, by rw [hconfig, hconfig₂]⟩
  rw [wire_fixed (fixFini_settled h₁ fun p hp => by rw [hlds p hp, hlds₂ p hp]), hV, hV₂, wireFrom,
    ends_seq_settled hexposed]
  exact ends_seq.2 ⟨s₃, (installTests_resumable repo).resumes s₂ s₃ h₃ m hm, h₄⟩

/-- Interrupted in the options. -/
theorem again_options (h₁ : Ends (fixFini coverage) t s₁) (h₂ : Ends exposeFunctions s₁ s₂)
    (h₃ : Ends (installTests repo) s₂ s₃) (hm : m ∈ states (addOptions repo coverage (hasNfsV41 s₁)) s₃) :
    (∀ r, Ends (wire repo coverage) m r ↔ Ends (addOptions repo coverage (hasNfsV41 s₁)) m r) ∧ ¬ LostMknodat s₁ m ∧
      s₃.text kunitconfig = s₁.text kunitconfig := by
  obtain ⟨hconfig₂, hV₂, hlds₂⟩ := exposeFunctions_leaves h₂.mem_states
  obtain ⟨hconfig₃, hV₃, hlds₃, hexpose₃⟩ := installTests_leaves h₃.mem_states
  obtain ⟨hV, hlds, hexpose⟩ := addOptions_leaves hm
  obtain ⟨hexposed, hlost⟩ := exposed_later h₂ fun p hp => by rw [hexpose p hp, hexpose₃ p hp]
  refine ⟨fun r => ?_, hlost, by rw [hconfig₃, hconfig₂]⟩
  have hinstalled := (installTests_resumable repo).settled
    (addOptions_keeps_installedAll repo coverage _ s₃ ((installTests_resumable repo).reaches h₃) m hm)
  rw [wire_fixed (fixFini_settled h₁ fun p hp => by rw [hlds p hp, hlds₃ p hp, hlds₂ p hp]), hV, hV₃, hV₂, wireFrom,
    ends_seq_settled hexposed, ends_seq_settled hinstalled]

/-- The stages a run has gone through. -/
theorem wire_stages (hr : Ends (wire repo coverage) t r) : ∃ s₁ s₂ s₃, Ends (fixFini coverage) t s₁ ∧
    Ends exposeFunctions s₁ s₂ ∧ Ends (installTests repo) s₂ s₃ ∧
      Ends (addOptions repo coverage (hasNfsV41 s₁)) s₃ r := by
  obtain ⟨s₁, h₁, hrest⟩ := ends_seq.1 hr
  obtain ⟨s₂, h₂, hrest⟩ := ends_seq.1 (ends_reading.1 hrest)
  obtain ⟨s₃, h₃, h₄⟩ := ends_seq.1 hrest
  exact ⟨s₁, s₂, s₃, h₁, h₂, h₃, h₄⟩

/-- On its own result, the script goes through the options once more and does nothing else. -/
theorem wire_on_result (hr : Ends (wire repo coverage) t r) : ∃ s, s.text kunitconfig = t.text kunitconfig ∧
    Ends (addOptions repo coverage (hasNfsV41 t)) s r ∧
      (Ends (wire repo coverage) r r ↔ Ends (addOptions repo coverage (hasNfsV41 t)) r r) := by
  obtain ⟨s₁, s₂, s₃, h₁, h₂, h₃, h₄⟩ := wire_stages hr
  obtain ⟨-, hconfig, hV⟩ := fixFini_leaves h₁.mem_states
  obtain ⟨hiff, -, hc⟩ := again_options h₁ h₂ h₃ h₄.mem_states
  rw [hV] at h₄ hiff
  exact ⟨s₃, hc.trans hconfig, h₄, hiff r⟩

/-- The script runs to its end where the exposing does and the tests have their directories and sources. -/
theorem wire_total (hexpose : Ends exposeFunctions t s₂) (hdir : ∀ e ∈ tests repo, s₂.isDir e.subdir = true)
    (hsource : ∀ e ∈ tests repo, (repo.c e.stem).isSome) : ∃ r, Ends (wire repo false) t r := by
  obtain ⟨s₃, h₃⟩ := installAll_total repo (variant s₂) hdir hsource
  obtain ⟨r, h₄⟩ : ∃ r, Ends (addOptions repo false (hasNfsV41 t)) s₃ r :=
    loop_ends (I := fun _ => True) (fun _ _ _ _ _ _ => trivial) (fun _ _ _ _ => ⟨_, ends_guarded.2 rfl⟩) s₃ trivial
  refine ⟨r, ends_seq.2 ⟨t, ends_skip.2 rfl, ends_reading.2 ?_⟩⟩
  exact ends_seq.2 ⟨s₂, hexpose, ends_seq.2 ⟨s₃, ends_reading.2 h₃, h₄⟩⟩

end Again

/-! ## A tree on which the script runs -/

def nameiText : Text := "static int do_mknodat(int dfd)\n\x7b\n\x7d\n".toList

/-- `fs/namei.c` with `do_mknodat` static, the other functions exported, and a `.kunitconfig`. -/
def nameiTree (config : Text) : Tree where
  isDir d := decide (d ∈ (tests plainRepo).map Entry.subdir ++ UNSTATIC.map Unstatic.dir)
  file := fun p =>
    if p = kunitconfig then some config
    else if p = mknodat.src then some nameiText
    else if p ∈ UNSTATIC.map Unstatic.src then
      some (unlines ((UNSTATIC.filter fun e => e.src = p).map Unstatic.exportMark))
    else none

/-- After `fs/internal.h`. -/
def declaredTree (config : Text) : Tree := declareMknodat (nameiTree config)

/-- After the substitution in `fs/namei.c`. -/
def substitutedTree (config : Text) : Tree := mknodat.substituted (declaredTree config)

/-- After the whole script. -/
def wiredTree (config : Text) : Tree := last (nameiTree config) (wire plainRepo false (nameiTree config)).1

section NameiTree

variable (config : Text)

theorem nameiTree_config : (nameiTree config).text kunitconfig = config := by simp [Tree.text, nameiTree]

theorem nameiTree_namei : (nameiTree config).file mknodat.src = some nameiText := by
  simp [nameiTree, kunitconfig_facts.2.2.2.2]

theorem nameiTree_exported : ∀ e ∈ UNSTATIC, e.Exported (nameiTree config) := by
  intro e he
  have hfile : (nameiTree config).file e.src =
      some (unlines ((UNSTATIC.filter fun i => i.src = e.src).map Unstatic.exportMark)) := by
    have hsrc : e.src ∈ UNSTATIC.map Unstatic.src := List.mem_map_of_mem he
    simp only [nameiTree, (exposePaths_foreign e.src (by simp [exposePaths, hsrc])).2, (unstatic_facts e he).2.2, hsrc,
      if_false, if_true]
  have hx : e.exported (nameiTree config) = true := by
    unfold Unstatic.exported grep
    rw [Tree.text, hfile, Option.getD_some, anyLine_unlines fun l hl => ?_, List.any_eq_true]
    · refine ⟨e.exportMark, List.mem_map_of_mem (List.mem_filter.2 ⟨he, ?_⟩), found_lit_iff.2 List.infix_rfl⟩
      exact decide_eq_true rfl
    · obtain ⟨i, -, rfl⟩ := List.mem_map.1 hl
      exact i.exportMark_noNewline
  exact ⟨isFile_of_exported hx, hx⟩

theorem namei_facts : mknodat.stillStatic nameiText = true ∧ mknodat.stillStatic (mknodat.perl nameiText) = false ∧
    grep [.lit mknodat.exportMark] nameiText = false := by decide

theorem nameiTree_internal : (nameiTree config).file internalH = none := by
  have hlast : internalH.2.getLast? ≠ some 'c' := by decide
  have hsrc : internalH ∉ UNSTATIC.map Unstatic.src := by
    intro h
    obtain ⟨e, -, he⟩ := List.mem_map.1 h
    exact hlast (by rw [← he, e.src_getLast])
  simp only [nameiTree, kunitconfig_facts.2.2.2.1.symm, hsrc, show internalH ≠ mknodat.src by decide, if_false]

theorem nameiTree_lone : Lone (nameiTree config) := by
  obtain ⟨hstatic, hgone, hmark⟩ := namei_facts
  have hnamei : (nameiTree config).text mknodat.src = nameiText := by
    rw [Tree.text, nameiTree_namei, Option.getD_some]
  refine ⟨nameiTree_exported config, ?_, ?_, ?_, ?_⟩
  · rwa [staticMknodat, hnamei]
  · rw [declaresMknodat, Tree.text, nameiTree_internal]
    decide
  · rwa [Unstatic.exported, hnamei]
  · rwa [hnamei]

theorem isDir_wired (d : Text) :
    (mknodat.addExport (substitutedTree config)).isDir d = (nameiTree config).isDir d := by
  unfold substitutedTree Unstatic.substituted
  split <;> rfl

theorem nameiTree_expose :
    Ends exposeFunctions (nameiTree config) (mknodat.addExport (substitutedTree config)) := by
  unfold substitutedTree declaredTree
  exact (nameiTree_lone config).ends.1

theorem wiredTree_ends : Ends (wire plainRepo false) (nameiTree config) (wiredTree config) := by
  have hdir : ∀ e ∈ tests plainRepo, (mknodat.addExport (substitutedTree config)).isDir e.subdir = true :=
      fun e he => by
    rw [isDir_wired]
    exact decide_eq_true (List.mem_append_left _ (List.mem_map_of_mem he))
  have hsource : ∀ e ∈ tests plainRepo, (plainRepo.c e.stem).isSome := fun _ _ => rfl
  have hends := wire_total (nameiTree_expose config) hdir hsource
  unfold wiredTree
  generalize wire plainRepo false = script at hends
  obtain ⟨r, hr⟩ := hends
  exact hr.ends_last

/-- The points of the exposing where the script can be interrupted. -/
theorem mem_states_wire {m : Tree} (hm : m ∈ states exposeFunctions (nameiTree config)) :
    m ∈ states (wire plainRepo false) (nameiTree config) := by
  rw [wire, mem_states_seq]
  refine Or.inr ⟨_, ends_skip.2 rfl, ?_⟩
  rw [mem_states_reading, wireFrom, mem_states_seq]
  exact Or.inl hm

theorem declaredTree_mem : declaredTree config ∈ states (wire plainRepo false) (nameiTree config) :=
  mem_states_wire config (nameiTree_lone config).ends.2.1

theorem substitutedTree_mem : substitutedTree config ∈ states exposeFunctions (nameiTree config) := by
  unfold substitutedTree declaredTree
  exact (nameiTree_lone config).ends.2.2

/-- The declaration loses nothing. -/
theorem declaredTree_not_lost : ¬ LostMknodat (nameiTree config) (declaredTree config) := by
  have hfile : (declaredTree config).file mknodat.src = (nameiTree config).file mknodat.src :=
    Tree.file_put_ne (internalH_ne_src _) _
  intro h
  have hgone := h.2.1
  rw [staticMknodat_congr hfile, h.1] at hgone
  cases hgone

/-- After the substitution the script no longer knows that `do_mknodat` is to be exported. -/
theorem substitutedTree_lost : LostMknodat (nameiTree config) (substitutedTree config) := by
  have hlone := nameiTree_lone config
  have hleft : (declaredTree config).file mknodat.src = (nameiTree config).file mknodat.src :=
    Tree.file_put_ne (internalH_ne_src _) _
  have htext : (substitutedTree config).text mknodat.src = mknodat.perl ((nameiTree config).text mknodat.src) := by
    rw [substitutedTree, Unstatic.text_substituted, Tree.text, hleft, Tree.text]
  refine ⟨hlone.static, ?_, ?_⟩
  · rw [staticMknodat, htext, hlone.found]
  · rw [Unstatic.exported, htext, perl_exportMark]
    exact hlone.unexported

end NameiTree

section Again

variable {repo : Repo} {coverage : Bool} {t s₁ s₂ s₃ r m : Tree}

/-- **Running the wiring again.** A second run of the script changes no file exactly when `.kunitconfig` did not end in
the middle of a line, or no option was missing in it, or only the one that the loop comes to more than once. -/
theorem wire_again_changes_nothing_iff (repo : Repo) (coverage : Bool) (t r : Tree)
    (hr : Ends (wire repo coverage) t r) : Ends (wire repo coverage) r r ↔ Closed (t.text kunitconfig) ∨
      (∀ opt ∈ kunitOpts coverage (hasNfsV41 t) (tests repo), opt ∈ lines (t.text kunitconfig)) ∨
      (repo.ports ≠ [] ∧ ∀ opt ∈ kunitOpts coverage (hasNfsV41 t) (tests repo), opt ≠ xfstestsOpt →
        opt ∈ (lines (t.text kunitconfig)).dropLast) := by
  obtain ⟨s, hs, h, hiff⟩ := wire_on_result hr
  have hsame : r.text kunitconfig = t.text kunitconfig ↔
      ∀ opt ∈ kunitOpts coverage (hasNfsV41 t) (tests repo), opt ∈ lines (t.text kunitconfig) := by
    rw [addOptions_text h, hs, addLines_eq_self]
  rw [hiff, addOptions_again h h.mem_states, hs, hsame]
  exact or_left_comm

/-- With a closed `.kunitconfig` a second run changes nothing. -/
theorem wire_again_closed_config : Ends (wire plainRepo false) (wiredTree "CONFIG_KUNIT=y\n".toList)
    (wiredTree "CONFIG_KUNIT=y\n".toList) := by
  refine (wire_again_changes_nothing_iff plainRepo false _ _ (wiredTree_ends _)).2 (Or.inl ?_)
  rw [nameiTree_config]
  decide

/-- With an open one the first missing option runs into its last line, and a second run adds it again. -/
theorem wire_again_open_config : Ends (wire plainRepo false) (nameiTree "CONFIG_KUNIT=y".toList)
      (wiredTree "CONFIG_KUNIT=y".toList) ∧
    ¬ Ends (wire plainRepo false) (wiredTree "CONFIG_KUNIT=y".toList) (wiredTree "CONFIG_KUNIT=y".toList) := by
  have hr := wiredTree_ends "CONFIG_KUNIT=y".toList
  obtain ⟨s, hs, h, hiff⟩ := wire_on_result hr
  rw [nameiTree_config] at hs
  refine ⟨hr, ?_⟩
  rw [hiff, addOptions_again h h.mem_states, hs, addOptions_text h, hs, addLines_eq_self]
  rintro (hall | hclosed | ⟨hports, -⟩)
  · have hopt : "CONFIG_KUNIT_ALL_TESTS=y".toList ∈ baseOpts := List.mem_map_of_mem (by simp)
    have hmem := hall _ (by
      unfold kunitOpts
      simp only [List.mem_append]
      exact Or.inl (Or.inl (Or.inl hopt)))
    exact absurd hmem (by decide)
  · exact absurd hclosed (by decide)
  · exact hports rfl

/-- **Resuming the wiring.** After an interruption anywhere in a run, a new run ends with the tree of the uninterrupted
one exactly when `do_mknodat` is not lost and the options can be added again. -/
theorem wire_completes_iff (repo : Repo) (coverage : Bool) (t r m : Tree) (hr : Ends (wire repo coverage) t r)
    (hm : m ∈ states (wire repo coverage) t) :
    Ends (wire repo coverage) m r ↔ ¬ LostMknodat t m ∧ OptionsKept repo coverage t m := by
  obtain ⟨s₁, h₁, hrest⟩ := ends_seq.1 hr
  rw [ends_reading] at hrest
  obtain ⟨s₂, h₂, hrest'⟩ := ends_seq.1 hrest
  obtain ⟨s₃, h₃, h₄⟩ := ends_seq.1 hrest'
  obtain ⟨hnamei, hconfig, hV⟩ := fixFini_leaves h₁.mem_states
  rcases mem_states_seq.1 hm with hm | ⟨s₁', h₁', hm⟩
  · exact iff_of_true (again_fini h₁ hrest hm).1 (again_fini h₁ hrest hm).2
  rw [← h₁.unique h₁', mem_states_reading] at hm
  rcases mem_states_seq.1 hm with hm | ⟨s₂', h₂', hm⟩
  · obtain ⟨hiff, hc⟩ := again_expose h₁ h₂ hrest' hm
    have hkept : OptionsKept repo coverage t m := Or.inl (hc.trans hconfig)
    rw [hiff, lostMknodat_congr hnamei, and_iff_left hkept]
  rw [← h₂.unique h₂'] at hm
  rcases mem_states_seq.1 hm with hm | ⟨s₃', h₃', hm⟩
  · obtain ⟨hends, hlost, hc⟩ := again_install h₁ h₂ h₃ h₄ hm
    exact iff_of_true hends ⟨mt (lostMknodat_congr hnamei).2 hlost, Or.inl (hc.trans hconfig)⟩
  · rw [← h₃.unique h₃'] at hm
    obtain ⟨hiff, hlost, hc⟩ := again_options h₁ h₂ h₃ hm
    rw [hiff, addOptions_again h₄ hm, and_iff_right (mt (lostMknodat_congr hnamei).2 hlost), OptionsKept, hc, hconfig,
      hV]

/-- An interruption after the declaration of `do_mknodat` is made up for. -/
theorem wire_completes_declared : Ends (wire plainRepo false) (declaredTree "CONFIG_KUNIT=y\n".toList)
    (wiredTree "CONFIG_KUNIT=y\n".toList) := by
  refine (wire_completes_iff plainRepo false _ _ _ (wiredTree_ends _) (declaredTree_mem _)).2
    ⟨declaredTree_not_lost _, Or.inr (Or.inl ?_)⟩
  rw [nameiTree_config]
  decide

/-- One after the substitution in `fs/namei.c` is not: the export line never comes. -/
theorem killed_before_export : Ends (wire plainRepo false) (nameiTree "CONFIG_KUNIT=y\n".toList)
      (wiredTree "CONFIG_KUNIT=y\n".toList) ∧
    substitutedTree "CONFIG_KUNIT=y\n".toList ∈ states (wire plainRepo false) (nameiTree "CONFIG_KUNIT=y\n".toList) ∧
    ¬ Ends (wire plainRepo false) (substitutedTree "CONFIG_KUNIT=y\n".toList)
      (wiredTree "CONFIG_KUNIT=y\n".toList) := by
  generalize "CONFIG_KUNIT=y\n".toList = config
  refine ⟨wiredTree_ends config, mem_states_wire config (substitutedTree_mem config), fun hends => ?_⟩
  obtain ⟨s₁, s₂, s₃, h₁, h₂, h₃, h₄⟩ := wire_stages (wiredTree_ends config)
  obtain rfl : nameiTree config = s₁ := ends_skip.1 h₁
  have hlost := (again_expose h₁ h₂ (ends_seq.2 ⟨s₃, h₃, h₄⟩) (substitutedTree_mem config)).1.1 hends
  exact hlost (substitutedTree_lost config)

end Again

end NfsPlayground.Wiring
