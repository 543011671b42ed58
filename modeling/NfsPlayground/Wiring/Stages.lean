import NfsPlayground.Lib.AddLines
import NfsPlayground.Wiring.Exposed
import NfsPlayground.Wiring.Installed
import NfsPlayground.Wiring.Script

/-!
# The stages of the wiring

Each stage of the script from the point of view of a run that is interrupted in it: the linker scripts and the tests are
resumable, and so is the exposing, but for one point (`exposeFunctions_again`). Whether `do_mknodat` is to be exposed is
read off its `static`, which the substitution takes away before the export line is there; a run that is interrupted in
between never adds the line. What a stage has done is a matter of files that the stages after it leave alone.
-/

namespace NfsPlayground.Wiring

open Lines Pattern Resume

/-! ## The linker scripts -/

/-- The linker script is fixed. -/
def Fixed (p : Path) (t : Tree) : Prop := t.isFile p = true ∧ capturesFini p t = true

theorem fixLds_resumable (p : Path) : Resumable (fixLds p) (Fixed p) := by
  have hfix : Resumable (branch (capturesFini p) skip
      (seq (edit fun t => t.modify p (sed captureFini)) (branch (capturesFini p) skip die))) fun t =>
      capturesFini p t = true := by
    refine unless_resumable fun t r hp he => ?_
    obtain ⟨m, hm, h⟩ := ends_seq.1 he
    obtain rfl := ends_edit.1 hm
    rw [ends_branch] at h
    split at h
    swap
    · exact absurd h ends_die
    rename_i hr
    obtain rfl := ends_skip.1 h
    refine ⟨hr, fun m hm => ?_⟩
    rcases mem_states_seq.1 hm with hm | ⟨m', hm', hm⟩
    · rcases mem_states_edit.1 hm with rfl | rfl
      · exact Or.inr ⟨hp, he⟩
      · exact Or.inl rfl
    · obtain rfl := ends_edit.1 hm'
      rw [mem_states_branch, if_pos hr] at hm
      exact Or.inl (mem_states_skip.1 hm)
  have hfile : Keeps (fun t : Tree => (!t.isFile p) = false) (branch (capturesFini p) skip
      (seq (edit fun t => t.modify p (sed captureFini)) (branch (capturesFini p) skip die))) := by
    refine keeps_branch keeps_skip (keeps_seq (keeps_edit fun t _ => ?_) (keeps_branch keeps_skip keeps_die))
    simp [Tree.modify, Tree.isFile_put]
  have h := hfix.check hfile
  simp only [Bool.not_eq_false'] at h
  exact h

theorem fixLds_untouched {p q : Path} (h : q ≠ p) : Untouched (fixLds p) q := fun _ =>
  keeps_branch keeps_die (keeps_branch keeps_skip (keeps_seq
    (keeps_edit fun t ht => by rwa [Tree.modify, Tree.file_put_ne h]) (keeps_branch keeps_skip keeps_die)))

/-- Whether it is fixed is a matter of the file. -/
theorem Untouched.keeps_fixed {a : Script Tree} {p : Path} (h : Untouched a p) : Keeps (Fixed p) a := by
  have := h.keeps fun y => y.isSome = true ∧ grep [.lit "*(.fini_array.*)".toList] (y.getD []) = true
  exact this

theorem ldsFiles_nodup : ldsFiles.Nodup := by decide

theorem fixFini_resumable (coverage : Bool) :
    Resumable (fixFini coverage) fun t => coverage = true → ∀ p ∈ ldsFiles, Fixed p t := by
  unfold fixFini
  cases coverage with
  | false => simpa using skip_resumable (σ := Tree)
  | true =>
    have h := Resumable.loop (fun p _ => fixLds_resumable p)
      (ldsFiles_nodup.imp fun hne => (fixLds_untouched hne).keeps_fixed)
    simpa using h

theorem fixFini_untouched (coverage : Bool) {q : Path} (h : q ∉ ldsFiles) : Untouched (fixFini coverage) q := by
  intro y
  unfold fixFini
  split
  · exact keeps_loop fun p hp => fixLds_untouched (fun heq => h (by rwa [heq])) y
  · exact keeps_skip

/-! ## The files of the lists -/

/-- The names of the tests' objects. -/
def IsTest (x : Text) : Prop := "_test".toList <:+ x ∨ "xfstests_".toList <+: x

instance (x : Text) : Decidable (IsTest x) := inferInstanceAs (Decidable (_ ∨ _))

instance (p : Path) : Decidable (Entry.IsBuildFile p) := inferInstanceAs (Decidable (_ ∨ _))

/-- No file of a test, and no build file. -/
def Foreign (p : Path) : Prop := ¬ IsTest (p.2.take (p.2.length - 2)) ∧ ¬ Entry.IsBuildFile p

instance (p : Path) : Decidable (Foreign p) := inferInstanceAs (Decidable (_ ∧ _))

theorem unitTests_facts : (∀ e ∈ unitTests, "_test".toList <:+ e.flat ∧ ¬ "xfstests_".toList <+: e.flat ∧
      e.configLine ≠ "config NFS_V4_1".toList) ∧
    unitTests.Pairwise fun e i => ¬ SameObject e i := by
  unfold unitTests
  apply of_texts (P := fun ls => (∀ e ∈ ls.filterMap Entry.read, "_test".toList <:+ e.flat ∧
      ¬ "xfstests_".toList <+: e.flat ∧ e.configLine ≠ "config NFS_V4_1".toList) ∧
    (ls.filterMap Entry.read).Pairwise fun e i => ¬ SameObject e i)
  · repeat apply texts_cons
    exact texts_nil
  · decide +kernel

theorem unstatic_facts : ∀ e ∈ UNSTATIC, e.Steady ∧ Foreign e.src ∧ e.src ≠ mknodat.src := by
  unfold UNSTATIC
  dsimp only
  apply of_texts (P := fun ls => ∀ e ∈ ls.filterMap Unstatic.read, e.Steady ∧ Foreign e.src ∧ e.src ≠ mknodat.src)
  · repeat apply texts_cons
    exact texts_nil
  · decide +kernel

theorem mknodat_steady : mknodat.Steady := by decide

theorem fixture_flat : fixture.flat = "xfstests_nfs_fixture".toList := by decide

/-- A port has no slash in its name. -/
theorem portEntry_flat (port : Port) : (portEntry port).flat = "xfstests_generic_".toList ++ port.name := by
  have hname : port.name.map (fun c => if c = '/' then '_' else c) = port.name := by
    refine (List.map_congr_left fun c hc => if_neg ?_).trans (List.map_id' _)
    rintro rfl
    exact absurd (List.all_eq_true.1 port.ok _ hc) (by decide)
  have hdir : "xfstests/generic/".toList.map (fun c => if c = '/' then '_' else c) = "xfstests_generic_".toList := by
    decide
  unfold Entry.flat portEntry xfstestsEntry
  rw [List.map_append, hname, hdir]

theorem xfstests_named :
    "xfstests_".toList <+: fixture.flat ∧ ∀ port, "xfstests_".toList <+: (portEntry port).flat := by
  refine ⟨by rw [fixture_flat]; decide, fun port => ?_⟩
  rw [portEntry_flat]
  exact (show "xfstests_".toList <+: "xfstests_generic_".toList by decide).trans (List.prefix_append _ _)

/-- The entries of `TESTS`. -/
theorem forall_tests {repo : Repo} {P : Entry → Prop} :
    (∀ e ∈ tests repo, P e) ↔ (∀ e ∈ unitTests, P e) ∧ P fixture ∧ ∀ port ∈ repo.ports, P (portEntry port) := by
  rw [tests, List.forall_mem_append, List.forall_mem_cons, List.forall_mem_map]

theorem tests_isTest (repo : Repo) : ∀ e ∈ tests repo, IsTest e.flat :=
  forall_tests.2 ⟨fun e he => Or.inl (unitTests_facts.1 e he).1, Or.inr xfstests_named.1,
    fun port _ => Or.inr (xfstests_named.2 port)⟩

/-- No two entries are for the same object. -/
theorem tests_distinct (repo : Repo) : (tests repo).Pairwise fun e i => ¬ SameObject e i := by
  have hflat : ∀ {e i : Entry}, e.flat ≠ i.flat → ¬ SameObject e i := fun h heq => h (congrArg Prod.snd heq)
  have hunit : ∀ e ∈ unitTests, ∀ i : Entry, "xfstests_".toList <+: i.flat → ¬ SameObject e i := fun e he i hi =>
    hflat fun heq => (unitTests_facts.1 e he).2.1 (heq ▸ hi)
  unfold tests
  rw [List.pairwise_append, List.pairwise_cons, List.pairwise_map]
  have hports := List.pairwise_map.1 repo.ports_nodup
  refine ⟨unitTests_facts.2, ⟨fun i hi => ?_, hports.imp fun hne => ?_⟩, fun e he i hi => ?_⟩
  · obtain ⟨port, -, rfl⟩ := List.mem_map.1 hi
    refine hflat fun heq => ?_
    rw [portEntry_flat, fixture_flat] at heq
    have hlen : "xfstests_generic_".toList <+: "xfstests_nfs_fixture".toList := ⟨_, heq.symm⟩
    exact absurd hlen (by decide)
  · refine hflat fun heq => ?_
    rw [portEntry_flat, portEntry_flat, List.append_right_inj] at heq
    exact hne heq
  · rcases List.mem_cons.1 hi with rfl | hi
    · exact hunit e he _ xfstests_named.1
    · obtain ⟨port, -, rfl⟩ := List.mem_map.1 hi
      exact hunit e he _ (xfstests_named.2 port)

/-- The tests leave alone what is foreign to them. -/
theorem Foreign.leaves {p : Path} (hp : Foreign p) {e : Entry} (he : IsTest e.flat) : e.Leaves p := by
  have htake : ∀ x : Text, x.length = 2 → (e.flat ++ x).take ((e.flat ++ x).length - 2) = e.flat := fun x hx => by
    rw [List.length_append, hx, Nat.add_sub_cancel, List.take_left]
  refine ⟨fun heq => hp.1 ?_, fun heq => hp.1 ?_, hp.2⟩
  · rw [heq]
    show IsTest ((e.flat ++ ".c".toList).take ((e.flat ++ ".c".toList).length - 2))
    rwa [htake _ rfl]
  · rw [heq]
    show IsTest ((e.flat ++ ".h".toList).take ((e.flat ++ ".h".toList).length - 2))
    rwa [htake _ rfl]

theorem installAll_untouched {p : Path} (hp : Foreign p) (repo : Repo) (v : Variant) :
    Untouched (installAll repo v (tests repo)) p := fun y =>
  keeps_loop fun e he => Entry.install_untouched (hp.leaves (tests_isTest repo e he)) repo v y

/-! ## Exposing -/

theorem Unstatic.src_getLast (e : Unstatic) : e.src.2.getLast? = some 'c' := by simp [Unstatic.src]

theorem expose_untouched_of (e : Unstatic) {p : Path} (hc : p.2.getLast? ≠ some 'c') (hmk : p.2 ≠ "Makefile".toList) :
    Untouched e.expose p := by
  refine e.expose_untouched (fun heq => hc ?_) fun heq => hmk ?_
  · rw [heq, e.src_getLast]
  · rw [heq]
    rfl

theorem loop_unstatic_resumable :
    Resumable (loop Unstatic.expose UNSTATIC) fun t => ∀ e ∈ UNSTATIC, e.Exported t :=
  Unstatic.loop_expose_resumable fun e he => (unstatic_facts e he).1

/-- The entries of `UNSTATIC` are not about `fs/namei.c`. -/
theorem loop_unstatic_namei : Untouched (loop Unstatic.expose UNSTATIC) mknodat.src := fun y =>
  keeps_loop fun e he => e.expose_untouched (unstatic_facts e he).2.2.symm (mknodat.src_ne_makefile e) y

theorem mknodatPrototype_found :
    found [.bound, .lit "do_mknodat".toList, .bound] none mknodatPrototype = true ∧
      found [.bound, .lit "do_mknodat".toList, .bound] none [] = false ∧ '\n' ∉ mknodatPrototype := by
  decide

theorem declaresMknodat_declareMknodat (t : Tree) : declaresMknodat (declareMknodat t) = true := by
  obtain ⟨hfound, hnil, hnl⟩ := mknodatPrototype_found
  unfold declaresMknodat declareMknodat grep Tree.append
  rw [Tree.text_put_self, anyLine_append_line hnil _ hnl, hfound, Bool.or_true]

theorem loop_expose_keeps_declares (es : List Unstatic) :
    Keeps (fun t => declaresMknodat t = true) (loop Unstatic.expose es) := by
  refine keeps_loop fun e _ t ht m hm => ?_
  have hfile := (expose_untouched_of e (p := internalH) (by decide) (by decide)).text hm
  unfold declaresMknodat at ht ⊢
  rwa [hfile]

/-- Everything that was to be exposed is. -/
def ExposedAll (mknodatToo : Bool) (t : Tree) : Prop :=
  (∀ e ∈ UNSTATIC, e.Exported t) ∧ (mknodatToo = true → declaresMknodat t = true ∧ mknodat.Exported t)

theorem exposeAll_resumable (b : Bool) : Resumable (exposeAll b) (ExposedAll b) := by
  unfold exposeAll ExposedAll
  cases b with
  | false =>
    rw [if_neg (by decide)]
    exact loop_unstatic_resumable.of_iff fun t => by simp
  | true =>
    have hsteady : ∀ e ∈ UNSTATIC ++ [mknodat], e.Steady := by
      rw [List.forall_mem_append, List.forall_mem_singleton]
      exact ⟨fun e he => (unstatic_facts e he).1, mknodat_steady⟩
    rw [if_pos rfl]
    refine ((guarded_resumable fun t _ => declaresMknodat_declareMknodat t).seq
      (Unstatic.loop_expose_resumable hsteady) (loop_expose_keeps_declares _)).of_iff fun t => ?_
    rw [List.forall_mem_append, List.forall_mem_singleton]
    exact ⟨fun h => ⟨(h.2 rfl).1, h.1, (h.2 rfl).2⟩, fun h => ⟨h.2.1, fun _ => ⟨h.1, h.2.2⟩⟩⟩

/-- The interruption that cannot be made up for: `do_mknodat` was static, is no more, and has no export line. -/
def LostMknodat (t m : Tree) : Prop :=
  staticMknodat t = true ∧ staticMknodat m = false ∧ mknodat.exported m = false

theorem staticMknodat_congr {t m : Tree} (h : m.file mknodat.src = t.file mknodat.src) :
    staticMknodat m = staticMknodat t := by
  rw [staticMknodat, Tree.text, h, staticMknodat, Tree.text]

theorem exported_congr {e : Unstatic} {t m : Tree} (h : m.file e.src = t.file e.src) : e.exported m = e.exported t := by
  rw [Unstatic.exported, Tree.text, h, Unstatic.exported, Tree.text]

theorem isFile_of_exported {e : Unstatic} {t : Tree} (h : e.exported t = true) : t.isFile e.src = true := by
  unfold Tree.isFile
  cases hf : t.file e.src with
  | some x => rfl
  | none =>
    rw [Unstatic.exported, Tree.text, hf] at h
    cases h

/-- Once the loop has begun, `do_mknodat` is declared and its `static` is gone, a run that finds it exported does what
the interrupted run would have done. -/
theorem exposeAll_exported {m r : Tree} (hr : Ends (exposeAll true) m r) (hd : declaresMknodat m = true)
    (hx : mknodat.exported m = true) : Ends (exposeAll false) m r := by
  unfold exposeAll at hr ⊢
  rw [if_pos rfl] at hr
  rw [if_neg (by decide)]
  obtain ⟨m₁, h₁, h⟩ := ends_seq.1 hr
  have hm₁ : m₁ = m := by
    rw [ends_guarded.1 h₁, if_pos hd]
  rw [hm₁] at h
  rw [loop_append] at h
  obtain ⟨m₂, h₂, h₃⟩ := ends_seq.1 h
  have hdone : mknodat.Exported m₂ := by
    have hx₂ : mknodat.exported m₂ = true := by
      rw [exported_congr (loop_unstatic_namei.file h₂.mem_states), hx]
    exact ⟨isFile_of_exported hx₂, hx₂⟩
  obtain ⟨m₃, h₄, h₅⟩ := ends_seq.1 h₃
  rw [(Unstatic.expose_resumable mknodat_steady).settled hdone |>.unique h₄, ends_skip.1 h₅] at h₂
  exact h₂

/-- A run that is interrupted while exposing is made up for by the next unless `do_mknodat` is lost. -/
theorem exposeFunctions_again {t r m : Tree} (hr : Ends exposeFunctions t r) (hm : m ∈ states exposeFunctions t) :
    Ends exposeFunctions m r ↔ ¬ LostMknodat t m := by
  have hresume : Ends (exposeAll (staticMknodat t)) m r := (exposeAll_resumable _).resumes t r hr m hm
  show Ends (exposeAll (staticMknodat m)) m r ↔ _
  have hm' : m ∈ states (exposeAll (staticMknodat t)) t := hm
  unfold LostMknodat
  cases ht : staticMknodat t with
  | false =>
    rw [ht] at hresume hm'
    have hnamei : Untouched (exposeAll false) mknodat.src := loop_unstatic_namei
    rw [staticMknodat_congr (hnamei.file hm'), ht]
    exact iff_of_true hresume (by simp)
  | true =>
    rw [ht] at hresume hm'
    cases hsm : staticMknodat m with
    | true => exact iff_of_true hresume (by simp)
    | false =>
      have hdeclares : declaresMknodat m = true := by
        unfold exposeAll at hm'
        rw [if_pos rfl] at hm'
        rcases mem_states_seq.1 hm' with hm' | ⟨s, hs, hm'⟩
        · -- the declaration does not touch `fs/namei.c`
          have hleft : Untouched (guarded declaresMknodat declareMknodat) mknodat.src := fun y =>
            keeps_guarded fun s hs => by
              rwa [declareMknodat, Tree.append, Tree.file_put_ne (show mknodat.src ≠ internalH by decide)]
          rw [staticMknodat_congr (hleft.file hm'), ht] at hsm
          cases hsm
        · exact loop_expose_keeps_declares _ s ((guarded_resumable fun t _ =>
            declaresMknodat_declareMknodat t).reaches hs) m hm'
      cases hx : mknodat.exported m with
      | true => exact iff_of_true (exposeAll_exported hresume hdeclares hx) (by simp)
      | false =>
        refine iff_of_false (fun h => ?_) (by simp)
        have hdone := (((exposeAll_resumable true).reaches hresume).2 rfl).2.2
        have hfile := loop_unstatic_namei.file h.mem_states
        rw [exported_congr hfile, hx] at hdone
        cases hdone

/-- What the exposing has done is done for what it finds then. -/
theorem exposeFunctions_reaches {t r : Tree} (hr : Ends exposeFunctions t r) :
    ExposedAll (staticMknodat t) r ∧ ExposedAll (staticMknodat r) r := by
  have hdone := (exposeAll_resumable (staticMknodat t)).reaches hr
  refine ⟨hdone, hdone.1, fun hstatic => hdone.2 ?_⟩
  by_contra ht
  rw [Bool.not_eq_true] at ht
  have hr' : Ends (exposeAll (staticMknodat t)) t r := hr
  rw [ht] at hr'
  rw [staticMknodat_congr (loop_unstatic_namei.file hr'.mem_states), ht] at hstatic
  cases hstatic

/-- Only `do_mknodat` is left to expose, and the substitution finds it. -/
structure Lone (t : Tree) : Prop where
  exported : ∀ e ∈ UNSTATIC, e.Exported t
  static : staticMknodat t = true
  undeclared : declaresMknodat t = false
  unexported : mknodat.exported t = false
  found : mknodat.stillStatic (mknodat.perl (t.text mknodat.src)) = false

theorem internalH_ne_src (e : Unstatic) : e.src ≠ internalH := by
  have hlast : internalH.2.getLast? ≠ some 'c' := by decide
  exact fun heq => hlast (by rw [← heq, e.src_getLast])

/-- How the exposing runs then, and two of the points where it can be interrupted. -/
theorem Lone.ends {t : Tree} (h : Lone t) :
    Ends exposeFunctions t (mknodat.addExport (mknodat.substituted (declareMknodat t))) ∧
      declareMknodat t ∈ states exposeFunctions t ∧
      mknodat.substituted (declareMknodat t) ∈ states exposeFunctions t := by
  have hleft : ∀ e : Unstatic, (declareMknodat t).file e.src = t.file e.src := fun e =>
    Tree.file_put_ne (internalH_ne_src e) _
  have htext : (declareMknodat t).text mknodat.src = t.text mknodat.src := by rw [Tree.text, hleft, Tree.text]
  have hfile : t.isFile mknodat.src = true := by
    unfold Tree.isFile
    cases hf : t.file mknodat.src with
    | some x => rfl
    | none =>
      have hs := h.static
      rw [staticMknodat, Tree.text, hf] at hs
      cases hs
  have hdeclare : Ends (guarded declaresMknodat declareMknodat) t (declareMknodat t) := by
    rw [ends_guarded, h.undeclared, if_neg (by decide)]
  have hloop : Ends (loop Unstatic.expose UNSTATIC) (declareMknodat t) (declareMknodat t) :=
    loop_unstatic_resumable.settled fun e he => by
      rw [Unstatic.Exported, Tree.isFile, hleft, exported_congr (hleft e)]
      exact h.exported e he
  obtain ⟨hends, hmem⟩ := Unstatic.expose_ends (e := mknodat) (t := declareMknodat t)
    (by rw [Tree.isFile, hleft]; exact hfile) (by rw [exported_congr (hleft _), h.unexported]) (by rw [htext, h.found])
  unfold exposeFunctions
  rw [ends_reading, mem_states_reading, mem_states_reading, h.static, exposeAll, if_pos rfl, loop_append]
  refine ⟨ends_seq.2 ⟨_, hdeclare, ends_seq.2 ⟨_, hloop, ends_seq.2 ⟨_, hends, ends_skip.2 rfl⟩⟩⟩,
    mem_states_seq.2 (Or.inl hdeclare.mem_states), mem_states_seq.2 (Or.inr ⟨_, hdeclare, ?_⟩)⟩
  exact mem_states_seq.2 (Or.inr ⟨_, hloop, mem_states_seq.2 (Or.inl hmem)⟩)

/-- The files the exposing is about. -/
def exposePaths : List Path := mknodat.src :: internalH :: UNSTATIC.map Unstatic.src

theorem exposedAll_congr {t m : Tree} (h : ∀ p ∈ exposePaths, m.file p = t.file p) {b : Bool} (ht : ExposedAll b t) :
    ExposedAll b m := by
  unfold exposePaths at h
  rw [List.forall_mem_cons, List.forall_mem_cons, List.forall_mem_map] at h
  obtain ⟨hnamei, hinternal, hsrc⟩ := h
  have hexported : ∀ e : Unstatic, m.file e.src = t.file e.src → e.Exported t → e.Exported m := fun e he h => by
    rwa [Unstatic.Exported, Tree.isFile, he, exported_congr he]
  refine ⟨fun e he => hexported e (hsrc e he) (ht.1 e he), fun hb => ⟨?_, hexported _ hnamei (ht.2 hb).2⟩⟩
  have hd := (ht.2 hb).1
  rwa [declaresMknodat, Tree.text, hinternal]

theorem exposePaths_foreign : ∀ p ∈ exposePaths, Foreign p ∧ p ≠ kunitconfig := by
  have hlast : kunitconfig.2.getLast? ≠ some 'c' := by decide
  have hc : ∀ e : Unstatic, e.src ≠ kunitconfig := fun e heq => hlast (by rw [← heq, e.src_getLast])
  unfold exposePaths
  rw [List.forall_mem_cons, List.forall_mem_cons, List.forall_mem_map]
  exact ⟨by decide, by decide, fun e he => ⟨(unstatic_facts e he).2.1, hc e⟩⟩

theorem exposeAll_untouched (b : Bool) {p : Path} (hc : p.2.getLast? ≠ some 'c') (hmk : p.2 ≠ "Makefile".toList)
    (hh : p ≠ internalH) : Untouched (exposeAll b) p := by
  intro y
  have hloop : ∀ es, Keeps (fun t => t.file p = y) (loop Unstatic.expose es) := fun es =>
    keeps_loop fun e _ => expose_untouched_of e hc hmk y
  unfold exposeAll
  split
  · exact keeps_seq (keeps_guarded fun t ht => by rwa [declareMknodat, Tree.append, Tree.file_put_ne hh]) (hloop _)
  · exact hloop _

theorem exposeFunctions_untouched {p : Path} (hc : p.2.getLast? ≠ some 'c') (hmk : p.2 ≠ "Makefile".toList)
    (hh : p ≠ internalH) : Untouched exposeFunctions p := fun y =>
  keeps_reading fun b => exposeAll_untouched b hc hmk hh y

/-! ## Installing -/

theorem variant_congr {t m : Tree} (hmodule : m.file moduleH = t.file moduleH)
    (hnamei : m.file mknodat.src = t.file mknodat.src) : variant m = variant t := by
  unfold variant Tree.text
  rw [hmodule, hnamei]

theorem foreign_variant : Foreign moduleH ∧ Foreign mknodat.src := by decide

theorem installTests_untouched {p : Path} (hp : Foreign p) (repo : Repo) : Untouched (installTests repo) p := fun y =>
  keeps_reading fun v => installAll_untouched hp repo v y

/-- All the tests are installed. -/
def InstalledAll (repo : Repo) (t : Tree) : Prop := ∀ e ∈ tests repo, e.Installed repo (variant t) t

theorem installTests_resumable (repo : Repo) : Resumable (installTests repo) (InstalledAll repo) := by
  have hall : ∀ v, Resumable (installAll repo v (tests repo)) fun t => ∀ e ∈ tests repo, e.Installed repo v t :=
    fun v => installAll_resumable repo v (tests_distinct repo)
  refine reading_resumable hall fun v y t ht m hm => ?_
  show variant m = y
  rw [variant_congr ((installAll_untouched foreign_variant.1 repo v).file hm)
    ((installAll_untouched foreign_variant.2 repo v).file hm), ht]

theorem tests_not_nfsV41 (repo : Repo) : ∀ e ∈ tests repo, e.configLine ≠ "config NFS_V4_1".toList := by
  have hxfstests : fixture.configLine ≠ "config NFS_V4_1".toList := by decide
  exact forall_tests.2 ⟨fun e he => (unitTests_facts.1 e he).2.2, hxfstests, fun port _ => hxfstests⟩

/-- No test brings the symbol the options depend on. -/
theorem install_keeps_nfsV41 {e : Entry} (he : e.configLine ≠ "config NFS_V4_1".toList) (repo : Repo) (v : Variant)
    (b : Bool) : Keeps (fun t => hasNfsV41 t = b) (e.install repo v) := by
  have hput : ∀ {t : Tree} {p : Path} (x : Text), p.2 ≠ "Kconfig".toList → hasNfsV41 (t.put p x) = hasNfsV41 t := by
    intro t p x hp
    rw [hasNfsV41, Tree.text_put_ne (fun heq => hp (by rw [← heq])), hasNfsV41]
  refine e.install_keeps repo v (fun t x ht => ?_) (fun t x ht => ?_) (fun t ht => ?_) fun t ht => ?_
  · rwa [hput x fun h => e.not_isBuildFile_source (Or.inr h)]
  · rwa [hput x fun h => e.not_isBuildFile_header (Or.inr h)]
  · rwa [Entry.addObject, Tree.append, hput _ (show "Makefile".toList ≠ "Kconfig".toList by decide)]
  · rw [← ht]
    unfold Entry.addSymbol Tree.append hasNfsV41
    generalize hV41 : "config NFS_V4_1".toList = l at he
    have hl : l.head? = some 'c' := by rw [← hV41]; decide
    have hnil : (([] : Text) == l) = false := by
      rw [beq_eq_false_iff_ne]
      rintro rfl
      cases hl
    by_cases hp : ("fs/nfs".toList, "Kconfig".toList) = e.kconfig t
    · have hstanza : e.stanza.any (· == l) = false := by
        rw [List.any_eq_false]
        intro k hk heq
        rw [beq_iff_eq] at heq
        exact he (Entry.eq_configLine (heq ▸ hl) hk ▸ heq)
      rw [hp, Tree.text_put_self, decide_eq_decide, mem_lines_iff, mem_lines_iff,
        anyLine_append_lines hnil _ e.stanza_noNewline, hstanza, Bool.or_false]
    · rw [Tree.text_put_ne hp]

theorem installTests_keeps_nfsV41 (repo : Repo) (b : Bool) : Keeps (fun t => hasNfsV41 t = b) (installTests repo) :=
  keeps_reading fun v => keeps_loop fun e he => install_keeps_nfsV41 (tests_not_nfsV41 repo e he) repo v b

/-! ## The options -/

theorem hasOption_isFile {opt : Text} {t : Tree} (h : hasOption opt t = true) :
    t.file kunitconfig = some (t.text kunitconfig) := by
  unfold hasOption at h
  rw [decide_eq_true_iff] at h
  unfold Tree.text at h ⊢
  cases hf : t.file kunitconfig with
  | some x => rfl
  | none =>
    rw [hf] at h
    cases h

theorem addOption_ends {opt : Text} {t r : Tree} :
    Ends (addOption opt) t r ↔ r = t.put kunitconfig (addLine (t.text kunitconfig) opt) := by
  unfold addOption
  rw [ends_guarded]
  cases h : hasOption opt t with
  | true =>
    have hmem : opt ∈ lines (t.text kunitconfig) := by simpa [hasOption] using h
    rw [if_pos rfl, addLine_of_mem hmem, Tree.put_self (hasOption_isFile h)]
  | false =>
    have hmem : opt ∉ lines (t.text kunitconfig) := by simpa [hasOption] using h
    rw [if_neg (by decide), addLine_of_not_mem hmem, Tree.append]

/-- The loop over the options is `addLines` on the file. -/
theorem loop_addOption_ends {opt : Text} : ∀ {opts : List Text} {t r : Tree},
    Ends (loop addOption (opt :: opts)) t r ↔ r = t.put kunitconfig (addLines (t.text kunitconfig) (opt :: opts))
  | [], t, r => by
    simp only [loop, ends_seq, addOption_ends, ends_skip, exists_eq_left]
    exact eq_comm
  | opt' :: opts, t, r => by
    rw [loop, ends_seq]
    simp only [addOption_ends, exists_eq_left, loop_addOption_ends, Tree.text_put_self, Tree.put_put]
    rfl

/-- Where the loop over the options can be interrupted. -/
theorem mem_states_loop_addOption : ∀ {opts : List Text} {t m : Tree}, m ∈ states (loop addOption opts) t →
    m = t ∨ ∃ os ps, opts = os ++ ps ∧ m = t.put kunitconfig (addLines (t.text kunitconfig) os)
  | [], t, m, h => Or.inl (mem_states_skip.1 h)
  | opt :: opts, t, m, h => by
    rcases mem_states_seq.1 h with h | ⟨s, hs, h⟩
    · unfold addOption guarded at h
      rw [mem_states_branch] at h
      split at h
      · exact Or.inl (mem_states_skip.1 h)
      · rename_i hopt
        rcases mem_states_edit.1 h with rfl | rfl
        · exact Or.inl rfl
        · have hmem : opt ∉ lines (t.text kunitconfig) := by simpa [hasOption] using hopt
          refine Or.inr ⟨[opt], opts, rfl, ?_⟩
          show _ = t.put kunitconfig (addLine _ opt)
          rw [addLine_of_not_mem hmem, Tree.append]
    · obtain rfl := addOption_ends.1 hs
      refine Or.inr ?_
      rcases mem_states_loop_addOption h with rfl | ⟨os, ps, rfl, rfl⟩
      · exact ⟨[opt], opts, rfl, rfl⟩
      · refine ⟨opt :: os, ps, rfl, ?_⟩
        rw [Tree.text_put_self, Tree.put_put]
        rfl

theorem addOption_keeps {I : Tree → Prop} (h : ∀ t x, I t → I (t.put kunitconfig x)) (repo : Repo)
    (coverage nfsV41 : Bool) : Keeps I (addOptions repo coverage nfsV41) :=
  keeps_loop fun _ _ => keeps_guarded fun t ht => h t _ ht

theorem addOptions_untouched {p : Path} (hp : p ≠ kunitconfig) (repo : Repo) (coverage nfsV41 : Bool) :
    Untouched (addOptions repo coverage nfsV41) p := fun _ =>
  addOption_keeps (fun _ _ ht => by rwa [Tree.file_put_ne hp]) repo coverage nfsV41

theorem kunitconfig_last : kunitconfig.2.getLast? = some 'g' ∧ kunitconfig.2 ≠ "Makefile".toList ∧
    kunitconfig.2 ≠ "Kconfig".toList := by decide

/-- The options leave what is installed as it is. -/
theorem addOptions_keeps_installedAll (repo : Repo) (coverage nfsV41 : Bool) :
    Keeps (InstalledAll repo) (addOptions repo coverage nfsV41) := by
  obtain ⟨hlast, hmk, hk⟩ := kunitconfig_last
  refine addOption_keeps (fun t x ht e he => ?_) repo coverage nfsV41
  have hne : ∀ {p : Path}, p.2.getLast? ≠ some 'g' → p ≠ kunitconfig := fun hp heq => hp (by rw [heq, hlast])
  have hsource : e.sourceFile ≠ kunitconfig := hne (by simp [Entry.sourceFile])
  have hheader : e.headerFile ≠ kunitconfig := hne (by simp [Entry.headerFile])
  have hv : variant (t.put kunitconfig x) = variant t :=
    variant_congr (Tree.file_put_ne (by decide) x) (Tree.file_put_ne (by decide) x)
  obtain ⟨hdir, hsrc, hhdr, hobject, hsymbol⟩ := ht e he
  rw [hv]
  refine ⟨hdir, ?_, ?_, ?_, ?_⟩
  · simpa only [Tree.file_put_ne hsource] using hsrc
  · simpa only [Tree.file_put_ne hheader] using hhdr
  · rwa [Entry.hasObject_put fun heq => hmk (by rw [heq]; rfl)]
  · rwa [Entry.hasSymbol_put hk]

end NfsPlayground.Wiring
