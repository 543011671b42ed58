import NfsPlayground.Generic.G001Iterations

/-!
# generic/001: the clean-up

`gen001_remove_tree()` counts up from the first number and stops at the first one that is not there. So it removes what
a chain was left with exactly where the numbers are dense: not after an unlink of the closing pass that failed at a
number other than the first, for those before it are gone by then.
-/

namespace NfsPlayground.Generic.G001

open Lines Posix
open Races (Path XFS_MNT decimal mountedFs)

variable {R : Type} {g : Prandom R} {S : Contents} {fs : Fs Text} {w : World} {x y : Nat}

/-! ## What is removed -/

theorem enoent_ne_zero : (-ENOENT : Int) ≠ 0 := by decide

/-- Whether or not the name is there, it is not there any more. -/
theorem unlink_gone {l : Int} (h : Files S fs) (hx : x < GEN001_NFILES) (hl : -2 ≤ l) :
    Files (S.set x l none) (fs.unlink (path x l)).2 ∧ ((fs.unlink (path x l)).1 = 0 ↔ S x l ≠ none) := by
  by_cases hs : S x l = none
  · rw [h.unlink_none hx hl hs]
    refine ⟨h.congr (w := ⟨fs, fun _ => 0, false⟩) fun y m _ _ => ?_, iff_of_false enoent_ne_zero (not_not.2 hs)⟩
    unfold Contents.set
    split
    · rename_i heq
      rw [heq.1, heq.2, hs]
    · rfl
  · obtain ⟨fs', hr, hfiles⟩ := h.unlink hx hl hs
    rw [hr]
    exact ⟨hfiles, iff_of_true rfl hs⟩

/-- The loop stops at the first number that is not there. -/
theorem removeNumbered_none {j : Nat} (h : Files S fs) (hx : x < GEN001_NFILES) (hnone : S x j = none) (left : Nat) :
    removeNumbered (entry x).rel left j fs = fs := by
  cases left with
  | zero => rfl
  | succ left =>
    unfold removeNumbered
    rw [show fs.unlink (gen001_path (entry x).rel j) = (-ENOENT, fs) from h.unlink_none hx (by omega) hnone]
    exact if_pos enoent_ne_zero

theorem removeNumbered_dense (hx : x < GEN001_NFILES) {m : Nat} : ∀ (left j : Nat) {S : Contents} {fs : Fs Text},
    Files S fs → (∀ k : Nat, j ≤ k → (S x k ≠ none ↔ k < m)) → m ≤ j + left →
    ∃ S', Files S' (removeNumbered (entry x).rel left j fs) ∧ ∀ y l, -2 ≤ l →
      S' y l = if y = x ∧ (j : Int) ≤ l then none else S y l := by
  intro left
  have hdone : ∀ (j : Nat) {S : Contents}, (∀ k : Nat, j ≤ k → (S x k ≠ none ↔ k < m)) → m ≤ j →
      ∀ y l, S y l = if y = x ∧ (j : Int) ≤ l then none else S y l := by
    intro j S hdense hm y l
    split
    · rename_i heq
      obtain ⟨rfl, hl⟩ := heq
      obtain ⟨k, rfl⟩ : ∃ k : Nat, l = k := ⟨l.toNat, by omega⟩
      by_contra hne
      have hk := (hdense k (by omega)).1 hne
      omega
    · rfl
  induction left with
  | zero =>
    intro j S fs h hdense hm
    exact ⟨S, h, fun y l _ => hdone j hdense hm y l⟩
  | succ left ih =>
    intro j S fs h hdense hm
    by_cases hj : j < m
    · obtain ⟨hfiles, hret⟩ := unlink_gone h hx (l := j) (by omega)
      have hok : (fs.unlink (gen001_path (entry x).rel j)).1 = 0 := hret.2 ((hdense j (Nat.le_refl j)).2 hj)
      unfold removeNumbered
      dsimp only
      rw [if_neg (not_not.2 hok)]
      obtain ⟨S', hS', hgone⟩ := ih (j + 1) hfiles (fun k hk => by
        rw [Contents.set, if_neg (by omega)]
        exact hdense k (by omega)) (by omega)
      refine ⟨S', hS', fun y l hl => ?_⟩
      rw [hgone y l hl]
      unfold Contents.set
      by_cases hy : y = x ∧ (j : Int) ≤ l
      · rw [if_pos hy]
        split
        · rfl
        · exact if_pos ⟨hy.1, by omega⟩
      · rw [if_neg hy, if_neg (by omega), if_neg (by omega)]
    · have hnone : S x j = none := by
        by_contra hne
        exact hj ((hdense j (Nat.le_refl j)).1 hne)
      rw [removeNumbered_none h hx hnone]
      exact ⟨S, h, fun y l _ => hdone j hdense (by omega) y l⟩

/-- The names of another entry stay. -/
theorem removeNumbered_frame (hx : x < GEN001_NFILES) : ∀ (left j : Nat) {S : Contents} {fs : Fs Text}, Files S fs →
    ∃ S', Files S' (removeNumbered (entry x).rel left j fs) ∧ ∀ y l, y ≠ x → S' y l = S y l := by
  intro left
  induction left with
  | zero => exact fun j S fs h => ⟨S, h, fun _ _ _ => rfl⟩
  | succ left ih =>
    intro j S fs h
    have hfiles := (unlink_gone h hx (l := j) (by omega)).1
    have hset : ∀ y l, y ≠ x → Contents.set S x j none y l = S y l := fun y l hy => if_neg fun heq => hy heq.1
    unfold removeNumbered
    dsimp only
    split
    · exact ⟨_, hfiles, hset⟩
    · obtain ⟨S', hS', hframe⟩ := ih (j + 1) hfiles
      exact ⟨S', hS', fun y l hy => (hframe y l hy).trans (hset y l hy)⟩

/-- Once the original and the `.last` are removed. -/
theorem unlink_ends (h : Files S fs) (hx : x < GEN001_NFILES) : ∃ S',
    Files S' ((fs.unlink (gen001_path (entry x).rel (-1))).2.unlink (gen001_path (entry x).rel (-2))).2 ∧
      (∀ l, S' x l = if l = -1 ∨ l = -2 then none else S x l) ∧ ∀ y l, y ≠ x → S' y l = S y l := by
  have h₁ := (unlink_gone h hx (l := -1) (by omega)).1
  have h₂ := (unlink_gone h₁ hx (l := -2) (by omega)).1
  refine ⟨_, h₂, fun l => ?_, fun y l hy => ?_⟩
  · unfold Contents.set
    by_cases h1 : l = -1
    · rw [if_pos (Or.inl h1), if_neg (by omega), if_pos ⟨rfl, h1⟩]
    · by_cases h2 : l = -2
      · rw [if_pos (Or.inr h2), if_pos ⟨rfl, h2⟩]
      · rw [if_neg (by omega), if_neg (by omega), if_neg (by omega)]
  · unfold Contents.set
    rw [if_neg fun heq => hy heq.1, if_neg fun heq => hy heq.1]

theorem removeEntry_dense {m : Nat} (h : Files S w.fs) (hx : x < GEN001_NFILES) (hm : m ≤ GEN001_NCOPY)
    (hdense : ∀ j : Nat, S x j ≠ none ↔ j < m) : ∃ S', Files S' (removeEntry w x).fs ∧
      (∀ l, -2 ≤ l → S' x l = none) ∧ ∀ y l, -2 ≤ l → y ≠ x → S' y l = S y l := by
  obtain ⟨S₁, h₁, hthis, hother⟩ := unlink_ends h hx
  obtain ⟨S', h', hgone⟩ := removeNumbered_dense hx (m := m) GEN001_NCOPY 0 h₁ (fun k _ => by
    rw [hthis, if_neg (by omega)]
    exact hdense k) (by omega)
  refine ⟨S', h', fun l hl => ?_, fun y l hl hy => ?_⟩
  · rw [hgone x l hl]
    split
    · rfl
    · rw [hthis]
      exact if_pos (by omega)
  · rw [hgone y l hl, if_neg fun heq => hy heq.1, hother y l hy]

/-! ## What is left -/

/-- The tree without its names. -/
theorem remove_tree_dense {m : Nat → Nat} (h : Files S w.fs)
    (hdense : ∀ x, m x ≤ GEN001_NCOPY ∧ ∀ j : Nat, S x j ≠ none ↔ j < m x) {p : Path} (hp : GEN001_ROOT <+: p) :
        (gen001_remove_tree w).fs.content p = none := by
  have hloop := Ends.foldl_range (f := removeEntry) (a := w)
    (I := fun X w => ∃ S, Files S w.fs ∧ (∀ x < X, ∀ l, -2 ≤ l → S x l = none) ∧
      ∀ x, X ≤ x → ∀ j : Nat, S x j ≠ none ↔ j < m x) GEN001_NFILES ?_ ?_
  · obtain ⟨S', hfiles, hnone, -⟩ := hloop
    unfold gen001_remove_tree
    dsimp only
    rw [Fs.rmdir_content, Fs.rmdir_content]
    by_contra hne
    obtain ⟨x, l, hx, hl, rfl⟩ := hfiles.named p hp hne
    rw [hfiles.content x l hx hl] at hne
    exact hne (hnone x hx l hl)
  · rintro X w' hX ⟨S', hfiles, hnone, hrest⟩
    obtain ⟨S'', hfiles', hthis, hother⟩ := removeEntry_dense hfiles hX (hdense X).1 (hrest X (Nat.le_refl X))
    refine ⟨S'', hfiles', fun x hx l hl => ?_, fun x hx j => ?_⟩
    · rcases Nat.lt_succ_iff_lt_or_eq.1 hx with hlt | rfl
      · rw [hother x l hl (Nat.ne_of_lt hlt)]
        exact hnone x hlt l hl
      · exact hthis l hl
    · rw [hother x j (by omega) (by omega)]
      exact hrest x (by omega) j
  · exact ⟨S, h, fun x hx => absurd hx (Nat.not_lt_zero x), fun x _ => (hdense x).2⟩

/-- A number behind a hole at the first one stays. -/
theorem remove_tree_gap {j : Nat} (h : Files S w.fs) (hx : x < GEN001_NFILES) (hfirst : S x 0 = none)
    (hthere : S x ((j + 1 : Nat) : Int) ≠ none) :
    (gen001_remove_tree w).fs.content (path x ((j + 1 : Nat) : Int)) ≠ none := by
  have hloop := Ends.foldl_range (f := removeEntry) (a := w)
    (I := fun _ w => ∃ S, Files S w.fs ∧ S x 0 = none ∧ S x ((j + 1 : Nat) : Int) ≠ none) GEN001_NFILES ?_
    ⟨S, h, hfirst, hthere⟩
  · obtain ⟨S', hfiles, -, hleft⟩ := hloop
    unfold gen001_remove_tree
    dsimp only
    rw [Fs.rmdir_content, Fs.rmdir_content, hfiles.content x _ hx (by omega)]
    exact hleft
  · rintro X w' hX ⟨S', hfiles, hfirst', hthere'⟩
    obtain ⟨S₁, h₁, hthis, hother⟩ := unlink_ends hfiles hX
    by_cases hxX : x = X
    · subst hxX
      have hhole : S₁ x 0 = none := by rw [hthis, if_neg (by omega), hfirst']
      refine ⟨S₁, ?_, hhole, ?_⟩
      · unfold removeEntry
        dsimp only
        rw [removeNumbered_none h₁ hx hhole]
        exact h₁
      · rw [hthis, if_neg (by omega)]
        exact hthere'
    · obtain ⟨S'', hfiles'', hframe⟩ := removeNumbered_frame hX GEN001_NCOPY 0 h₁
      refine ⟨S'', hfiles'', ?_, ?_⟩
      · rw [hframe x _ hxX, hother x _ hxX, hfirst']
      · rw [hframe x _ hxX, hother x _ hxX]
        exact hthere'

/-! ## After an abort -/

section Abort

variable {draw : Nat → UInt32} {n : Nat} {s : Site} {w₁ w₂ : World}

/-- After any number of iterations, what the next one is left with at its fault. -/
theorem abort_remains {old : Nat → Bool} (h : Files (Shape g old (fun _ => 0) (fun _ => 0)) w₁.fs)
    (hlink : ∀ x, w₁.link x = 0) (habort : gen001_chain (some s) GEN001_NCOPY draw w₁ = .error (.assertion w₂)) :
    ∃ S, Files S w₂.fs ∧ s.Leaves GEN001_NCOPY S := by
  obtain ⟨s', S, hs, hfiles, hleaves⟩ := (chain_ends (some s) _ _ h hlink).of_error habort
  cases hs
  exact ⟨S, hfiles, hleaves⟩

/-- The iteration is left where an unlink fails that its copies call for. -/
theorem unlink_aborts {old : Nat → Bool} {j : Nat} (h : Files (Shape g old (fun _ => 0) (fun _ => 0)) w₁.fs)
    (hlink : ∀ x, w₁.link x = 0) (hx : x < GEN001_NFILES) (hj : j + 1 < copies draw GEN001_NCOPY x) :
    ∃ w₂, gen001_chain (some (.unlink x j)) GEN001_NCOPY draw w₁ = .error (.assertion w₂) := by
  have hends := chain_ends (some (.unlink x j)) GEN001_NCOPY draw h hlink
  cases hrun : gen001_chain (some (.unlink x j)) GEN001_NCOPY draw w₁ with
  | ok w' => exact absurd rfl ((hends.of_ok hrun).2.2.2 x hx j hj)
  | error e =>
    cases e with
    | assertion w₂ => exact ⟨w₂, rfl⟩
    | hangs => exact absurd (hends.of_error hrun) not_false

/-- Where an iteration of 200 copies is aborted, after any number of iterations, the clean-up leaves none of the test's
files exactly if the abort is not at an unlink of a number that is not the first. -/
theorem clean_up_iff {draw : Nat → Nat → UInt32} (h : Originals g w.fs) (hlink : ∀ x, w.link x = 0)
    (hfailed : w.failed = false) (hiter : iterations g (fun _ => GEN001_NCOPY) draw n w = .ok w₁)
    (habort : gen001_chain (some s) GEN001_NCOPY (draw n) w₁ = .error (.assertion w₂)) :
    (∀ p, GEN001_ROOT <+: p → (gen001_remove_tree w₂).fs.content p = none) ↔ ∀ x j, s ≠ .unlink x (j + 1) := by
  obtain ⟨w', hw', hiterated⟩ := iterations_ok (fun _ => GEN001_NCOPY) draw h hlink hfailed n
  cases hiter.symm.trans hw'
  obtain ⟨old, hfiles₁, -⟩ := hiterated.files
  obtain ⟨S, hfiles, hleaves⟩ := abort_remains hfiles₁ hiterated.link habort
  constructor
  · rintro hclean x j rfl
    obtain ⟨hx, hfirst, hthere⟩ := hleaves
    exact remove_tree_gap hfiles hx hfirst hthere (hclean _ (root_path _))
  · intro hnot p hp
    unfold Site.Leaves at hleaves
    split at hleaves
    · exact absurd rfl (hnot _ _)
    · obtain ⟨m, hm⟩ := hleaves
      exact remove_tree_dense hfiles hm hp

/-- Two hundred copies of the first entry. -/
theorem copies_first : copies (fun _ => 0) GEN001_NCOPY 0 = 200 := by decide +kernel

theorem clean_up_iff_first : ∃ w w₂ : World, setup zeros ⟨mountedFs, fun _ => 0, false⟩ = .ok w ∧
    gen001_chain (some (.unlink 0 0)) GEN001_NCOPY (fun _ => 0) w = .error (.assertion w₂) ∧
    ∀ p, GEN001_ROOT <+: p → (gen001_remove_tree w₂).fs.content p = none := by
  obtain ⟨w, hw, hsame, horiginals⟩ := setup_ok (g := zeros) (w := ⟨mountedFs, fun _ => 0, false⟩) mountedFs_mounted
  have hlink : ∀ x, w.link x = 0 := congrFun hsame.1
  obtain ⟨w₂, hw₂⟩ := unlink_aborts (originals_shape horiginals) hlink (by decide)
    (by rw [copies_first]; decide : 0 + 1 < copies (fun _ => 0) GEN001_NCOPY 0)
  have hnone : iterations zeros (fun _ => GEN001_NCOPY) (fun _ _ => 0) 0 w = .ok w := rfl
  refine ⟨w, w₂, hw, hw₂, (clean_up_iff horiginals hlink hsame.2 hnone hw₂).2 ?_⟩
  intro x j heq
  cases heq

/-- The second of 199 unlinks fails: the first number is gone, and the clean-up looks no further. -/
theorem second_unlink_leaves_links : ∃ w w₂ : World, setup zeros ⟨mountedFs, fun _ => 0, false⟩ = .ok w ∧
    gen001_chain (some (.unlink 0 1)) GEN001_NCOPY (fun _ => 0) w = .error (.assertion w₂) ∧
    (gen001_remove_tree w₂).fs.content (path 0 1) ≠ none := by
  obtain ⟨w, hw, hsame, horiginals⟩ := setup_ok (g := zeros) (w := ⟨mountedFs, fun _ => 0, false⟩) mountedFs_mounted
  have hlink : ∀ x, w.link x = 0 := congrFun hsame.1
  obtain ⟨w₂, hw₂⟩ := unlink_aborts (originals_shape horiginals) hlink (by decide)
    (by rw [copies_first]; decide : 1 + 1 < copies (fun _ => 0) GEN001_NCOPY 0)
  obtain ⟨S, hfiles, hx, hfirst, hthere⟩ := abort_remains (originals_shape horiginals) hlink hw₂
  exact ⟨w, w₂, hw, hw₂, remove_tree_gap hfiles hx hfirst hthere⟩

end Abort

end NfsPlayground.Generic.G001
