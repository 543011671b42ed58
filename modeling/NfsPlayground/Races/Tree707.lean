import NfsPlayground.Lib.PosixFiles
import NfsPlayground.Races.G707
import Mathlib.Data.Finset.Card

/-!
# generic/707: the tree

`Grown made place files` says what is at `G707_ROOT` and below: the first `made` parents, the directory that moves in
the parent `place`, and in it the files of the numbers `files`. One lemma for each call by path says what it does to
these three, whatever path the creator has built.
-/

namespace NfsPlayground.Races.G707

open Lines Posix Threads

structure Grown (made : Nat) (place : Option Nat) (files : Finset Nat) (fs : Fs Text) : Prop where
  tidy : fs.Tidy
  root : fs.get G707_ROOT = some .dir
  parents : ∀ i, fs.get (parent i) = if i < made then some .dir else none
  places : ∀ i, fs.get (dirpath i) = if place = some i then some .dir else none
  held : ∀ k t, place = some k → t ≠ [] → (fs.get (dirpath k ++ t) ≠ none ↔ ∃ i ∈ files, t = [fileName i])
  notDir : ∀ k i, fs.get (filePath k i) ≠ some .dir

/-! ## Paths -/

theorem parent_inj {i j : Nat} (h : parent i = parent j) : i = j := by
  have hname : dirName i = dirName j := List.singleton_inj.1 (List.append_cancel_left h)
  exact decimal_inj (List.append_cancel_left hname)

theorem dirpath_inj {i j : Nat} (h : dirpath i = dirpath j) : i = j := parent_inj (List.append_cancel_right h)

theorem fileName_inj {i j : Nat} (h : fileName i = fileName j) : i = j := decimal_inj (List.append_cancel_left h)

theorem length_root : G707_ROOT.length = 3 := rfl

theorem length_parent (i : Nat) : (parent i).length = 4 := rfl

theorem length_dirpath (i : Nat) : (dirpath i).length = 5 := rfl

theorem length_filePath (k i : Nat) : (filePath k i).length = 6 := rfl

/-- Paths of different lengths differ. -/
theorem ne_of_length {p q : Path} (h : p.length ≠ q.length) : p ≠ q := fun heq => h (congrArg List.length heq)

theorem dirpath_pre {i j : Nat} {t : Path} : dirpath i <+: dirpath j ++ t ↔ i = j := by
  constructor
  · rintro ⟨u, heq⟩
    exact dirpath_inj (List.append_inj_left heq rfl)
  · rintro rfl
    exact List.prefix_append _ _

theorem not_dirpath_pre {i : Nat} {p : Path} (h : p.length < 5) : ¬ dirpath i <+: p := fun hp =>
  absurd hp.length_le (by rw [length_dirpath]; omega)

section Calls

variable {n k : Nat} {place : Option Nat} {files : Finset Nat} {fs fs' : Fs Text}

theorem Grown.parent_dir (h : Grown n place files fs) {i : Nat} (hi : i < n) : fs.get (parent i) = some .dir := by
  rw [h.parents, if_pos hi]

theorem Grown.dir (h : Grown n (some k) files fs) : fs.get (dirpath k) = some .dir := by
  rw [h.places, if_pos rfl]

theorem Grown.absent (h : Grown n place files fs) {i : Nat} (hi : place ≠ some i) : fs.get (dirpath i) = none := by
  rw [h.places, if_neg hi]

theorem Grown.file (h : Grown n (some k) files fs) {i : Nat} (hi : i ∈ files) :
    ∃ f, fs.get (filePath k i) = some (.file f) := by
  have hne := (h.held k [fileName i] rfl (List.cons_ne_nil _ _)).2 ⟨i, hi, rfl⟩
  cases hget : fs.get (filePath k i) with
  | none => exact absurd hget hne
  | some x =>
    cases x with
    | dir => exact absurd hget (h.notDir k i)
    | file f => exact ⟨f, rfl⟩

theorem Grown.free (h : Grown n (some k) files fs) {i : Nat} (hi : i ∉ files) : fs.get (filePath k i) = none := by
  by_contra hne
  obtain ⟨j, hj, heq⟩ := (h.held k [fileName i] rfl (List.cons_ne_nil _ _)).1 hne
  rw [fileName_inj (List.singleton_inj.1 heq)] at hi
  exact hi hj

/-! ## The test function's calls -/

theorem Grown.of_mkdir (htidy : fs.Tidy) (hmnt : fs.get XFS_MNT = some .dir) (hnone : fs.get G707_ROOT = none) :
    ∃ fs', fs.mkdir G707_ROOT = (0, fs') ∧ Grown 0 none ∅ fs' := by
  obtain ⟨fs', hr, htidy', -, hget⟩ := Fs.mkdir_tidy htidy hmnt hnone
  have hat : ∀ q, fs'.get q = if q = G707_ROOT then some .dir else fs.get q := hget
  have hbelow : ∀ t, t ≠ [] → fs'.get (G707_ROOT ++ t) = none := by
    intro t ht
    rw [hat, if_neg fun heq => ht (List.append_right_eq_self.1 heq)]
    exact htidy.free hnone t
  refine ⟨fs', hr, htidy', ?_, fun i => ?_, fun i => ?_, nofun, fun k i => ?_⟩
  · rw [hat]
    exact if_pos rfl
  · rw [if_neg (Nat.not_lt_zero i)]
    exact hbelow [dirName i] (List.cons_ne_nil _ _)
  · exact hbelow [dirName i, moving] (List.cons_ne_nil _ _)
  · rw [show fs'.get (filePath k i) = none from hbelow [dirName k, moving, fileName i] (List.cons_ne_nil _ _)]
    nofun

theorem Grown.mkdir_parent (h : Grown n none ∅ fs) :
    ∃ fs', fs.mkdir (parent n) = (0, fs') ∧ Grown (n + 1) none ∅ fs' := by
  have hnone : fs.get (parent n) = none := by
    rw [h.parents, if_neg (Nat.lt_irrefl n)]
  obtain ⟨fs', hr, htidy, -, hget⟩ := Fs.mkdir_tidy h.tidy h.root hnone
  have helse : ∀ q, q ≠ parent n → fs'.get q = fs.get q := fun q hq => (hget q).trans (if_neg hq)
  refine ⟨fs', hr, htidy, ?_, fun i => ?_, fun i => ?_, nofun, fun k i => ?_⟩
  · rw [helse _ (ne_of_length (by rw [length_parent, length_root]; decide)), h.root]
  · by_cases hi : i = n
    · subst hi
      rw [hget, if_pos (Nat.lt_succ_self i)]
      exact if_pos rfl
    · rw [helse _ fun heq => hi (parent_inj heq), h.parents]
      exact if_congr (by omega) rfl rfl
  · rw [helse _ (ne_of_length (by rw [length_dirpath, length_parent]; decide)), h.places]
  · rw [helse _ (ne_of_length (by rw [length_filePath, length_parent]; decide))]
    exact h.notDir k i

theorem Grown.mkdir_moving (h : Grown n none ∅ fs) (hk : k < n) :
    ∃ fs', fs.mkdir (dirpath k) = (0, fs') ∧ Grown n (some k) ∅ fs' := by
  obtain ⟨fs', hr, htidy, -, hget⟩ := Fs.mkdir_tidy h.tidy (h.parent_dir hk) (h.absent nofun)
  have helse : ∀ q, q ≠ dirpath k → fs'.get q = fs.get q := fun q hq => (hget q).trans (if_neg hq)
  refine ⟨fs', hr, htidy, ?_, fun i => ?_, fun i => ?_, fun l t hl ht => ?_, fun l i => ?_⟩
  · rw [helse _ (ne_of_length (by rw [length_dirpath, length_root]; decide)), h.root]
  · rw [helse _ (ne_of_length (by rw [length_dirpath, length_parent]; decide)), h.parents]
  · by_cases hi : k = i
    · subst hi
      rw [hget, if_pos rfl]
      exact if_pos rfl
    · rw [helse _ fun heq => hi (dirpath_inj heq).symm, h.absent nofun, if_neg fun heq => hi (Option.some.inj heq)]
  · cases hl
    rw [helse _ fun heq => ht (List.append_right_eq_self.1 heq), h.tidy.free (h.absent nofun)]
    simp
  · rw [helse _ (ne_of_length (by rw [length_filePath, length_dirpath]; decide))]
    exact h.notDir l i

/-- The directory moves to the next parent, with its files. -/
theorem Grown.rename (h : Grown n (some k) files fs) (hk : k + 1 < n) :
    ∃ fs', fs.rename (dirpath k) (dirpath (k + 1)) = (0, fs') ∧ Grown n (some (k + 1)) files fs' := by
  have hne : k ≠ k + 1 := Nat.ne_of_lt (Nat.lt_succ_self k)
  have hnot : ∀ {i j : Nat} {t : Path}, i ≠ j → ¬ dirpath i <+: dirpath j ++ t := fun hij hp => hij (dirpath_pre.1 hp)
  obtain ⟨fs', hr, htidy, -, hto, helse⟩ := Fs.rename_dir_tidy h.tidy (h.parent_dir (Nat.lt_of_succ_lt hk))
    (h.parent_dir hk) h.dir (h.absent fun heq => hne (Option.some.inj heq))
    (fun hp => hne (dirpath_pre.1 (hp.trans (List.prefix_append _ []))))
  have hshort : ∀ p : Path, p.length < 5 → fs'.get p = fs.get p := by
    intro p hp
    exact (helse p (not_dirpath_pre hp)).trans (if_neg (not_dirpath_pre hp))
  have hother : ∀ i t, i ≠ k + 1 → fs'.get (dirpath i ++ t) = if k = i then none else fs.get (dirpath i ++ t) := by
    intro i t hi
    exact (helse (dirpath i ++ t) (hnot hi.symm)).trans (if_congr dirpath_pre rfl rfl)
  refine ⟨fs', hr, htidy, ?_, fun i => ?_, fun i => ?_, fun l t hl ht => ?_, fun l i => ?_⟩
  · rw [hshort _ (by decide), h.root]
  · rw [hshort _ (by rw [length_parent]; decide), h.parents]
  · by_cases hi : i = k + 1
    · subst hi
      have hat := hto []
      rw [List.append_nil, List.append_nil] at hat
      rw [if_pos rfl]
      exact hat.trans h.dir
    · have hat := hother i [] hi
      rw [List.append_nil] at hat
      rw [hat, if_neg fun heq => hi (Option.some.inj heq).symm]
      split
      · rfl
      · exact h.absent fun heq => ‹¬ k = i› (Option.some.inj heq)
  · cases hl
    rw [← h.held k t rfl ht]
    exact not_congr (Eq.congr_left (hto t))
  · by_cases hl : l = k + 1
    · subst hl
      rw [show fs'.get (filePath (k + 1) i) = fs.get (filePath k i) from hto [fileName i]]
      exact h.notDir k i
    · rw [show fs'.get (filePath l i) = _ from hother l [fileName i] hl]
      split
      · exact (Option.some_ne_none _).symm
      · exact h.notDir l i

theorem Grown.resolves_iff (h : Grown n (some k) files fs) (i : Nat) :
    fs.resolves (filePath k i) = true ↔ i ∈ files := by
  unfold Fs.resolves
  have habove : fs.above (filePath k i) = none := Fs.above_of_dir (h.tidy.dir h.dir) (fileName i)
  rw [habove]
  by_cases hi : i ∈ files
  · obtain ⟨f, hf⟩ := h.file hi
    rw [hf]
    exact iff_of_true rfl hi
  · rw [h.free hi]
    exact iff_of_false nofun hi

/-- A change of one file. -/
theorem Grown.becomes (h : Grown n (some k) files fs) {i : Nat} {b : Option (List UInt8)}
    (hb : Fs.Becomes fs fs' (Function.update fs.content (filePath k i) b)) {files' : Finset Nat}
    (hfiles : ∀ j, j ≠ i → (j ∈ files' ↔ j ∈ files)) (hi : b ≠ none ↔ i ∈ files') : Grown n (some k) files' fs' := by
  have hnotDir : ∀ l j, fs'.get (filePath l j) ≠ some .dir := fun l j hdir => h.notDir l j ((hb.dirs _).1 hdir)
  have helse : ∀ q, q ≠ filePath k i → (fs'.get q = none ↔ fs.get q = none) := fun q hq =>
    hb.get_none (Function.update_of_ne hq ..)
  have hnode : ∀ q, q.length ≠ 6 → fs.get q = none ∨ fs.get q = some .dir → fs'.get q = fs.get q := by
    rintro q hq (hnone | hdir)
    · rw [hnone, helse q (ne_of_length hq)]
      exact hnone
    · rw [hdir, hb.dirs q]
      exact hdir
  refine ⟨hb.tidy, ?_, fun j => ?_, fun j => ?_, fun l t hl ht => ?_, hnotDir⟩
  · rw [hnode _ (by decide) (Or.inr h.root), h.root]
  · rw [hnode _ (by rw [length_parent]; decide), h.parents]
    rw [h.parents]
    split
    · exact Or.inr rfl
    · exact Or.inl rfl
  · rw [hnode _ (by rw [length_dirpath]; decide), h.places]
    rw [h.places]
    split
    · exact Or.inr rfl
    · exact Or.inl rfl
  · cases hl
    by_cases hti : t = [fileName i]
    · subst hti
      have hat : fs'.get (filePath k i) = none ↔ b = none := by
        rw [Fs.get_none_iff, hb.content, Function.update_self]
        exact and_iff_right (hnotDir k i)
      refine (not_congr hat).trans (hi.trans ⟨fun hmem => ⟨i, hmem, rfl⟩, ?_⟩)
      rintro ⟨j, hj, heq⟩
      rwa [fileName_inj (List.singleton_inj.1 heq)]
    · have hq : dirpath k ++ t ≠ filePath k i := fun heq => hti (List.append_cancel_left heq)
      refine (not_congr (helse _ hq)).trans ((h.held k t rfl ht).trans ?_)
      refine exists_congr fun j => and_congr_left fun heq => (hfiles j ?_).symm
      rintro rfl
      exact hti heq

theorem Grown.unlink (h : Grown n (some k) files fs) (i : Nat) :
    Grown n (some k) (files.erase i) (fs.unlink (filePath k i)).2 := by
  by_cases hi : i ∈ files
  · obtain ⟨f, hf⟩ := h.file hi
    obtain ⟨fs', hr, hb⟩ := Fs.unlink_content h.tidy h.dir hf
    rw [show fs.unlink (filePath k i) = (0, fs') from hr]
    exact h.becomes hb (fun j hj => by simp [hj]) (by simp)
  · rw [(Fs.unlink_absent (h.free hi)).2, Finset.erase_eq_of_notMem hi]
    exact h

/-- The directory that moves, once it is empty. -/
theorem Grown.rmdir (h : Grown n (some k) ∅ fs) : ∃ fs', fs.rmdir (dirpath k) = (0, fs') ∧ Grown n none ∅ fs' := by
  have hempty : ∀ t, t ≠ [] → fs.get (dirpath k ++ t) = none := by
    intro t ht
    by_contra hne
    obtain ⟨i, hi, -⟩ := (h.held k t rfl ht).1 hne
    exact absurd hi (Finset.notMem_empty i)
  have hup : fs.get (parent k) = some .dir := h.tidy.up h.dir
  obtain ⟨fs', hr, htidy, hget⟩ := Fs.rmdir_empty h.tidy hup h.dir hempty
  have helse : ∀ q, q ≠ dirpath k → fs'.get q = fs.get q := fun q hq => (hget q).trans (if_neg hq)
  refine ⟨fs', hr, htidy, ?_, fun i => ?_, fun i => ?_, nofun, fun l i => ?_⟩
  · rw [helse _ (ne_of_length (by rw [length_dirpath, length_root]; decide)), h.root]
  · rw [helse _ (ne_of_length (by rw [length_dirpath, length_parent]; decide)), h.parents]
  · rw [if_neg nofun]
    by_cases hi : i = k
    · subst hi
      rw [hget]
      exact if_pos rfl
    · rw [helse _ fun heq => hi (dirpath_inj heq), h.absent fun heq => hi (Option.some.inj heq).symm]
  · rw [helse _ (ne_of_length (by rw [length_filePath, length_dirpath]; decide))]
    exact h.notDir l i

/-! ## The creator's call -/

/-- Where the directory is, the file is made in it. -/
theorem Grown.create (h : Grown n (some k) files fs) {i : Nat} (hi : i ∉ files) :
    ∃ f : Nat, ∃ fs', fs.create (filePath k i) = ((f : Int), fs') ∧ Grown n (some k) (insert i files) fs' := by
  obtain ⟨fs', hr, -, -, hb⟩ := Fs.create_new h.tidy h.dir (h.free hi)
  exact ⟨fs.next, fs', hr, h.becomes hb (fun j hj => by simp [hj]) (by simp)⟩

/-- Where it was, or is to come, nothing is made. -/
theorem Grown.create_stale (h : Grown n place files fs) {a : Nat} (ha : place ≠ some a) (i : Nat) :
    fs.create (filePath a i) = (-ENOENT, fs) := by
  have hnone := h.absent ha
  have hfile : ∀ q, q <+: dirpath a → ∀ f, fs.get q ≠ some (.file f) := by
    intro q hq f hget
    rcases List.prefix_concat_iff.1 hq with rfl | hq
    · rw [show fs.get (parent a ++ [moving]) = none from hnone] at hget
      cases hget
    · rcases List.prefix_concat_iff.1 hq with rfl | hq
      · rw [show fs.get (G707_ROOT ++ [dirName a]) = _ from h.parents a] at hget
        split at hget <;> cases hget
      · rw [h.tidy.dir h.root q hq] at hget
        cases hget
  unfold Fs.create
  rw [show fs.above (filePath a i) = some ENOENT from Fs.above_absent hfile hnone (fileName i)]

end Calls

end NfsPlayground.Races.G707
