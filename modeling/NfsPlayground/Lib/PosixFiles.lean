import NfsPlayground.Lib.Posix

/-!
# Files with one name each

In a tidy tree every file has one name and stands, as every directory does, in a directory. Then the files are a map
from paths to contents, and the calls by path change it as a map is changed: `Becomes c` says that the directories are
the ones before and the contents are now `c`.
-/

namespace Posix

variable {N : Type} [DecidableEq N]

namespace Fs

variable (fs : Fs N)

/-- An open that creates the file, and does not take one that is there. -/
def openExcl (p : List N) : Int × Fs N :=
  match fs.above p, fs.get p with
  | some e, _ => (-e, fs)
  | none, some _ => (-EEXIST, fs)
  | none, none => fs.create p

/-- An open that creates the file, and leaves one that is there as it is. -/
def openCreat (p : List N) : Int × Fs N :=
  match fs.above p, fs.get p with
  | some e, _ => (-e, fs)
  | none, some .dir => (-EISDIR, fs)
  | none, some (.file k) => (k, fs)
  | none, none => fs.create p

def rmdir (p : List N) : Int × Fs N :=
  match fs.above p, fs.get p with
  | some e, _ => (-e, fs)
  | none, none => (-ENOENT, fs)
  | none, some (.file _) => (-ENOTDIR, fs)
  | none, some .dir => if fs.emptyDir p then (0, fs.erase p) else (-ENOTEMPTY, fs)

/-- What is in the file at a path. -/
def content (p : List N) : Option (List UInt8) :=
  match fs.get p with
  | some (.file k) => some (fs.data k)
  | _ => none

structure Tidy : Prop where
  lt : ∀ {p k}, fs.get p = some (.file k) → k < fs.next
  alone : ∀ {p q k}, fs.get p = some (.file k) → fs.get q = some (.file k) → p = q
  up : ∀ {p n x}, fs.get (p ++ [n]) = some x → fs.get p = some .dir

/-- From `fs` to `fs'` the directories stay, and the contents are now `c`. -/
structure Becomes (fs fs' : Fs N) (c : List N → Option (List UInt8)) : Prop where
  tidy : fs'.Tidy
  dirs : ∀ p, fs'.get p = some .dir ↔ fs.get p = some .dir
  content : ∀ p, fs'.content p = c p

variable {fs} {fs' fs'' : Fs N} {c c' : List N → Option (List UInt8)} {d p q r : List N} {n : N} {k : Nat}

/-! ## Tidy trees -/

theorem content_eq_none : fs.content p = none ↔ ∀ k, fs.get p ≠ some (.file k) := by
  unfold content
  split
  · rename_i k hget
    exact iff_of_false (by simp) fun h => h k hget
  · rename_i hget
    exact iff_of_true rfl hget

theorem content_of_get (h : fs.get p = some (.file k)) : fs.content p = some (fs.data k) := by
  unfold content
  rw [h]

theorem get_of_content {b : List UInt8} (h : fs.content p = some b) :
    ∃ k, fs.get p = some (.file k) ∧ fs.data k = b := by
  unfold content at h
  split at h
  · rename_i k hget
    exact ⟨k, hget, Option.some.inj h⟩
  · cases h

/-- What is at a path says what is in the file there. -/
theorem content_congr (h : fs'.get p = fs.get p) (hdata : ∀ k, fs.get p = some (.file k) → fs'.data k = fs.data k) :
    fs'.content p = fs.content p := by
  unfold content
  rw [h]
  split
  · rename_i k hget
    rw [hdata k hget]
  · rfl

theorem Tidy.above (h : fs.Tidy) : ∀ {t : List N} {x}, t ≠ [] → fs.get (p ++ t) = some x → fs.get p = some .dir := by
  intro t
  induction t using List.reverseRecOn with
  | nil => exact fun hne => absurd rfl hne
  | append_singleton t a ih =>
    intro x _ hget
    rw [← List.append_assoc] at hget
    have hup := h.up hget
    by_cases ht : t = []
    · rwa [ht, List.append_nil] at hup
    · exact ih ht hup

/-- The names on the way to a directory are directories. -/
theorem Tidy.dir (h : fs.Tidy) (hget : fs.get d = some .dir) : fs.Dir d := by
  rintro q ⟨t, rfl⟩
  by_cases ht : t = []
  · rwa [ht, List.append_nil] at hget
  · exact h.above ht hget

/-- Nothing is at or below what is not there. -/
theorem Tidy.free (h : fs.Tidy) (hnone : fs.get p = none) (t : List N) : fs.get (p ++ t) = none := by
  by_cases ht : t = []
  · rwa [ht, List.append_nil]
  · cases hget : fs.get (p ++ t) with
    | none => rfl
    | some x =>
      rw [h.above ht hget] at hnone
      cases hnone

theorem Tidy.congr (h : fs.Tidy) (hget : ∀ p, fs'.get p = fs.get p) (hnext : fs.next ≤ fs'.next) : fs'.Tidy where
  lt hp := Nat.lt_of_lt_of_le (h.lt (hget _ ▸ hp)) hnext
  alone hp hq := h.alone (hget _ ▸ hp) (hget _ ▸ hq)
  up hp := (hget _).trans (h.up ((hget _).symm.trans hp))

/-- A file at a path in a directory, if it has no other name. -/
theorem Tidy.put (h : fs.Tidy) (hd : fs.get d = some .dir) (hp : fs.get (d ++ [n]) ≠ some .dir) (hk : k < fs.next)
    (hnew : ∀ q, fs.get q = some (.file k) → q = d ++ [n]) : (fs.put (d ++ [n]) (.file k)).Tidy := by
  have hnot : ∀ {q}, fs.get q = some .dir → q ≠ d ++ [n] := by
    rintro q hq rfl
    exact hp hq
  refine ⟨fun {q l} hq => ?_, fun {q r l} hq hr => ?_, fun {q m x} hq => ?_⟩
  · rw [get_put] at hq
    split at hq
    · cases hq
      exact hk
    · exact h.lt hq
  · rw [get_put] at hq hr
    split at hq <;> split at hr
    · exact ‹q = _›.trans ‹r = _›.symm
    · cases hq
      exact absurd (hnew r hr) ‹_›
    · cases hr
      exact absurd (hnew q hq) ‹_›
    · exact h.alone hq hr
  · rw [get_put] at hq ⊢
    have hdir : fs.get q = some .dir := by
      split at hq
      · rename_i heq
        rwa [(List.append_inj' heq rfl).1]
      · exact h.up hq
    rw [if_neg (hnot hdir), hdir]

theorem dirs_put (hp : fs.get p ≠ some .dir) (q : List N) :
    (fs.put p (.file k)).get q = some .dir ↔ fs.get q = some .dir := by
  rw [get_put]
  split
  · rename_i hq
    exact iff_of_false (by simp) (hq ▸ hp)
  · exact Iff.rfl

theorem Tidy.erase (h : fs.Tidy) (hp : fs.get p ≠ some .dir) : (fs.erase p).Tidy := by
  have hsub : ∀ {q x}, (fs.erase p).get q = some x → fs.get q = some x := by
    intro q x hq
    rw [get_erase] at hq
    split at hq
    · cases hq
    · exact hq
  refine ⟨fun hq => h.lt (hsub hq), fun hq hr => h.alone (hsub hq) (hsub hr), fun {q m x} hq => ?_⟩
  have hdir := h.up (hsub hq)
  rw [get_erase, if_neg, hdir]
  rintro rfl
  exact hp hdir

theorem dirs_erase (hp : fs.get p ≠ some .dir) (q : List N) :
    (fs.erase p).get q = some .dir ↔ fs.get q = some .dir := by
  rw [get_erase]
  split
  · rename_i hq
    exact iff_of_false (by simp) (hq ▸ hp)
  · exact Iff.rfl

variable (N) in
/-- The tree of the root alone. -/
def bare : Fs N := ⟨[([], .dir)], fun _ => [], 0, [], []⟩

theorem bare_get : (bare N).get p = if p = [] then some .dir else none := by
  unfold bare get
  rw [List.lookup_cons]
  split
  · rename_i h
    rw [if_pos (beq_iff_eq.1 h)]
  · rename_i h
    rw [if_neg (beq_eq_false_iff_ne.1 h)]
    rfl

theorem bare_tidy : (bare N).Tidy := by
  have hfile : ∀ {p k}, (bare N).get p ≠ some (.file k) := by
    intro p k
    rw [bare_get]
    split <;> simp
  refine ⟨fun h => absurd h hfile, fun h => absurd h hfile, fun {p n x} h => ?_⟩
  rw [bare_get, if_neg (by simp)] at h
  cases h

/-- A directory is made in another one. -/
theorem mkdir_tidy (h : fs.Tidy) (hd : fs.get d = some .dir) (hnone : fs.get (d ++ [n]) = none) :
    ∃ fs', fs.mkdir (d ++ [n]) = (0, fs') ∧ fs'.Tidy ∧ (∀ q, fs'.content q = fs.content q) ∧
      ∀ q, fs'.get q = if q = d ++ [n] then some .dir else fs.get q := by
  have hget := fun q => @get_put N _ fs (d ++ [n]) q .dir
  have hsub : ∀ {q k}, (fs.put (d ++ [n]) .dir).get q = some (.file k) → fs.get q = some (.file k) := by
    intro q k hq
    rw [hget] at hq
    split at hq
    · cases hq
    · exact hq
  refine ⟨fs.put (d ++ [n]) .dir, ?_, ⟨fun hq => h.lt (hsub hq), fun hq hr => h.alone (hsub hq) (hsub hr), ?_⟩, ?_,
    hget⟩
  · unfold mkdir
    rw [above_of_dir (h.dir hd) n, hnone]
  · intro q m x hq
    have hdir : fs.get q = some .dir := by
      rw [hget] at hq
      split at hq
      · rename_i heq
        rwa [(List.append_inj' heq rfl).1]
      · exact h.up hq
    rw [hget]
    split
    · rfl
    · exact hdir
  · intro q
    by_cases hq : q = d ++ [n]
    · subst hq
      rw [content_eq_none.2 fun k => by rw [hget, if_pos rfl]; simp, content_eq_none.2 fun k => by rw [hnone]; simp]
    · exact content_congr ((hget q).trans (if_neg hq)) fun _ _ => rfl

/-! ## What the calls do to the contents -/

theorem Becomes.refl (h : fs.Tidy) : Becomes fs fs fs.content := ⟨h, fun _ => Iff.rfl, fun _ => rfl⟩

theorem get_none_iff : fs.get p = none ↔ fs.get p ≠ some .dir ∧ fs.content p = none := by
  unfold content
  cases fs.get p with
  | none => simp
  | some x => cases x <;> simp

/-- Elsewhere there is something where there was. -/
theorem Becomes.get_none (h : Becomes fs fs' c) (hq : c q = fs.content q) : fs'.get q = none ↔ fs.get q = none := by
  rw [get_none_iff, get_none_iff, h.content, hq]
  exact and_congr_left' (not_congr (h.dirs q))

theorem Becomes.trans (h : Becomes fs fs' c) (h' : Becomes fs' fs'' c') : Becomes fs fs'' c' :=
  ⟨h'.tidy, fun p => (h'.dirs p).trans (h.dirs p), h'.content⟩

theorem not_dir_of_file (h : fs.get p = some (.file k)) : fs.get p ≠ some .dir := by
  rw [h]
  simp

theorem create_new (h : fs.Tidy) (hd : fs.get d = some .dir) (hnone : fs.get (d ++ [n]) = none) :
    ∃ fs', fs.create (d ++ [n]) = ((fs.next : Int), fs') ∧ fs'.get (d ++ [n]) = some (.file fs.next) ∧
      fs'.data = Function.update fs.data fs.next [] ∧
      Becomes fs fs' (Function.update fs.content (d ++ [n]) (some [])) := by
  have hnot : fs.get (d ++ [n]) ≠ some .dir := by simp [hnone]
  have hat : (fs.put (d ++ [n]) (.file fs.next)).get (d ++ [n]) = some (.file fs.next) := by rw [get_put, if_pos rfl]
  have htidy : ({ fs with next := fs.next + 1 } : Fs N).Tidy := h.congr (fun _ => rfl) (Nat.le_succ _)
  obtain ⟨fs', hfs'⟩ : ∃ fs', fs' = { fs.put (d ++ [n]) (.file fs.next) with
      data := Function.update fs.data fs.next [], next := fs.next + 1 } := ⟨_, rfl⟩
  have hget : ∀ q, fs'.get q = (fs.put (d ++ [n]) (.file fs.next)).get q := fun q => by rw [hfs']; rfl
  have hdata : fs'.data = Function.update fs.data fs.next [] := by rw [hfs']
  refine ⟨fs', ?_, (hget _).trans hat, hdata, ?_, fun q => ?_, fun q => ?_⟩
  · unfold create
    rw [above_of_dir (h.dir hd) n, hnone, hfs']
  · have hput := htidy.put (d := d) (n := n) (k := fs.next) hd hnot (Nat.lt_succ_self _) fun q hq =>
      absurd (h.lt hq) (Nat.lt_irrefl _)
    exact hput.congr hget (Nat.le_of_eq (by rw [hfs']; rfl))
  · rw [hget]
    exact dirs_put hnot q
  · by_cases hq : q = d ++ [n]
    · subst hq
      rw [Function.update_self, content_of_get ((hget _).trans hat), hdata, Function.update_self]
    · rw [Function.update_of_ne hq]
      refine content_congr ((hget q).trans ((get_put _ _ _).trans (if_neg hq))) fun l hl => ?_
      rw [hdata, Function.update_of_ne (Nat.ne_of_lt (h.lt hl))]

theorem openExcl_new (h : fs.Tidy) (hd : fs.get d = some .dir) (hnone : fs.get (d ++ [n]) = none) :
    fs.openExcl (d ++ [n]) = fs.create (d ++ [n]) := by
  unfold openExcl
  rw [above_of_dir (h.dir hd) n, hnone]

theorem openFile_content (h : fs.Tidy) (hd : fs.get d = some .dir) (hfile : fs.get (d ++ [n]) = some (.file k)) :
    fs.openFile (d ++ [n]) = k := by
  unfold openFile
  rw [above_of_dir (h.dir hd) n, hfile]

theorem setData_content (h : fs.Tidy) (hfile : fs.get p = some (.file k)) (bytes : List UInt8) :
    Becomes fs (fs.setData k bytes) (Function.update fs.content p (some bytes)) := by
  refine ⟨h.congr (fun _ => rfl) (Nat.le_refl _), fun _ => Iff.rfl, fun q => ?_⟩
  by_cases hq : q = p
  · subst hq
    have hat : (fs.setData k bytes).get q = some (.file k) := hfile
    rw [Function.update_self, content_of_get hat]
    exact congrArg some (Function.update_self ..)
  · rw [Function.update_of_ne hq]
    refine content_congr rfl fun l hl => Function.update_of_ne ?_ ..
    rintro rfl
    exact hq (h.alone hl hfile)

theorem unlink_content (h : fs.Tidy) (hd : fs.get d = some .dir) (hfile : fs.get (d ++ [n]) = some (.file k)) :
    ∃ fs', fs.unlink (d ++ [n]) = (0, fs') ∧ Becomes fs fs' (Function.update fs.content (d ++ [n]) none) := by
  have hnot := not_dir_of_file hfile
  refine ⟨fs.erase (d ++ [n]), ?_, h.erase hnot, dirs_erase hnot, fun q => ?_⟩
  · unfold unlink
    rw [above_of_dir (h.dir hd) n, hfile]
  · by_cases hq : q = d ++ [n]
    · subst hq
      rw [Function.update_self, content_eq_none]
      intro l
      rw [get_erase, if_pos rfl]
      simp
    · rw [Function.update_of_ne hq]
      exact content_congr ((get_erase _ _).trans (if_neg hq)) fun _ _ => rfl

theorem unlink_none (h : fs.Tidy) (hd : fs.get d = some .dir) (hnone : fs.get (d ++ [n]) = none) :
    fs.unlink (d ++ [n]) = (-ENOENT, fs) := by
  unfold unlink
  rw [above_of_dir (h.dir hd) n, hnone]

/-- A path below what is not there cannot be resolved. -/
theorem above_absent (hfile : ∀ q, q <+: d → ∀ k, fs.get q ≠ some (.file k)) (hnone : fs.get d = none) (n : N) :
    fs.above (d ++ [n]) = some ENOENT := by
  cases habove : fs.above (d ++ [n]) with
  | none =>
    unfold above at habove
    rw [List.dropLast_concat] at habove
    have hd := List.findSome?_eq_none_iff.1 habove d ((List.mem_inits d d).2 (List.prefix_refl d))
    rw [hnone] at hd
    cases hd
  | some e =>
    unfold above at habove
    rw [List.dropLast_concat] at habove
    obtain ⟨q, hq, he⟩ := List.exists_of_findSome?_eq_some habove
    split at he
    · cases he
    · exact absurd ‹_› (hfile q ((List.mem_inits q d).1 hq) _)
    · exact he.symm

theorem above_ne_zero {e : Int} (h : fs.above p = some e) : e ≠ 0 := by
  unfold above at h
  obtain ⟨q, -, hq⟩ := List.exists_of_findSome?_eq_some h
  split at hq
  · cases hq
  · cases hq
    decide
  · cases hq
    decide

/-- What is not there cannot be unlinked. -/
theorem unlink_absent (hnone : fs.get p = none) : (fs.unlink p).1 ≠ 0 ∧ (fs.unlink p).2 = fs := by
  unfold unlink
  rw [hnone]
  cases habove : fs.above p with
  | some e => exact ⟨fun h => above_ne_zero habove (Int.neg_eq_zero.1 h), rfl⟩
  | none => exact ⟨(by decide : (-ENOENT : Int) ≠ 0), rfl⟩

theorem rmdir_absent (hnone : fs.get p = none) : (fs.rmdir p).2 = fs := by
  unfold rmdir
  rw [hnone]
  cases fs.above p <;> rfl

/-- Nothing is below an empty directory. -/
theorem emptyDir_iff : fs.emptyDir p = true ↔ ∀ t, t ≠ [] → fs.get (p ++ t) = none := by
  unfold emptyDir
  rw [List.all_eq_true]
  constructor
  · intro h t ht
    refine get_eq_none fun e he heq => ?_
    rcases of_decide_eq_true (h e he) with hp | hp
    · rw [hp] at heq
      exact ht (List.append_right_eq_self.1 heq.symm)
    · exact hp ⟨t, heq.symm⟩
  · intro h e he
    refine decide_eq_true (Classical.or_iff_not_imp_left.2 fun hne ⟨t, ht⟩ => ?_)
    have hnone := h t (by rintro rfl; exact hne (by rw [← ht, List.append_nil]))
    exact bne_iff_ne.1 (List.lookup_eq_none_iff.1 hnone e he) ht

theorem rmdir_empty (h : fs.Tidy) (hd : fs.get d = some .dir) (hdir : fs.get (d ++ [n]) = some .dir)
    (hempty : ∀ t, t ≠ [] → fs.get (d ++ [n] ++ t) = none) : ∃ fs', fs.rmdir (d ++ [n]) = (0, fs') ∧ fs'.Tidy ∧
      ∀ q, fs'.get q = if q = d ++ [n] then none else fs.get q := by
  have hsub : ∀ {q x}, (fs.erase (d ++ [n])).get q = some x → fs.get q = some x := by
    intro q x hq
    rw [get_erase] at hq
    split at hq
    · cases hq
    · exact hq
  refine ⟨fs.erase (d ++ [n]), ?_, ⟨fun hq => h.lt (hsub hq), fun hq hr => h.alone (hsub hq) (hsub hr), ?_⟩,
    get_erase _⟩
  · unfold rmdir
    rw [above_of_dir (h.dir hd) n, hdir]
    exact if_pos (emptyDir_iff.2 hempty)
  · intro q m x hq
    rw [get_erase, if_neg, h.up (hsub hq)]
    rintro rfl
    have hbelow := hsub hq
    rw [hempty [m] (by simp)] at hbelow
    cases hbelow

theorem rmdir_full {t : List N} {x : Node} (ht : t ≠ []) (hbelow : fs.get (p ++ t) = some x) :
    (fs.rmdir p).2 = fs := by
  unfold rmdir
  split
  · rfl
  · rfl
  · rfl
  · rw [if_neg]
    intro hempty
    rw [emptyDir_iff.1 hempty t ht] at hbelow
    cases hbelow

/-- A directory takes another path, with all that is below it. -/
theorem rename_dir_tidy {e : List N} {m : N} (h : fs.Tidy) (hd : fs.get d = some .dir) (he : fs.get e = some .dir)
    (hdir : fs.get (d ++ [n]) = some .dir) (hnone : fs.get (e ++ [m]) = none) (hnot : ¬ d ++ [n] <+: e ++ [m]) :
    ∃ fs', fs.rename (d ++ [n]) (e ++ [m]) = (0, fs') ∧ fs'.Tidy ∧ fs'.data = fs.data ∧
      (∀ t, fs'.get (e ++ [m] ++ t) = fs.get (d ++ [n] ++ t)) ∧
      ∀ r, ¬ e ++ [m] <+: r → fs'.get r = if d ++ [n] <+: r then none else fs.get r := by
  have hfree := h.free hnone
  have hto := @get_move_to N _ fs (d ++ [n]) (e ++ [m]) hfree
  have helse : ∀ r, ¬ e ++ [m] <+: r →
      (fs.move (d ++ [n]) (e ++ [m])).get r = if d ++ [n] <+: r then none else fs.get r := by
    intro r hr
    split
    · exact get_move_from ‹_› hr
    · exact get_move_of_not ‹_› hr
  have hne : d ++ [n] ≠ e ++ [m] := fun heq => hnot (heq ▸ List.prefix_refl _)
  refine ⟨fs.move (d ++ [n]) (e ++ [m]), ?_, ?_, rfl, hto, helse⟩
  · unfold rename
    rw [above_of_dir (h.dir hd) n, above_of_dir (h.dir he) m, hdir]
    dsimp only
    rw [if_neg hne, if_neg hnot, hnone]
  -- where a path of the new tree was before
  have hback : ∀ {r x}, (fs.move (d ++ [n]) (e ++ [m])).get r = some x →
      (∃ t, r = e ++ [m] ++ t ∧ fs.get (d ++ [n] ++ t) = some x) ∨
        (¬ e ++ [m] <+: r ∧ ¬ d ++ [n] <+: r ∧ fs.get r = some x) := by
    intro r x hr
    by_cases hpre : e ++ [m] <+: r
    · obtain ⟨t, rfl⟩ := hpre
      exact Or.inl ⟨t, rfl, (hto t).symm.trans hr⟩
    · rw [helse r hpre] at hr
      split at hr
      · cases hr
      · exact Or.inr ⟨hpre, ‹_›, hr⟩
  refine ⟨fun hr => ?_, fun hq hr => ?_, fun {q a x} hq => ?_⟩
  · rcases hback hr with ⟨t, -, ht⟩ | ⟨-, -, ht⟩
    · exact h.lt ht
    · exact h.lt ht
  · rcases hback hq with ⟨t, rfl, ht⟩ | ⟨-, hnq, ht⟩ <;> rcases hback hr with ⟨u, rfl, hu⟩ | ⟨-, hnr, hu⟩
    · rw [List.append_cancel_left (h.alone ht hu)]
    · exact absurd (h.alone ht hu ▸ List.prefix_append _ _) hnr
    · exact absurd (h.alone ht hu ▸ List.prefix_append _ _) hnq
    · exact h.alone ht hu
  · rcases hback hq with ⟨t, hqt, ht⟩ | ⟨hne', hnd, ht⟩
    · rcases List.eq_nil_or_concat t with rfl | ⟨t, b, rfl⟩
      · rw [List.append_nil] at hqt
        rw [(List.append_inj' hqt rfl).1]
        have hself : ¬ e ++ [m] <+: e := fun hp => absurd hp.length_le (by simp)
        have hdn : ¬ d ++ [n] <+: e := fun hp => hnot (hp.trans (List.prefix_append e [m]))
        rw [helse e hself, if_neg hdn, he]
      · rw [List.concat_eq_append, ← List.append_assoc] at hqt
        obtain ⟨rfl, -⟩ := List.append_inj' hqt rfl
        rw [hto]
        rw [List.concat_eq_append, ← List.append_assoc] at ht
        exact h.up ht
    · have hq' : ¬ e ++ [m] <+: q := fun hp => hne' (hp.trans (List.prefix_append q [a]))
      have hd' : ¬ d ++ [n] <+: q := fun hp => hnd (hp.trans (List.prefix_append q [a]))
      rw [helse q hq', if_neg hd']
      exact h.up ht

/-- A directory that is removed takes no file with it. -/
theorem rmdir_content (p q : List N) : (fs.rmdir p).2.content q = fs.content q := by
  unfold rmdir
  split
  · rfl
  · rfl
  · rfl
  · rename_i hdir
    split
    · by_cases hq : q = p
      · subst hq
        rw [content_eq_none.2 fun k => by rw [get_erase, if_pos rfl]; simp,
          content_eq_none.2 fun k => by rw [hdir]; simp]
      · exact content_congr ((get_erase p q).trans (if_neg hq)) fun _ _ => rfl
    · rfl

/-- What is at the paths after a file was moved to a path with nothing at it. -/
theorem get_move_file (h : fs.Tidy) (hfile : fs.get p = some (.file k)) (hnone : fs.get q = none) (r : List N) :
    (fs.move p q).get r = ((fs.erase p).put q (.file k)).get r := by
  have hbelow : ∀ t, t ≠ [] → fs.get (p ++ t) = none := by
    intro t ht
    cases hget : fs.get (p ++ t) with
    | none => rfl
    | some x =>
      rw [h.above ht hget] at hfile
      cases hfile
  rw [get_put, get_erase]
  by_cases hqr : q <+: r
  · obtain ⟨t, rfl⟩ := hqr
    rw [get_move_to (h.free hnone)]
    by_cases ht : t = []
    · subst ht
      rw [List.append_nil, List.append_nil, if_pos rfl, hfile]
    · rw [hbelow t ht, if_neg (by simpa using ht), h.free hnone t]
      split <;> rfl
  · rw [if_neg (by rintro rfl; exact hqr (List.prefix_refl _))]
    by_cases hpr : p <+: r
    · rw [get_move_from hpr hqr]
      obtain ⟨t, rfl⟩ := hpr
      by_cases ht : t = []
      · rw [if_pos (by rw [ht, List.append_nil])]
      · rw [if_neg (by simpa using ht), hbelow t ht]
    · rw [get_move_of_not hpr hqr, if_neg (by rintro rfl; exact hpr (List.prefix_refl _))]

/-- A file takes another path, and with it the place of a file that was there. -/
theorem rename_content {e : List N} {m : N} (h : fs.Tidy) (hd : fs.get d = some .dir) (he : fs.get e = some .dir)
    (hfile : fs.get (d ++ [n]) = some (.file k)) (hto : fs.get (e ++ [m]) ≠ some .dir) (hne : d ++ [n] ≠ e ++ [m]) :
    ∃ fs', fs.rename (d ++ [n]) (e ++ [m]) = (0, fs') ∧
      Becomes fs fs' (Function.update (Function.update fs.content (e ++ [m]) (some (fs.data k))) (d ++ [n]) none) := by
  -- the tree without the file that is replaced
  have key : ∀ fs₁ : Fs N, fs₁.Tidy → fs₁.next = fs.next → fs₁.data = fs.data → fs₁.get (e ++ [m]) = none →
      (∀ r, r ≠ e ++ [m] → fs₁.get r = fs.get r) → (∀ r, fs₁.get r = some .dir ↔ fs.get r = some .dir) →
      Becomes fs (fs₁.move (d ++ [n]) (e ++ [m]))
        (Function.update (Function.update fs.content (e ++ [m]) (some (fs.data k))) (d ++ [n]) none) := by
    intro fs₁ htidy hnext hdata hnone hsame hdirs
    have hsrc : fs₁.get (d ++ [n]) = some (.file k) := (hsame _ hne).trans hfile
    have hget := get_move_file htidy hsrc hnone
    have hnot := not_dir_of_file hsrc
    have hgone : ((fs₁.erase (d ++ [n])).get (e ++ [m])) ≠ some .dir := by
      rw [get_erase, hnone]
      split <;> simp
    have herase := htidy.erase hnot
    have hput : ((fs₁.erase (d ++ [n])).put (e ++ [m]) (.file k)).Tidy := by
      refine herase.put ((dirs_erase hnot e).2 ((hdirs e).2 he)) hgone (htidy.lt hsrc) fun q hq => ?_
      rw [get_erase] at hq
      split at hq
      · cases hq
      · exact absurd (htidy.alone hq hsrc) ‹_›
    refine ⟨hput.congr hget (Nat.le_refl _), fun r => ?_, fun r => ?_⟩
    · rw [hget, dirs_put hgone, dirs_erase hnot, hdirs]
    · by_cases hrp : r = d ++ [n]
      · subst hrp
        rw [Function.update_self, content_eq_none]
        intro l
        rw [hget, get_put, if_neg hne, get_erase, if_pos rfl]
        simp
      · rw [Function.update_of_ne hrp]
        by_cases hrq : r = e ++ [m]
        · subst hrq
          rw [Function.update_self, content_of_get ((hget _).trans ((get_put _ _ _).trans (if_pos rfl)))]
          exact congrArg some (congrFun hdata k)
        · rw [Function.update_of_ne hrq]
          refine content_congr ?_ fun l _ => congrFun hdata l
          rw [hget, get_put, if_neg hrq, get_erase, if_neg hrp, hsame r hrq]
  unfold rename
  rw [above_of_dir (h.dir hd) n, above_of_dir (h.dir he) m, hfile]
  dsimp only
  cases hq : fs.get (e ++ [m]) with
  | none =>
    exact ⟨_, rfl, key fs h rfl rfl hq (fun _ _ => rfl) fun _ => Iff.rfl⟩
  | some x =>
    cases x with
    | dir => exact absurd hq hto
    | file l =>
      have hkl : k ≠ l := by
        rintro rfl
        exact hne (h.alone hfile hq)
      have hnot := not_dir_of_file hq
      refine ⟨_, if_neg hkl, key _ (h.erase hnot) rfl rfl ?_ (fun r hr => ?_) (dirs_erase hnot)⟩
      · rw [get_erase, if_pos rfl]
      · rw [get_erase, if_neg hr]

end Fs

end Posix
