import NfsPlayground.Lib.Ends
import NfsPlayground.Lib.PosixView
import NfsPlayground.Lib.Symlinks
import NfsPlayground.Races.World

/-!
# generic/011: dirstress

Files, directories and links to themselves are created under 64 names, scrambled by operations that may fail, and
removed. Whatever the draws are, the directory stays shallow and its links hold paths of entries of their own, so that
each removal succeeds or finds nothing: the test is never left, what it passes by is the number of operations of the
scramble that have succeeded, and in the end the file system is as before (`dirstress_passes`).
-/

namespace NfsPlayground.Storms.G011

open Lines Posix Races

/-- `XFS_MNT "/g011"` -/
def G011_ROOT : Path := XFS_MNT ++ [['g', '0', '1', '1']]

def G011_NFILES : Nat := 64

/-- `"XXXXXXXXXXXX.%d"` -/
def entryName (i : Nat) : Text := ['X', 'X', 'X', 'X', 'X', 'X', 'X', 'X', 'X', 'X', 'X', 'X', '.'] ++ decimal i

def g011_name (i : Nat) : Path := G011_ROOT ++ [entryName i]

/-! ## The test -/

/-- The check that has left the test. -/
inductive Failed
  | creat (i : Nat) (err : Int)
  | mkdir (i : Nat)
  | symlink (i : Nat)
  | removing (i : Nat) (err : Int)
  deriving DecidableEq

def g011_remove_entry (s : SymFs Text) (p : Path) : Int × SymFs Text :=
  let r := s.unlink p
  if r.1 = - EISDIR then r.2.rmdir p else r

/-- The loop body of `g011_create_entries()`. -/
def createEntry (s : SymFs Text) (i : Nat) : Except Failed (SymFs Text) :=
  match i % 3 with
  | 0 =>
    let r := s.openExcl (g011_name i)
    if r.1 < 0 then .error (.creat i r.1) else .ok r.2
  | 1 =>
    let r := s.mkdir (g011_name i)
    if r.1 = 0 then .ok r.2 else .error (.mkdir i)
  | _ =>
    let r := s.symlink (g011_name i) (g011_name i)
    if r.1 = 0 then .ok r.2 else .error (.symlink i)

def g011_create_entries (s : SymFs Text) : Except Failed (SymFs Text) := (List.range G011_NFILES).foldlM createEntry s

/-- An operation of the scramble. -/
def operation (i : Nat) (r : UInt32) (s : SymFs Text) : Int × SymFs Text :=
  let x := (r.toNat >>> 8) % G011_NFILES
  let y := (r.toNat >>> 16) % G011_NFILES
  match i % 5 with
  | 0 => s.rename (g011_name x) (g011_name y)
  | 1 => s.unlink (g011_name x)
  | 2 => s.rmdir (g011_name x)
  | 3 => s.openExcl (g011_name x)
  | _ => s.mkdir (g011_name x)

/-- The file system, and how many operations have succeeded. -/
structure Scramble where
  s : SymFs Text
  ok : Nat

/-- `g011_scramble_entries()`, with the draws. -/
def g011_scramble_entries (draw : Nat → UInt32) (s : SymFs Text) : Scramble :=
  (List.range (2 * G011_NFILES)).foldl (fun st i =>
    let e := operation i (draw i) st.s
    ⟨e.2, if e.1 = 0 then st.ok + 1 else st.ok⟩) ⟨s, 0⟩

/-- The loop body of `g011_remove_entries()`. -/
def removeStep (s : SymFs Text) (i : Nat) : Except Failed (SymFs Text) :=
  let r := g011_remove_entry s (g011_name i)
  if r.1 = 0 ∨ r.1 = - ENOENT then .ok r.2 else .error (.removing i r.1)

def g011_remove_entries (s : SymFs Text) : Except Failed (SymFs Text) := (List.range G011_NFILES).foldlM removeStep s

/-- The test with its directory made: whether all expectations have held. Nothing is in flight, so that one attempt at
the removal of the directory is enough. -/
def dirstress_create_scramble_remove (draw : Nat → UInt32) (s : SymFs Text) : Except Failed (Bool × SymFs Text) :=
  g011_create_entries s >>= fun s =>
    let st := g011_scramble_entries draw s
    g011_remove_entries st.s >>= fun s =>
      let gone := s.rmdir G011_ROOT
      let made := gone.2.mkdir G011_ROOT
      .ok (decide (G011_NFILES / 4 < st.ok) && gone.1 == 0 && made.1 == 0, made.2)

/-- The clean-up action. -/
def g011_remove_tree (s : SymFs Text) : SymFs Text :=
  (((List.range G011_NFILES).foldl (fun s i => (g011_remove_entry s (g011_name i)).2) s).rmdir G011_ROOT).2

/-! ## The entries -/

def Named (n : Text) : Prop := ∃ i < G011_NFILES, n = entryName i

theorem entryName_inj {i j : Nat} (h : entryName i = entryName j) : i = j := decimal_inj (List.append_cancel_left h)

theorem named_mod (n : Nat) : Named (entryName (n % G011_NFILES)) := ⟨_, Nat.mod_lt n (by decide), rfl⟩

/-- Below the directory are entries with these names only, with nothing below them, links to such entries among them,
and everything else is where it was. -/
structure Stressed (s₀ s : SymFs Text) : Prop where
  shallow : s.Shallow G011_ROOT Named
  outside : SymFs.SameOutside G011_ROOT s₀ s

variable {s₀ s : SymFs Text} {i : Nat}

theorem Stressed.onlyAt {r : Int × SymFs Text} {errs : List Int} {n : Text} (h : Stressed s₀ s)
    (hr : SymFs.Keeps G011_ROOT Named errs r) (ho : Fs.OnlyAt (G011_ROOT ++ [n]) s.fs r.2.fs) : Stressed s₀ r.2 :=
  ⟨hr.2, h.outside.trans (SymFs.SameOutside.of_onlyAt ho)⟩

/-! ### They are created -/

/-- An entry is created under a name that is free, and no other name is taken. -/
theorem createEntry_spec (h : Stressed s₀ s) (hi : i < G011_NFILES)
    (hfree : ∀ j < G011_NFILES, i ≤ j → s.fs.get (g011_name j) = none) :
    ∃ s', createEntry s i = .ok s' ∧ Stressed s₀ s' ∧
      ∀ j < G011_NFILES, i + 1 ≤ j → s'.fs.get (g011_name j) = none := by
  have hname : Named (entryName i) := ⟨i, hi, rfl⟩
  have hnone := hfree i hi (Nat.le_refl i)
  have hothers : ∀ s' : SymFs Text, Fs.OnlyAt (g011_name i) s.fs s'.fs →
      ∀ j < G011_NFILES, i + 1 ≤ j → s'.fs.get (g011_name j) = none := fun s' ho j hj hij => by
    rw [ho.get _ fun heq => ?_]
    · exact hfree j hj (Nat.le_of_succ_le hij)
    · have hji : j = i := entryName_inj (List.cons.inj (List.append_cancel_left heq)).1
      omega
  have hlink : ∀ p, some (g011_name i) = some p → ∃ m, Named m ∧ p = G011_ROOT ++ [m] := fun p hp =>
    ⟨entryName i, hname, (Option.some.inj hp).symm⟩
  unfold createEntry
  split
  · obtain ⟨honly, hzero⟩ := SymFs.make_new h.shallow.dir (entryName i) none
    have hstate := h.onlyAt (SymFs.make_keeps h.shallow hname (t := none) (by simp)) honly
    refine ⟨_, if_neg ?_, hstate, hothers _ honly⟩
    rw [show (s.openExcl (g011_name i)).1 = 0 from hzero hnone]
    decide
  · obtain ⟨honly, hzero⟩ := SymFs.mkdir_new h.shallow.dir (entryName i)
    exact ⟨_, if_pos (hzero hnone), h.onlyAt (SymFs.mkdir_keeps h.shallow hname) honly, hothers _ honly⟩
  · obtain ⟨honly, hzero⟩ := SymFs.make_new h.shallow.dir (entryName i) (some (g011_name i))
    exact ⟨_, if_pos (hzero hnone), h.onlyAt (SymFs.make_keeps h.shallow hname hlink) honly, hothers _ honly⟩

theorem create_entries_spec (h : Stressed s₀ s) (hfree : ∀ j < G011_NFILES, s.fs.get (g011_name j) = none) :
    ∃ s', g011_create_entries s = .ok s' ∧ Stressed s₀ s' := by
  have hloop : Ends (fun s' => Stressed s₀ s' ∧ ∀ j < G011_NFILES, G011_NFILES ≤ j → s'.fs.get (g011_name j) = none)
      (fun _ => False) (g011_create_entries s) := by
    refine Ends.foldlM_range (I := fun i s' =>
      Stressed s₀ s' ∧ ∀ j < G011_NFILES, i ≤ j → s'.fs.get (g011_name j) = none) G011_NFILES (fun i s' hi hI => ?_)
      ⟨h, fun j hj _ => hfree j hj⟩
    obtain ⟨s'', hrun, hnext⟩ := createEntry_spec hI.1 hi hI.2
    rw [hrun]
    exact hnext
  obtain ⟨s', hrun, hstate, -⟩ := hloop.exists_ok
  exact ⟨s', hrun, hstate⟩

/-! ### They are scrambled -/

theorem operation_keeps (h : Stressed s₀ s) (i : Nat) (r : UInt32) : Stressed s₀ (operation i r s).2 := by
  have hx := named_mod (r.toNat >>> 8)
  have hy := named_mod (r.toNat >>> 16)
  have hdir := h.shallow.dir
  unfold operation
  dsimp only
  split
  · exact ⟨(SymFs.rename_keeps h.shallow _ hy).2, h.outside.trans (SymFs.rename_outside hdir _ _)⟩
  · exact h.onlyAt (SymFs.unlink_keeps h.shallow _) (SymFs.unlink_onlyAt hdir _)
  · exact h.onlyAt (SymFs.rmdir_keeps h.shallow _) (SymFs.rmdir_onlyAt hdir _)
  · exact h.onlyAt (SymFs.make_keeps h.shallow hx (t := none) (by simp)) (SymFs.make_new hdir _ none).1
  · exact h.onlyAt (SymFs.mkdir_keeps h.shallow hx) (SymFs.mkdir_new hdir _).1

theorem scramble_entries_keeps (h : Stressed s₀ s) (draw : Nat → UInt32) :
    Stressed s₀ (g011_scramble_entries draw s).s :=
  Ends.foldl_range (I := fun _ (st : Scramble) => Stressed s₀ st.s) (2 * G011_NFILES)
    (fun i _ _ hst => operation_keeps hst i (draw i)) h

/-! ### They are removed -/

theorem Stressed.removed (h : Stressed s₀ s) (i : Nat) (hgone : ∀ j < i, s.fs.get (g011_name j) = none) :
    Stressed s₀ (g011_remove_entry s (g011_name i)).2 ∧
      ∀ j < i + 1, (g011_remove_entry s (g011_name i)).2.fs.get (g011_name j) = none := by
  obtain ⟨-, -, honly, -⟩ := SymFs.removeAny_spec h.shallow (entryName i)
  have hnext : (g011_remove_entry s (g011_name i)).2.Shallow G011_ROOT Named ∧
      ∀ j < i + 1, (g011_remove_entry s (g011_name i)).2.fs.get (G011_ROOT ++ [entryName j]) = none :=
    SymFs.removeAny_next h.shallow hgone
  exact ⟨⟨hnext.1, h.outside.trans (SymFs.SameOutside.of_onlyAt honly)⟩, hnext.2⟩

/-- Without the entries, the directory is empty. -/
theorem Stressed.empty (h : Stressed s₀ s) (hgone : ∀ j < G011_NFILES, s.fs.get (g011_name j) = none) {t : Path}
    (ht : t ≠ []) : s.fs.get (G011_ROOT ++ t) = none := by
  refine h.shallow.clear (fun n hn => ?_) ht
  obtain ⟨i, hi, rfl⟩ := hn
  exact hgone i hi

theorem remove_entries_spec (h : Stressed s₀ s) : ∃ s', g011_remove_entries s = .ok s' ∧ Stressed s₀ s' ∧
    ∀ t, t ≠ [] → s'.fs.get (G011_ROOT ++ t) = none := by
  have hloop : Ends (fun s' => Stressed s₀ s' ∧ ∀ j < G011_NFILES, s'.fs.get (g011_name j) = none) (fun _ => False)
      (g011_remove_entries s) := by
    refine Ends.foldlM_range (I := fun i s' => Stressed s₀ s' ∧ ∀ j < i, s'.fs.get (g011_name j) = none) G011_NFILES
      (fun i s' _ hI => ?_) ⟨h, by simp⟩
    obtain ⟨-, -, -, herr⟩ := SymFs.removeAny_spec hI.1.shallow (entryName i)
    have hok : (g011_remove_entry s' (g011_name i)).1 = 0 ∨ (g011_remove_entry s' (g011_name i)).1 = - ENOENT := by
      rw [show (g011_remove_entry s' (g011_name i)).1 = _ from herr]
      split
      · exact Or.inr rfl
      · exact Or.inl rfl
    unfold removeStep
    dsimp only
    rw [if_pos hok]
    exact hI.1.removed i hI.2
  obtain ⟨s', hrun, hstate, hgone⟩ := hloop.exists_ok
  exact ⟨s', hrun, hstate, fun t ht => hstate.empty hgone ht⟩

/-- After the clean-up nothing is left of the directory, and everything else is where it was. -/
theorem remove_tree_spec (h : Stressed s₀ s) : (∀ t, (g011_remove_tree s).fs.get (G011_ROOT ++ t) = none) ∧
    SymFs.SameOutside G011_ROOT s₀ (g011_remove_tree s) := by
  have hloop := Ends.foldl_range (f := fun s i => (g011_remove_entry s (g011_name i)).2)
    (I := fun i s' => Stressed s₀ s' ∧ ∀ j < i, s'.fs.get (g011_name j) = none) G011_NFILES
    (fun i _ _ hI => hI.1.removed i hI.2) (a := s) ⟨h, fun j hj => absurd hj (Nat.not_lt_zero j)⟩
  unfold g011_remove_tree
  generalize (List.range G011_NFILES).foldl (fun s i => (g011_remove_entry s (g011_name i)).2) s = s' at hloop ⊢
  obtain ⟨hstate, hgone⟩ := hloop
  obtain ⟨-, honly, hnone⟩ := SymFs.rmdir_clear (d := XFS_MNT) (n := ['g', '0', '1', '1']) hstate.shallow.dir
    fun t ht => hstate.empty hgone ht
  refine ⟨hnone, hstate.outside.trans fun q hq => honly.get q fun heq => hq ?_⟩
  exact heq ▸ List.prefix_refl _

/-! ## The whole test -/

/-- The directory of the test when it has been made. -/
theorem stressed_mkdir (hmnt : s.fs.Dir XFS_MNT) (hup : s.fs.Up) (hmkdir : (s.mkdir G011_ROOT).1 = 0) :
    Stressed s (s.mkdir G011_ROOT).2 ∧ ∀ t, t ≠ [] → (s.mkdir G011_ROOT).2.fs.get (G011_ROOT ++ t) = none := by
  obtain ⟨hshallow, hempty⟩ : (s.mkdir G011_ROOT).2.Shallow G011_ROOT Named ∧ _ :=
    SymFs.shallow_mkdir hmnt hup.below hmkdir
  have honly : Fs.OnlyAt G011_ROOT s.fs (s.mkdir G011_ROOT).2.fs := (SymFs.mkdir_new hmnt ['g', '0', '1', '1']).1
  refine ⟨⟨hshallow, fun q hq => honly.get q fun heq => hq ?_⟩, hempty⟩
  exact heq ▸ List.prefix_refl _

/-- The end of the test: the directory is empty, is removed, and is made again. -/
theorem remade (h : Stressed s₀ s) (hempty : ∀ t, t ≠ [] → s.fs.get (G011_ROOT ++ t) = none) :
    (s.rmdir G011_ROOT).1 = 0 ∧ ((s.rmdir G011_ROOT).2.mkdir G011_ROOT).1 = 0 ∧
      Stressed s₀ ((s.rmdir G011_ROOT).2.mkdir G011_ROOT).2 := by
  obtain ⟨hr, honly, hnone⟩ := SymFs.rmdir_clear (d := XFS_MNT) (n := ['g', '0', '1', '1']) h.shallow.dir hempty
  have hmnt : (s.rmdir G011_ROOT).2.fs.Dir XFS_MNT := honly.dir fun q hq =>
    h.shallow.dir q (hq.trans (List.prefix_append _ _))
  obtain ⟨honly', hzero⟩ := SymFs.mkdir_new hmnt ['g', '0', '1', '1']
  have hmade : ((s.rmdir G011_ROOT).2.mkdir G011_ROOT).1 = 0 := hzero (hnone [])
  have hshallow : ((s.rmdir G011_ROOT).2.mkdir G011_ROOT).2.Shallow G011_ROOT Named :=
    (SymFs.shallow_mkdir hmnt (fun _ => hnone) hmade).1
  refine ⟨hr, hmade, hshallow, h.outside.trans fun q hq => ?_⟩
  have hne : q ≠ G011_ROOT := fun heq => hq (heq ▸ List.prefix_refl _)
  exact (honly'.get q hne).trans (honly.get q hne)

/-- For every list of draws no assertion leaves the test: each entry is created, and each removal succeeds or finds
nothing. It passes exactly when more than a quarter as many operations of the scramble have succeeded as there are
names, and the clean-up gives back the file system that was there before. -/
theorem dirstress_passes (hmnt : s.fs.Dir XFS_MNT) (hup : s.fs.Up) (hmkdir : (s.mkdir G011_ROOT).1 = 0)
    (draw : Nat → UInt32) : ∃ s₁ s', g011_create_entries (s.mkdir G011_ROOT).2 = .ok s₁ ∧
      dirstress_create_scramble_remove draw (s.mkdir G011_ROOT).2 =
        .ok (decide (G011_NFILES / 4 < (g011_scramble_entries draw s₁).ok), s') ∧
      ∀ q, (g011_remove_tree s').fs.get q = s.fs.get q := by
  obtain ⟨hstart, hempty⟩ := stressed_mkdir hmnt hup hmkdir
  obtain ⟨s₁, hcreate, h₁⟩ := create_entries_spec hstart fun j _ => hempty _ (by simp)
  obtain ⟨s₂, hremove, h₂, hgone⟩ := remove_entries_spec (scramble_entries_keeps h₁ draw)
  obtain ⟨hr, hm, hlast⟩ := remade h₂ hgone
  obtain ⟨hnone, houtside⟩ := remove_tree_spec hlast
  refine ⟨s₁, ((s₂.rmdir G011_ROOT).2.mkdir G011_ROOT).2, hcreate, ?_, fun q => ?_⟩
  · unfold dirstress_create_scramble_remove
    rw [hcreate, Ends.ok_bind]
    dsimp only
    rw [hremove, Ends.ok_bind, hr, hm]
    simp
  · by_cases hq : G011_ROOT <+: q
    · obtain ⟨t, rfl⟩ := hq
      rw [hnone t]
      exact (hup.below (SymFs.free_of_mkdir hmnt hmkdir) t).symm
    · exact houtside q hq

/-- The mounted file system, without links. -/
def mounted : SymFs Text := ⟨mountedFs, fun _ => none, 32000⟩

/-- Draws that all are of the first name: the file is renamed to itself, unlinked, not found, created, in the way. -/
theorem dirstress_passes_first : ∃ s₁ s', g011_create_entries (mounted.mkdir G011_ROOT).2 = .ok s₁ ∧
    dirstress_create_scramble_remove (fun _ => 0) (mounted.mkdir G011_ROOT).2 =
      .ok (decide (G011_NFILES / 4 < (g011_scramble_entries (fun _ => 0) s₁).ok), s') ∧
    ∀ q, (g011_remove_tree s').fs.get q = mounted.fs.get q := by
  have htidy : mounted.fs.Tidy := mountedFs_tidy_get.1
  have hmnt : mounted.fs.Dir XFS_MNT := htidy.dir mountedFs_mnt
  exact dirstress_passes hmnt htidy.toUp (by decide +kernel) fun _ => 0

end NfsPlayground.Storms.G011
