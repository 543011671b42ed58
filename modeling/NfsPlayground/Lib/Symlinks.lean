import NfsPlayground.Lib.PosixFiles
import Mathlib.Tactic.SplitIfs

/-!
# A POSIX file system with symbolic links

A symbolic link is a file of its own kind: it has a number, as every file, and holds an absolute path. A path is walked
name by name from the root; a link on the way is followed, and one at the end if the call asks for it. The calls that
name an entry are those of `Posix.Fs` on the path that the walk ends at.
-/

namespace Posix

variable {N : Type} [DecidableEq N]

def EMLINK : Int := 31
def ELOOP : Int := 40

structure SymFs (N : Type) where
  fs : Fs N
  /-- The path that a symbolic link holds, by its number. -/
  target : Nat → Option (List N)
  /-- How many names a file may have. -/
  linkMax : Nat

/-- A walk stops at the link after these. -/
def MAXSYMLINKS : Nat := 40

namespace SymFs

variable (s : SymFs N)

/-! ## Walking a path -/

/-- What a symbolic link at a path holds. -/
def link? (p : List N) : Option (List N) :=
  match s.fs.get p with
  | some (.file k) => s.target k
  | _ => none

/-- A walk from a directory over the names that are left, with what is done at a link. -/
def walkNames (next : List N → Except Int (List N)) (follow : Bool) : List N → List N → Except Int (List N)
  | d, [] => .ok d
  | d, n :: rest =>
    match s.fs.get d with
    | none => .error ENOENT
    | some (.file _) => .error ENOTDIR
    | some .dir =>
      match s.link? (d ++ [n]) with
      | some t => if rest = [] ∧ follow = false then .ok (d ++ [n]) else next (t ++ rest)
      | none => walkNames next follow (d ++ [n]) rest

/-- A walk from the root that may follow so many links. -/
def walk (follow : Bool) : Nat → List N → Except Int (List N)
  | 0 => s.walkNames (fun _ => .error ELOOP) follow []
  | links + 1 => s.walkNames (walk follow links) follow []

/-- Where a path leads; a link at its end is followed or not. -/
def resolve (follow : Bool) (p : List N) : Except Int (List N) := s.walk follow MAXSYMLINKS p

/-! ## Calls by path -/

/-- A call on the entry that a path names. -/
def onEntry (p : List N) (call : List N → Int × Fs N) : Int × SymFs N :=
  match s.resolve false p with
  | .error e => (-e, s)
  | .ok q => ((call q).1, { s with fs := (call q).2 })

def mkdir (p : List N) : Int × SymFs N := s.onEntry p s.fs.mkdir

def rmdir (p : List N) : Int × SymFs N := s.onEntry p s.fs.rmdir

def unlink (p : List N) : Int × SymFs N := s.onEntry p s.fs.unlink

/-- A new file, which is a symbolic link if it holds a path. -/
def make (t : Option (List N)) (p : List N) : Int × SymFs N :=
  let r := s.onEntry p s.fs.openExcl
  if r.1 < 0 then r else (0, { r.2 with target := Function.update s.target r.1.toNat t })

/-- An open with `O_CREAT | O_EXCL`. -/
def openExcl (p : List N) : Int × SymFs N := s.make none p

def symlink (t p : List N) : Int × SymFs N := s.make (some t) p

/-- An open of a file that is there. -/
def openFile (p : List N) : Int :=
  match s.resolve true p with
  | .error e => -e
  | .ok q => s.fs.openFile q

def rename (p q : List N) : Int × SymFs N :=
  match s.resolve false p, s.resolve false q with
  | .error e, _ => (-e, s)
  | .ok _, .error e => (-e, s)
  | .ok p', .ok q' => ((s.fs.rename p' q').1, { s with fs := (s.fs.rename p' q').2 })

/-- How many names a file has. -/
def names (k : Nat) : Nat := s.fs.nodes.countP fun e => e.2 = .file k

def link (p q : List N) : Int × SymFs N :=
  match s.resolve false p with
  | .error e => (-e, s)
  | .ok p' =>
    match s.fs.get p', s.resolve false q with
    | none, _ => (-ENOENT, s)
    | some _, .error e => (-e, s)
    | some x, .ok q' =>
      let r := s.fs.link p' q'
      -- only a file has a number of names
      match x with
      | .file k => if r.1 = 0 ∧ s.linkMax ≤ s.names k then (-EMLINK, s) else (r.1, { s with fs := r.2 })
      | .dir => (r.1, { s with fs := r.2 })

/-- The attributes of what a path names. -/
def lstat (p : List N) : Int :=
  match s.resolve false p with
  | .error e => -e
  | .ok q => if s.fs.get q = none then -ENOENT else 0

/-- A file is cut, or extended with zeros; a link at the end of the path is not followed, and cannot be truncated. -/
def truncate (p : List N) (len : Nat) : Int × SymFs N :=
  match s.resolve false p with
  | .error e => (-e, s)
  | .ok q =>
    match s.fs.get q with
    | none => (-ENOENT, s)
    | some .dir => (-EISDIR, s)
    | some (.file k) =>
      if (s.target k).isSome then (-EINVAL, s)
      else
        (0, { s with fs := s.fs.setData k ((s.fs.data k ++ List.replicate (len - (s.fs.data k).length) 0).take len) })

/-- A write at the end of an open file. -/
def append (k : Nat) (bytes : List UInt8) : Int × SymFs N :=
  (bytes.length, { s with fs := s.fs.setData k (s.fs.data k ++ bytes) })

/-- An entry goes, whatever it is: what `unlink` says is a directory is removed as one. -/
def removeAny (p : List N) : Int × SymFs N :=
  let r := s.unlink p
  if r.1 = - EISDIR then r.2.rmdir p else r

/-! ## Walks in directories -/

variable {s} {d rest : List N} {n : N} {next : List N → Except Int (List N)} {follow : Bool}

theorem link?_dir (h : s.fs.get d = some .dir) : s.link? d = none := by
  simp [link?, h]

theorem walkNames_dir : ∀ d₂ d₁ : List N, s.fs.Dir (d₁ ++ d₂) →
    s.walkNames next follow d₁ (d₂ ++ rest) = s.walkNames next follow (d₁ ++ d₂) rest := by
  intro d₂
  induction d₂ with
  | nil =>
    intro d₁ _
    simp
  | cons n d₂ ih =>
    intro d₁ h
    have hd : s.fs.get d₁ = some .dir := h d₁ (List.prefix_append ..)
    have hn : s.fs.get (d₁ ++ [n]) = some .dir := h (d₁ ++ [n]) ⟨d₂, by simp⟩
    have hrest := ih (d₁ ++ [n]) (by simpa using h)
    rw [List.append_assoc] at hrest
    simp only [List.cons_append, walkNames, hd, link?_dir hn]
    exact hrest

/-- A name in a directory. -/
theorem walk_name (h : s.fs.Dir d) (links : Nat) : s.walk follow links (d ++ [n]) =
    match s.link? (d ++ [n]) with
    | some t =>
      if follow = false then .ok (d ++ [n])
      else match links with
        | 0 => .error ELOOP
        | links + 1 => s.walk follow links t
    | none => .ok (d ++ [n]) := by
  have hd : s.fs.get d = some .dir := h d (List.prefix_refl d)
  cases links with
  | zero =>
    rw [walk, walkNames_dir d [] h]
    simp only [List.nil_append, walkNames, hd, true_and]
  | succ links =>
    rw [walk, walkNames_dir d [] h]
    simp only [List.nil_append, walkNames, hd, true_and, List.append_nil]

theorem resolve_name (h : s.fs.Dir d) (n : N) : s.resolve false (d ++ [n]) = .ok (d ++ [n]) := by
  rw [resolve, walk_name h]
  cases s.link? (d ++ [n]) <;> simp

/-! ## A directory that is not deep -/

/-- Directly in the directory are entries with certain names, below these is nothing, and its links hold paths of such
entries. -/
structure Shallow (s : SymFs N) (d : List N) (names : N → Prop) : Prop where
  dir : s.fs.Dir d
  below : ∀ t x, t ≠ [] → s.fs.get (d ++ t) = some x → ∃ n, names n ∧ t = [n]
  links : ∀ n t, s.link? (d ++ [n]) = some t → ∃ m, names m ∧ t = d ++ [m]

variable {s' : SymFs N} {names : N → Prop} {m : N}

theorem Shallow.deep (h : s.Shallow d names) (n : N) {t : List N} (ht : t ≠ []) : s.fs.get (d ++ [n] ++ t) = none := by
  rw [List.append_assoc]
  refine Option.eq_none_iff_forall_ne_some.2 fun x hx => ?_
  obtain ⟨m, -, hm⟩ := h.below _ x (by simp) hx
  simp at hm
  exact ht hm.2

theorem Shallow.empty (h : s.Shallow d names) (n : N) : s.fs.emptyDir (d ++ [n]) = true :=
  Fs.emptyDir_iff.2 fun _ ht => h.deep n ht

/-- What leaves the tree and the links as they are. -/
theorem Shallow.congr (h : s.Shallow d names) (hget : ∀ q, s'.fs.get q = s.fs.get q) (htarget : s'.target = s.target) :
    s'.Shallow d names := by
  refine ⟨h.dir.congr fun q _ => hget q, fun t x ht hx => h.below t x ht ((hget _).symm.trans hx), fun n t hn => ?_⟩
  refine h.links n t ?_
  unfold link? at hn ⊢
  rwa [hget, htarget] at hn

/-- What changes one entry: it has an allowed name if it is there, and a path in the directory if it is a link. -/
theorem Shallow.only (h : s.Shallow d names) (ho : Fs.OnlyAt (d ++ [n]) s.fs s'.fs)
    (hn : ∀ x, s'.fs.get (d ++ [n]) = some x → names n)
    (hnew : ∀ t, s'.link? (d ++ [n]) = some t → ∃ m, names m ∧ t = d ++ [m])
    (hold : ∀ k t, s'.target k = some t → s.target k = some t ∨ ∃ m, names m ∧ t = d ++ [m]) : s'.Shallow d names := by
  refine ⟨ho.dir h.dir, fun t x ht hx => ?_, fun m t hm => ?_⟩
  · by_cases heq : t = [n]
    · subst heq
      exact ⟨n, hn x hx, rfl⟩
    · rw [ho.get _ fun heq' => heq (List.append_cancel_left heq')] at hx
      exact h.below t x ht hx
  · by_cases heq : m = n
    · subst heq
      exact hnew t hm
    · have hget : s'.fs.get (d ++ [m]) = s.fs.get (d ++ [m]) := by
        refine ho.get _ fun heq' => heq ?_
        exact (List.cons.inj (List.append_cancel_left heq')).1
      unfold link? at hm
      rw [hget] at hm
      cases hx : s.fs.get (d ++ [m]) with
      | none => rw [hx] at hm; cases hm
      | some x =>
        rw [hx] at hm
        cases x with
        | dir => cases hm
        | file k =>
          rcases hold k t hm with hm | hm
          · exact h.links m t (by simpa [link?, hx] using hm)
          · exact hm

theorem Shallow.erase (h : s.Shallow d names) (n : N) :
    ({ s with fs := s.fs.erase (d ++ [n]) } : SymFs N).Shallow d names := by
  have hnone : (s.fs.erase (d ++ [n])).get (d ++ [n]) = none := by rw [Fs.get_erase, if_pos rfl]
  refine h.only (Fs.erase_onlyAt _) (fun x hx => ?_) (fun t ht => ?_) fun k t hk => Or.inl hk
  · rw [hnone] at hx
    cases hx
  · unfold link? at ht
    rw [hnone] at ht
    cases ht

/-- An entry takes a name that is free. -/
theorem Shallow.move (h : s.Shallow d names) (hm : names m) (hnone : s.fs.get (d ++ [m]) = none) :
    ({ s with fs := s.fs.move (d ++ [n]) (d ++ [m]) } : SymFs N).Shallow d names := by
  have hfree : ∀ t, s.fs.get (d ++ [m] ++ t) = none := by
    intro t
    by_cases ht : t = []
    · rw [ht, List.append_nil, hnone]
    · exact h.deep m ht
  have hto := fun t => Fs.get_move_to (p := d ++ [n]) hfree t
  have hnot : ∀ {a b : N}, d ++ [a] <+: d ++ [b] ↔ a = b := by
    intro a b
    rw [List.prefix_append_right_inj, List.prefix_iff_eq_take]
    simp
  refine ⟨h.dir.congr fun q hq => ?_, fun t x ht hx => ?_, fun a t ha => ?_⟩
  · have hshort : ∀ a : N, ¬ d ++ [a] <+: q := fun a hp => absurd (hp.trans hq).length_le (by simp)
    exact Fs.get_move_of_not (hshort n) (hshort m)
  · by_cases hpre : d ++ [m] <+: d ++ t
    · obtain ⟨u, hu⟩ := hpre
      dsimp only at hx
      rw [← hu, hto] at hx
      by_cases hu' : u = []
      · subst hu'
        rw [List.append_nil] at hu
        exact ⟨m, hm, (List.append_cancel_left hu).symm⟩
      · rw [h.deep n hu'] at hx
        cases hx
    · by_cases hpre' : d ++ [n] <+: d ++ t
      · dsimp only at hx
        rw [Fs.get_move_from hpre' hpre] at hx
        cases hx
      · dsimp only at hx
        rw [Fs.get_move_of_not hpre' hpre] at hx
        exact h.below t x ht hx
  · unfold link? at ha
    dsimp only at ha
    by_cases ham : a = m
    · subst ham
      have hat := hto []
      rw [List.append_nil, List.append_nil] at hat
      rw [hat] at ha
      exact h.links n t ha
    · by_cases han : a = n
      · subst han
        rw [Fs.get_move_from (hnot.2 rfl) (mt hnot.1 (Ne.symm ham))] at ha
        cases ha
      · rw [Fs.get_move_of_not (mt hnot.1 (Ne.symm han)) (mt hnot.1 (Ne.symm ham))] at ha
        exact h.links a t ha

/-! ## The calls on such a directory -/

/-- A call answers one of these and leaves the directory as it should be. -/
def Keeps (d : List N) (names : N → Prop) (errs : List Int) (r : Int × SymFs N) : Prop :=
  r.1 ∈ errs ∧ r.2.Shallow d names

theorem mkdir_keeps (h : s.Shallow d names) (hn : names n) : Keeps d names [0, -EEXIST] (s.mkdir (d ++ [n])) := by
  unfold mkdir onEntry Fs.mkdir
  rw [resolve_name h.dir]
  dsimp only
  rw [Fs.above_of_dir h.dir]
  cases s.fs.get (d ++ [n]) with
  | some x => exact ⟨by simp, h⟩
  | none =>
    have hat : (s.fs.put (d ++ [n]) .dir).get (d ++ [n]) = some .dir := by rw [Fs.get_put, if_pos rfl]
    refine ⟨by simp, h.only (Fs.put_onlyAt _ _) (fun _ _ => hn) (fun t ht => ?_) fun k t hk => Or.inl hk⟩
    rw [link?_dir hat] at ht
    cases ht

theorem rmdir_keeps (h : s.Shallow d names) (n : N) :
    Keeps d names [0, -ENOENT, -ENOTDIR, -ENOTEMPTY] (s.rmdir (d ++ [n])) := by
  unfold rmdir onEntry Fs.rmdir
  rw [resolve_name h.dir]
  dsimp only
  rw [Fs.above_of_dir h.dir]
  cases s.fs.get (d ++ [n]) with
  | none => exact ⟨by simp, h⟩
  | some x =>
    cases x with
    | file k => exact ⟨by simp, h⟩
    | dir =>
      dsimp only
      rw [if_pos (h.empty n)]
      exact ⟨by simp, h.erase n⟩

theorem unlink_keeps (h : s.Shallow d names) (n : N) : Keeps d names [0, -ENOENT, -EISDIR] (s.unlink (d ++ [n])) := by
  unfold unlink onEntry Fs.unlink
  rw [resolve_name h.dir]
  dsimp only
  rw [Fs.above_of_dir h.dir]
  cases s.fs.get (d ++ [n]) with
  | none => exact ⟨by simp, h⟩
  | some x =>
    cases x with
    | dir => exact ⟨by simp, h⟩
    | file k => exact ⟨by simp, h.erase n⟩

theorem make_keeps (h : s.Shallow d names) (hn : names n) {t : Option (List N)}
    (ht : ∀ p, t = some p → ∃ m, names m ∧ p = d ++ [m]) : Keeps d names [0, -EEXIST] (s.make t (d ++ [n])) := by
  unfold make onEntry Fs.openExcl
  rw [resolve_name h.dir]
  dsimp only
  rw [Fs.above_of_dir h.dir]
  cases hget : s.fs.get (d ++ [n]) with
  | some x => exact ⟨by simp [EEXIST], by simpa [EEXIST] using h⟩
  | none =>
    have hcreate : s.fs.create (d ++ [n]) = ((s.fs.next : Int), ({ s.fs.put (d ++ [n]) (.file s.fs.next) with
        data := Function.update s.fs.data s.fs.next [], next := s.fs.next + 1 } : Fs N)) := by
      unfold Fs.create
      rw [Fs.above_of_dir h.dir, hget]
    have hat : (s.fs.put (d ++ [n]) (.file s.fs.next)).get (d ++ [n]) = some (.file s.fs.next) := by
      rw [Fs.get_put, if_pos rfl]
    dsimp only
    rw [hcreate, if_neg (by omega), Int.toNat_natCast]
    refine ⟨by simp, h.only (n := n) ⟨(Fs.put_onlyAt _ _).get, Nat.le_succ _, rfl, rfl⟩ (fun _ _ => hn)
      (fun p hp => ht p ?_) fun k p hk => ?_⟩
    · have hget' : ({ s.fs.put (d ++ [n]) (.file s.fs.next) with
          data := Function.update s.fs.data s.fs.next [], next := s.fs.next + 1 } : Fs N).get (d ++ [n]) =
          some (.file s.fs.next) := hat
      unfold link? at hp
      dsimp only at hp
      rw [hget'] at hp
      simpa using hp
    · by_cases hk' : k = s.fs.next
      · subst hk'
        exact Or.inr (ht p (by simpa using hk))
      · exact Or.inl (by simpa [hk'] using hk)

/-- An open that follows links ends at an entry of the directory, or goes round in circles. -/
theorem walk_keeps (h : s.Shallow d names) : ∀ (links : Nat) {n : N}, names n →
    s.walk true links (d ++ [n]) = .error ELOOP ∨ ∃ m, names m ∧ s.walk true links (d ++ [n]) = .ok (d ++ [m]) := by
  intro links
  induction links with
  | zero =>
    intro n hn
    rw [walk_name h.dir]
    cases s.link? (d ++ [n]) with
    | none => exact Or.inr ⟨n, hn, rfl⟩
    | some t => exact Or.inl (by simp)
  | succ links ih =>
    intro n hn
    rw [walk_name h.dir]
    cases hlink : s.link? (d ++ [n]) with
    | none => exact Or.inr ⟨n, hn, rfl⟩
    | some t =>
      obtain ⟨m, hm, rfl⟩ := h.links n t hlink
      simpa using ih hm

theorem openFile_keeps (h : s.Shallow d names) (hn : names n) :
    0 ≤ s.openFile (d ++ [n]) ∨ s.openFile (d ++ [n]) ∈ [-ENOENT, -EISDIR, -ELOOP] := by
  unfold openFile resolve
  rcases walk_keeps h MAXSYMLINKS hn with hwalk | ⟨m, -, hwalk⟩
  · rw [hwalk]
    exact Or.inr (by simp)
  · rw [hwalk]
    dsimp only
    unfold Fs.openFile
    rw [Fs.above_of_dir h.dir]
    cases s.fs.get (d ++ [m]) with
    | none => exact Or.inr (by simp)
    | some x =>
      cases x with
      | dir => exact Or.inr (by simp)
      | file k => exact Or.inl (Int.natCast_nonneg k)

theorem rename_keeps (h : s.Shallow d names) (n : N) (hm : names m) :
    Keeps d names [0, -ENOENT, -EISDIR, -ENOTDIR, -EINVAL, -ENOTEMPTY] (s.rename (d ++ [n]) (d ++ [m])) := by
  have hnone : (s.fs.erase (d ++ [m])).get (d ++ [m]) = none := by rw [Fs.get_erase, if_pos rfl]
  unfold rename Fs.rename
  rw [resolve_name h.dir, resolve_name h.dir]
  dsimp only
  rw [Fs.above_of_dir h.dir, Fs.above_of_dir h.dir]
  cases s.fs.get (d ++ [n]) with
  | none => exact ⟨by simp, h⟩
  | some x =>
    cases hget : s.fs.get (d ++ [m]) with
    | none =>
      cases x with
      | file k => exact ⟨by simp, h.move hm hget⟩
      | dir =>
        dsimp only
        split_ifs
        · exact ⟨by simp, h⟩
        · exact ⟨by simp, h⟩
        · exact ⟨by simp, h.move hm hget⟩
    | some y =>
      cases x with
      | file k =>
        cases y with
        | dir => exact ⟨by simp, h⟩
        | file l =>
          dsimp only
          split_ifs
          · exact ⟨by simp, h⟩
          · exact ⟨by simp, (h.erase m).move hm hnone⟩
      | dir =>
        cases y with
        | file l =>
          dsimp only
          split_ifs <;> exact ⟨by simp, h⟩
        | dir =>
          dsimp only
          rw [if_pos (h.empty m)]
          split_ifs
          · exact ⟨by simp, h⟩
          · exact ⟨by simp, h⟩
          · exact ⟨by simp, (h.erase m).move hm hnone⟩

theorem link_keeps (h : s.Shallow d names) (n : N) (hm : names m) :
    Keeps d names [0, -ENOENT, -EEXIST, -EPERM, -EMLINK] (s.link (d ++ [n]) (d ++ [m])) := by
  unfold link Fs.link
  rw [resolve_name h.dir, resolve_name h.dir]
  dsimp only
  cases hold : s.fs.get (d ++ [n]) with
  | none => exact ⟨by simp, h⟩
  | some x =>
    dsimp only
    rw [Fs.above_of_dir h.dir, Fs.above_of_dir h.dir]
    cases s.fs.get (d ++ [m]) with
    | some y => cases x <;> exact ⟨by simp [EEXIST], by simpa [EEXIST] using h⟩
    | none =>
      cases x with
      | dir => exact ⟨by simp, h⟩
      | file k =>
        dsimp only
        split_ifs
        · exact ⟨by simp, h⟩
        · have hat : (s.fs.put (d ++ [m]) (.file k)).get (d ++ [m]) = some (.file k) := by rw [Fs.get_put, if_pos rfl]
          refine ⟨by simp, h.only (Fs.put_onlyAt _ _) (fun _ _ => hm) (fun t ht => ?_) fun k t hk => Or.inl hk⟩
          unfold link? at ht
          rw [hat] at ht
          exact h.links n t (by simpa [link?, hold] using ht)

theorem lstat_keeps (h : s.Shallow d names) (n : N) : s.lstat (d ++ [n]) ∈ [0, -ENOENT] := by
  unfold lstat
  rw [resolve_name h.dir]
  dsimp only
  split_ifs <;> simp

theorem truncate_keeps (h : s.Shallow d names) (n : N) (len : Nat) :
    Keeps d names [0, -ENOENT, -EISDIR, -EINVAL] (s.truncate (d ++ [n]) len) := by
  unfold truncate
  rw [resolve_name h.dir]
  dsimp only
  cases s.fs.get (d ++ [n]) with
  | none => exact ⟨by simp, h⟩
  | some x =>
    cases x with
    | dir => exact ⟨by simp, h⟩
    | file k =>
      dsimp only
      split_ifs
      · exact ⟨by simp, h⟩
      · exact ⟨by simp, h.congr (fun _ => rfl) rfl⟩

theorem append_keeps (h : s.Shallow d names) (k : Nat) (bytes : List UInt8) : (s.append k bytes).2.Shallow d names :=
  h.congr (fun _ => rfl) rfl

/-! ## Filling the directory, and clearing it -/

/-- What a call that makes an entry answers, and that nothing else changes. -/
theorem mkdir_new (h : s.fs.Dir d) (n : N) : Fs.OnlyAt (d ++ [n]) s.fs (s.mkdir (d ++ [n])).2.fs ∧
    (s.fs.get (d ++ [n]) = none → (s.mkdir (d ++ [n])).1 = 0) := by
  unfold mkdir onEntry Fs.mkdir
  rw [resolve_name h]
  dsimp only
  rw [Fs.above_of_dir h]
  cases s.fs.get (d ++ [n]) with
  | some x => exact ⟨Fs.OnlyAt.refl _ _, fun hnone => by cases hnone⟩
  | none => exact ⟨Fs.put_onlyAt _ _, fun _ => rfl⟩

theorem make_new (h : s.fs.Dir d) (n : N) (t : Option (List N)) :
    Fs.OnlyAt (d ++ [n]) s.fs (s.make t (d ++ [n])).2.fs ∧
      (s.fs.get (d ++ [n]) = none → (s.make t (d ++ [n])).1 = 0) := by
  unfold make onEntry Fs.openExcl
  rw [resolve_name h]
  dsimp only
  rw [Fs.above_of_dir h]
  cases hget : s.fs.get (d ++ [n]) with
  | some x =>
    dsimp only
    rw [if_pos (by decide)]
    exact ⟨Fs.OnlyAt.refl _ _, fun hnone => by cases hnone⟩
  | none =>
    dsimp only
    unfold Fs.create
    rw [Fs.above_of_dir h, hget]
    dsimp only
    rw [if_neg (by omega)]
    exact ⟨⟨(Fs.put_onlyAt _ _).get, Nat.le_succ _, rfl, rfl⟩, fun _ => rfl⟩

theorem unlink_onlyAt (h : s.fs.Dir d) (n : N) : Fs.OnlyAt (d ++ [n]) s.fs (s.unlink (d ++ [n])).2.fs := by
  unfold unlink onEntry Fs.unlink
  rw [resolve_name h]
  dsimp only
  split
  · exact Fs.OnlyAt.refl _ _
  · exact Fs.OnlyAt.refl _ _
  · exact Fs.erase_onlyAt _
  · exact Fs.OnlyAt.refl _ _

theorem rmdir_onlyAt (h : s.fs.Dir d) (n : N) : Fs.OnlyAt (d ++ [n]) s.fs (s.rmdir (d ++ [n])).2.fs := by
  unfold rmdir onEntry Fs.rmdir
  rw [resolve_name h]
  dsimp only
  split
  · exact Fs.OnlyAt.refl _ _
  · exact Fs.OnlyAt.refl _ _
  · exact Fs.OnlyAt.refl _ _
  · split
    · exact Fs.erase_onlyAt _
    · exact Fs.OnlyAt.refl _ _

/-- Outside the directory everything is where it was. -/
def SameOutside (d : List N) (s s' : SymFs N) : Prop := ∀ q, ¬ d <+: q → s'.fs.get q = s.fs.get q

theorem SameOutside.refl (d : List N) (s : SymFs N) : SameOutside d s s := fun _ _ => rfl

theorem SameOutside.trans {s'' : SymFs N} (h : SameOutside d s s') (h' : SameOutside d s' s'') : SameOutside d s s'' :=
  fun q hq => (h' q hq).trans (h q hq)

theorem SameOutside.of_onlyAt (h : Fs.OnlyAt (d ++ [n]) s.fs s'.fs) : SameOutside d s s' := fun q hq =>
  h.get q fun heq => hq (heq ▸ List.prefix_append _ _)

theorem rename_outside (h : s.fs.Dir d) (n m : N) : SameOutside d s (s.rename (d ++ [n]) (d ++ [m])).2 := by
  have hnot : ∀ (a : N) {q : List N}, ¬ d <+: q → ¬ d ++ [a] <+: q := fun a _ hq ha =>
    hq ((List.prefix_append _ _).trans ha)
  have hmove : ∀ fs' : Fs N, (∀ q, ¬ d <+: q → fs'.get q = s.fs.get q) →
      SameOutside d s { s with fs := fs'.move (d ++ [n]) (d ++ [m]) } := fun fs' hfs q hq => by
    show (fs'.move (d ++ [n]) (d ++ [m])).get q = s.fs.get q
    rw [Fs.get_move_of_not (hnot n hq) (hnot m hq), hfs q hq]
  have herase : SameOutside d s { s with fs := s.fs.erase (d ++ [m]) } := SameOutside.of_onlyAt (Fs.erase_onlyAt _)
  unfold rename Fs.rename
  rw [resolve_name h, resolve_name h]
  dsimp only
  rw [Fs.above_of_dir h, Fs.above_of_dir h]
  cases s.fs.get (d ++ [n]) with
  | none => exact SameOutside.refl d s
  | some x =>
    cases s.fs.get (d ++ [m]) with
    | none =>
      cases x with
      | file k => exact hmove s.fs fun _ _ => rfl
      | dir =>
        dsimp only
        split_ifs
        · exact SameOutside.refl d s
        · exact SameOutside.refl d s
        · exact hmove s.fs fun _ _ => rfl
    | some y =>
      cases x with
      | file k =>
        cases y with
        | dir => exact SameOutside.refl d s
        | file l =>
          dsimp only
          split_ifs
          · exact SameOutside.refl d s
          · exact hmove _ herase
      | dir =>
        cases y with
        | file l =>
          dsimp only
          split_ifs <;> exact SameOutside.refl d s
        | dir =>
          dsimp only
          split_ifs
          · exact SameOutside.refl d s
          · exact SameOutside.refl d s
          · exact hmove _ herase
          · exact SameOutside.refl d s

/-- An entry is removed, whatever it is, and an error says that there was none. -/
theorem removeAny_spec (h : s.Shallow d names) (n : N) : (s.removeAny (d ++ [n])).2.Shallow d names ∧
    (s.removeAny (d ++ [n])).2.fs.get (d ++ [n]) = none ∧
      Fs.OnlyAt (d ++ [n]) s.fs (s.removeAny (d ++ [n])).2.fs ∧
      (s.removeAny (d ++ [n])).1 = if s.fs.get (d ++ [n]) = none then -ENOENT else 0 := by
  have herase : (s.fs.erase (d ++ [n])).get (d ++ [n]) = none := by rw [Fs.get_erase, if_pos rfl]
  have hname := resolve_name h.dir n
  have habove := Fs.above_of_dir h.dir n
  unfold removeAny unlink onEntry Fs.unlink
  rw [hname]
  dsimp only
  rw [habove]
  cases hget : s.fs.get (d ++ [n]) with
  | none =>
    dsimp only
    rw [if_neg (by decide)]
    exact ⟨h, hget, Fs.OnlyAt.refl _ _, (if_pos rfl).symm⟩
  | some x =>
    cases x with
    | file k =>
      dsimp only
      rw [if_neg (by decide)]
      exact ⟨h.erase _, herase, Fs.erase_onlyAt _, rfl⟩
    | dir =>
      rw [if_pos rfl]
      dsimp only
      unfold rmdir onEntry Fs.rmdir
      rw [hname]
      dsimp only
      rw [habove, hget]
      dsimp only
      rw [if_pos (h.empty _)]
      exact ⟨h.erase _, herase, Fs.erase_onlyAt _, rfl⟩

/-- When the entries with the first names are gone, one more removal takes the next. -/
theorem removeAny_next {name : Nat → N} {i : Nat} (h : s.Shallow d names)
    (hgone : ∀ j < i, s.fs.get (d ++ [name j]) = none) :
    (s.removeAny (d ++ [name i])).2.Shallow d names ∧
      ∀ j < i + 1, (s.removeAny (d ++ [name i])).2.fs.get (d ++ [name j]) = none := by
  obtain ⟨hshallow, hnone, honly, -⟩ := removeAny_spec h (name i)
  refine ⟨hshallow, fun j hj => ?_⟩
  by_cases heq : d ++ [name j] = d ++ [name i]
  · rw [heq, hnone]
  · rw [honly.get _ heq]
    rcases Nat.lt_succ_iff_lt_or_eq.1 hj with hj | rfl
    · exact hgone j hj
    · exact absurd rfl heq

/-- A directory without an entry that has a name is empty. -/
theorem Shallow.clear (h : s.Shallow d names) (hgone : ∀ n, names n → s.fs.get (d ++ [n]) = none) {t : List N}
    (ht : t ≠ []) : s.fs.get (d ++ t) = none := by
  refine Option.eq_none_iff_forall_ne_some.2 fun x hx => ?_
  obtain ⟨n, hn, rfl⟩ := h.below t x ht hx
  rw [hgone n hn] at hx
  cases hx

/-- A directory that is empty is removed. -/
theorem rmdir_clear (h : s.fs.Dir (d ++ [n])) (hempty : ∀ t, t ≠ [] → s.fs.get (d ++ [n] ++ t) = none) :
    (s.rmdir (d ++ [n])).1 = 0 ∧ Fs.OnlyAt (d ++ [n]) s.fs (s.rmdir (d ++ [n])).2.fs ∧
      ∀ t, (s.rmdir (d ++ [n])).2.fs.get (d ++ [n] ++ t) = none := by
  have hd : s.fs.Dir d := fun q hq => h q (hq.trans (List.prefix_append _ _))
  have hget : s.fs.get (d ++ [n]) = some .dir := h _ (List.prefix_refl _)
  unfold rmdir onEntry Fs.rmdir
  rw [resolve_name hd]
  dsimp only
  rw [Fs.above_of_dir hd, hget]
  dsimp only
  rw [if_pos (Fs.emptyDir_iff.2 hempty)]
  refine ⟨rfl, Fs.erase_onlyAt _, fun t => ?_⟩
  rw [Fs.get_erase]
  split
  · rfl
  · rename_i hne
    exact hempty t fun ht => hne (by rw [ht, List.append_nil])

theorem free_of_mkdir (hd : s.fs.Dir d) (h : (s.mkdir (d ++ [n])).1 = 0) : s.fs.get (d ++ [n]) = none := by
  refine Option.eq_none_iff_forall_ne_some.2 fun x hx => ?_
  unfold mkdir onEntry Fs.mkdir at h
  rw [resolve_name hd] at h
  dsimp only at h
  rw [Fs.above_of_dir hd, hx] at h
  exact absurd h (by dsimp only; decide)

/-- A directory that has been made holds nothing, if nothing was below its path. -/
theorem shallow_mkdir (hd : s.fs.Dir d) (hup : s.fs.get (d ++ [n]) = none → ∀ t, s.fs.get (d ++ [n] ++ t) = none)
    (h : (s.mkdir (d ++ [n])).1 = 0) :
    (s.mkdir (d ++ [n])).2.Shallow (d ++ [n]) names ∧
      ∀ t, t ≠ [] → (s.mkdir (d ++ [n])).2.fs.get (d ++ [n] ++ t) = none := by
  have hnone := free_of_mkdir hd h
  have hnew : ∀ t, s.fs.get (d ++ [n] ++ t) = none := hup hnone
  obtain ⟨fs', hr, hdir, ho⟩ := Fs.mkdir_new hd hnone
  have hafter : (s.mkdir (d ++ [n])).2 = { s with fs := fs' } := by
    unfold mkdir onEntry
    rw [resolve_name hd]
    dsimp only
    rw [hr]
  have hbelow : ∀ t, t ≠ [] → fs'.get (d ++ [n] ++ t) = none := by
    intro t ht
    rw [ho.get _ fun heq => ht (List.append_right_eq_self.1 heq), hnew]
  rw [hafter]
  refine ⟨⟨hdir, fun t x ht hx => ?_, fun m t hm => ?_⟩, hbelow⟩
  · dsimp only at hx
    rw [hbelow t ht] at hx
    cases hx
  · unfold link? at hm
    dsimp only at hm
    rw [hbelow [m] (by simp)] at hm
    cases hm

end SymFs

end Posix
