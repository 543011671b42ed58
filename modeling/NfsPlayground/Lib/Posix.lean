import Mathlib.Data.List.Infix
import Mathlib.Logic.Function.Basic

/-!
# A POSIX file system, on which every call succeeds that may

The tree is the list of its paths, each a directory or one of the names of a file. A call fails only for a reason that
the tree gives: it returns the negative error number, and otherwise `0` or what it is asked for.

- `get_put`, `get_erase`, `get_move_to`, `get_move_of_not`: what is at a path after an update of the tree;
- `Flat d`: below the directory `d` there are only files, each directly in it; what the calls on such a file do is said
  by `create_flat`, `unlink_flat`, `link_flat` and `rename_flat`.
-/

namespace Posix

variable {N : Type} [DecidableEq N]

def EPERM : Int := 1
def ENOENT : Int := 2
def EBADF : Int := 9
def EEXIST : Int := 17
def ENOTDIR : Int := 20
def EISDIR : Int := 21
def EINVAL : Int := 22
def ENOTEMPTY : Int := 39

inductive Node
  | dir
  | file (ino : Nat)
  deriving DecidableEq

structure Fs (N : Type) where
  nodes : List (List N × Node)
  data : Nat → List UInt8
  /-- The first number no file has. -/
  next : Nat
  /-- The references taken to paths; a rename moves them. -/
  refs : List (List N)
  /-- The file behind each mapping. -/
  maps : List (Option Nat)

namespace Fs

variable (fs : Fs N)

/-! ## The tree -/

def get (p : List N) : Option Node := fs.nodes.lookup p

def erase (p : List N) : Fs N := { fs with nodes := fs.nodes.filter (·.1 ≠ p) }

def put (p : List N) (x : Node) : Fs N := { fs with nodes := (p, x) :: fs.nodes.filter (·.1 ≠ p) }

/-- Where a path is after the rename of `p` to `q`. -/
def moved (p q r : List N) : List N := if p <+: r then q ++ r.drop p.length else r

def move (p q : List N) : Fs N :=
  { fs with nodes := fs.nodes.map fun e => (moved p q e.1, e.2), refs := fs.refs.map (moved p q) }

/-- What the resolution of the names before the last one fails with. -/
def above (p : List N) : Option Int :=
  p.dropLast.inits.findSome? fun q =>
    match fs.get q with
    | some .dir => none
    | some (.file _) => some ENOTDIR
    | none => some ENOENT

/-! ## Calls by path -/

def mkdir (p : List N) : Int × Fs N :=
  match fs.above p, fs.get p with
  | some e, _ => (-e, fs)
  | none, some _ => (-EEXIST, fs)
  | none, none => (0, fs.put p .dir)

/-- An open that creates the file, or cuts it to length zero. -/
def create (p : List N) : Int × Fs N :=
  match fs.above p, fs.get p with
  | some e, _ => (-e, fs)
  | none, some .dir => (-EISDIR, fs)
  | none, some (.file k) => (k, { fs with data := Function.update fs.data k [] })
  | none, none =>
    (fs.next, { fs.put p (.file fs.next) with data := Function.update fs.data fs.next [], next := fs.next + 1 })

/-- An open for writing. -/
def openFile (p : List N) : Int :=
  match fs.above p, fs.get p with
  | some e, _ => -e
  | none, some .dir => -EISDIR
  | none, some (.file k) => k
  | none, none => -ENOENT

def unlink (p : List N) : Int × Fs N :=
  match fs.above p, fs.get p with
  | some e, _ => (-e, fs)
  | none, some .dir => (-EISDIR, fs)
  | none, some (.file _) => (0, fs.erase p)
  | none, none => (-ENOENT, fs)

def link (p q : List N) : Int × Fs N :=
  match fs.above p, fs.get p, fs.above q, fs.get q with
  | some e, _, _, _ => (-e, fs)
  | none, none, _, _ => (-ENOENT, fs)
  | none, some _, some e, _ => (-e, fs)
  | none, some _, none, some _ => (-EEXIST, fs)
  | none, some .dir, none, none => (-EPERM, fs)
  | none, some (.file k), none, none => (0, fs.put q (.file k))

def emptyDir (p : List N) : Bool := fs.nodes.all fun e => e.1 = p ∨ ¬ p <+: e.1

def rename (p q : List N) : Int × Fs N :=
  match fs.above p, fs.get p, fs.above q with
  | some e, _, _ => (-e, fs)
  | none, none, _ => (-ENOENT, fs)
  | none, some _, some e => (-e, fs)
  | none, some (.file k), none =>
    match fs.get q with
    | none => (0, fs.move p q)
    | some .dir => (-EISDIR, fs)
    -- two names of one file both stay
    | some (.file l) => if k = l then (0, fs) else (0, (fs.erase q).move p q)
  | none, some .dir, none =>
    if p = q then (0, fs)
    else if p <+: q then (-EINVAL, fs)
    else
      match fs.get q with
      | none => (0, fs.move p q)
      | some (.file _) => (-ENOTDIR, fs)
      | some .dir => if fs.emptyDir q then (0, (fs.erase q).move p q) else (-ENOTEMPTY, fs)

def resolves (p : List N) : Bool := (fs.above p).isNone && (fs.get p).isSome

/-- A reference to the path, as its number. -/
def lookup (p : List N) : Int × Nat × Fs N :=
  match fs.above p, fs.get p with
  | some e, _ => (-e, 0, fs)
  | none, none => (-ENOENT, 0, fs)
  | none, some _ => (0, fs.refs.length, { fs with refs := fs.refs ++ [p] })

/-! ## Calls by file -/

/-- The bytes with others written over them, and zeros between the end and the offset. -/
def patch (bytes : List UInt8) (off : Nat) (new : List UInt8) : List UInt8 :=
  (bytes ++ List.replicate (off - bytes.length) 0).take off ++ new ++ bytes.drop (off + new.length)

def setData (k : Nat) (bytes : List UInt8) : Fs N := { fs with data := Function.update fs.data k bytes }

def write (k off : Nat) (bytes : List UInt8) : Int × Fs N :=
  if k < fs.next then (bytes.length, fs.setData k (patch (fs.data k) off bytes)) else (-EBADF, fs)

def read (k off len : Nat) : List UInt8 := ((fs.data k).drop off).take len

def fsync (k : Nat) : Int := if k < fs.next then 0 else -EBADF

def fallocate (k off len : Nat) : Int × Fs N :=
  if k < fs.next then
    if len = 0 then (-EINVAL, fs)
    else (0, fs.setData k (fs.data k ++ List.replicate (off + len - (fs.data k).length) 0))
  else (-EBADF, fs)

/-- The file becomes shorter, or longer by zeros. -/
def truncate (k len : Nat) : Int × Fs N :=
  if k < fs.next then
    (0, fs.setData k ((fs.data k ++ List.replicate (len - (fs.data k).length) 0).take len))
  else (-EBADF, fs)

/-! ## Calls by address -/

/-- The address of a mapping is its number, counted from one. -/
def mmap (k : Nat) : Int × Fs N :=
  if k < fs.next then (fs.maps.length + 1, { fs with maps := fs.maps ++ [some k] }) else (-EBADF, fs)

def mapped (addr : Int) : Option Nat := if 0 < addr then fs.maps.getD (addr.toNat - 1) none else none

/-- The end of the last page that holds a byte of the file. -/
def pageEnd (k : Nat) : Nat := ((fs.data k).length + 4095) / 4096 * 4096

/-- A store through a mapping: what is beyond the end of the file does not reach it, and beyond the last page there is
nothing to store to. The answer is how many bytes could not be copied. -/
def store (addr : Int) (off : Nat) (bytes : List UInt8) : Nat × Fs N :=
  match fs.mapped addr with
  | some k =>
    if off + bytes.length ≤ fs.pageEnd k then
      (0, fs.setData k ((patch (fs.data k) off bytes).take (fs.data k).length))
    else (bytes.length, fs)
  | none => (bytes.length, fs)

/-- A load through a mapping, with zeros between the end of the file and the end of the page. -/
def load (addr : Int) (off len : Nat) : Nat × List UInt8 :=
  match fs.mapped addr with
  | some k =>
    if off + len ≤ fs.pageEnd k then (0, fs.read k off len ++ List.replicate (len - (fs.read k off len).length) 0)
    else (len, [])
  | none => (len, [])

def munmap (addr : Int) : Int × Fs N :=
  match fs.mapped addr with
  | some _ => (0, { fs with maps := fs.maps.set (addr.toNat - 1) none })
  | none => (-EINVAL, fs)

/-! ## What is at a path -/

section Get

variable {fs}

theorem get_eq_none {p : List N} (h : ∀ e ∈ fs.nodes, e.1 ≠ p) : fs.get p = none :=
  List.lookup_eq_none_iff.2 fun e he => bne_iff_ne.2 (h e he).symm

theorem lookup_filter_ne {p q : List N} (h : q ≠ p) : ∀ l : List (List N × Node),
    (l.filter (·.1 ≠ p)).lookup q = l.lookup q
  | [] => rfl
  | (r, x) :: l => by
    have ih := lookup_filter_ne h l
    by_cases hr : r = p
    · subst hr
      rw [List.filter_cons_of_neg (by simp), ih, List.lookup_cons, beq_false_of_ne h]
    · rw [List.filter_cons_of_pos (by simpa using hr), List.lookup_cons, List.lookup_cons, ih]

theorem get_erase (p q : List N) : (fs.erase p).get q = if q = p then none else fs.get q := by
  unfold get erase
  split
  · rename_i h
    subst h
    refine List.lookup_eq_none_iff.2 fun e he => ?_
    have hne : e.1 ≠ q := of_decide_eq_true (List.mem_filter.1 he).2
    exact bne_iff_ne.2 hne.symm
  · rename_i h
    exact lookup_filter_ne h _

theorem get_put (p q : List N) (x : Node) : (fs.put p x).get q = if q = p then some x else fs.get q := by
  unfold get put
  by_cases h : q = p
  · subst h
    rw [List.lookup_cons_self, if_pos rfl]
  · rw [List.lookup_cons, beq_false_of_ne h, if_neg h]
    exact lookup_filter_ne h _

/-- Looking a path up where the paths have been changed. -/
theorem lookup_map {f : List N → List N} {r r' : List N} : ∀ {l : List (List N × Node)},
    (∀ e ∈ l, f e.1 = r ↔ e.1 = r') → (l.map fun e => (f e.1, e.2)).lookup r = l.lookup r'
  | [], _ => rfl
  | (k, x) :: l, h => by
    have hk : f k = r ↔ k = r' := h (k, x) (List.mem_cons_self ..)
    have ih : (l.map fun e => (f e.1, e.2)).lookup r = l.lookup r' :=
      lookup_map fun e he => h e (List.mem_cons_of_mem _ he)
    rw [List.map_cons, List.lookup_cons, List.lookup_cons, ih]
    have hbeq : (r == f k) = (r' == k) := by
      rw [Bool.eq_iff_iff, beq_iff_eq, beq_iff_eq, eq_comm, hk, eq_comm]
    rw [hbeq]

theorem moved_append (p q t : List N) : moved p q (p ++ t) = q ++ t := by
  rw [moved, if_pos (List.prefix_append p t), List.drop_left]

theorem moved_of_not {p r : List N} (q : List N) (h : ¬ p <+: r) : moved p q r = r := if_neg h

theorem get_move_of_not {p q r : List N} (hp : ¬ p <+: r) (hq : ¬ q <+: r) : (fs.move p q).get r = fs.get r := by
  refine lookup_map fun e _ => ?_
  by_cases he : p <+: e.1
  · obtain ⟨t, ht⟩ := he
    rw [← ht, moved_append]
    constructor
    · intro h
      exact absurd ⟨t, h⟩ hq
    · intro h
      exact absurd ⟨t, h⟩ hp
  · rw [moved_of_not q he]

/-- Nothing may be at or below the new path. -/
theorem get_move_to {p q : List N} (h : ∀ t, fs.get (q ++ t) = none) (t : List N) :
    (fs.move p q).get (q ++ t) = fs.get (p ++ t) := by
  refine lookup_map fun e hmem => ?_
  by_cases he : p <+: e.1
  · obtain ⟨u, hu⟩ := he
    rw [← hu, moved_append, List.append_cancel_left_eq, List.append_cancel_left_eq]
  · rw [moved_of_not q he]
    refine iff_of_false (fun heq => ?_) fun heq => he (heq ▸ List.prefix_append p t)
    have hnone := List.lookup_eq_none_iff.1 (h t) e hmem
    rw [heq] at hnone
    simp at hnone

theorem get_move_from {p q r : List N} (hp : p <+: r) (hq : ¬ q <+: r) : (fs.move p q).get r = none := by
  refine List.lookup_eq_none_iff.2 fun e he => ?_
  obtain ⟨e', -, rfl⟩ := List.mem_map.1 he
  rw [bne_iff_ne]
  rintro rfl
  dsimp only at hp hq
  by_cases h : p <+: e'.1
  · obtain ⟨t, ht⟩ := h
    rw [← ht, moved_append] at hq
    exact hq (List.prefix_append q t)
  · rw [moved_of_not q h] at hp
    exact h hp

end Get

/-! ## Directories -/

/-- The path and those above it are directories. -/
def Dir (d : List N) : Prop := ∀ q, q <+: d → fs.get q = some .dir

section Dir

variable {fs} {d : List N} {n : N}

theorem above_of_dir (h : fs.Dir d) (n : N) : fs.above (d ++ [n]) = none := by
  unfold above
  rw [List.dropLast_concat, List.findSome?_eq_none_iff]
  intro q hq
  rw [h q ((List.mem_inits q d).1 hq)]

theorem Dir.snoc (h : fs.Dir d) (hget : fs.get (d ++ [n]) = some .dir) : fs.Dir (d ++ [n]) := by
  intro q hq
  rcases List.prefix_concat_iff.1 hq with rfl | hq
  · exact hget
  · exact h q hq

theorem Dir.congr {fs' : Fs N} (h : fs.Dir d) (hget : ∀ q, q <+: d → fs'.get q = fs.get q) : fs'.Dir d :=
  fun q hq => (hget q hq).trans (h q hq)

end Dir

/-- The two differ in what is at `p`, and in data. -/
structure OnlyAt (p : List N) (fs fs' : Fs N) : Prop where
  get : ∀ q, q ≠ p → fs'.get q = fs.get q
  next : fs.next ≤ fs'.next
  refs : fs'.refs = fs.refs
  maps : fs'.maps = fs.maps

section OnlyAt

variable {fs fs' : Fs N} {d p : List N} {n : N}

theorem OnlyAt.refl (p : List N) (fs : Fs N) : OnlyAt p fs fs := ⟨fun _ _ => rfl, Nat.le_refl _, rfl, rfl⟩

theorem setData_onlyAt (p : List N) (k : Nat) (bytes : List UInt8) : OnlyAt p fs (fs.setData k bytes) :=
  ⟨fun _ _ => rfl, Nat.le_refl _, rfl, rfl⟩

theorem put_onlyAt (p : List N) (x : Node) : OnlyAt p fs (fs.put p x) :=
  ⟨fun q hq => by rw [get_put, if_neg hq], Nat.le_refl _, rfl, rfl⟩

theorem erase_onlyAt (p : List N) : OnlyAt p fs (fs.erase p) :=
  ⟨fun q hq => by rw [get_erase, if_neg hq], Nat.le_refl _, rfl, rfl⟩

omit [DecidableEq N] in
theorem ne_of_isPre {q : List N} (h : q <+: d) : q ≠ d ++ [n] := by
  rintro rfl
  exact absurd h.length_le (by simp)

theorem OnlyAt.dir (ho : OnlyAt (d ++ [n]) fs fs') (h : fs.Dir d) : fs'.Dir d :=
  h.congr fun _ hq => ho.get _ (ne_of_isPre hq)

theorem mkdir_new (h : fs.Dir d) (hnone : fs.get (d ++ [n]) = none) :
    ∃ fs', fs.mkdir (d ++ [n]) = (0, fs') ∧ fs'.Dir (d ++ [n]) ∧ OnlyAt (d ++ [n]) fs fs' := by
  have hat : (fs.put (d ++ [n]) .dir).get (d ++ [n]) = some .dir := by rw [get_put, if_pos rfl]
  refine ⟨fs.put (d ++ [n]) .dir, ?_, ((put_onlyAt _ _).dir h).snoc hat, put_onlyAt _ _⟩
  unfold mkdir
  rw [above_of_dir h, hnone]

end OnlyAt

/-! ## Directories of files -/

/-- A directory below which there are only files, directly in it. -/
structure Flat (d : List N) : Prop where
  dir : fs.Dir d
  files : ∀ n t x, fs.get (d ++ n :: t) = some x → t = [] ∧ ∃ k, x = .file k ∧ k < fs.next

section Flat

variable {fs fs' : Fs N} {d : List N} {m n : N}

theorem Flat.name (h : fs.Flat d) (n : N) :
    fs.get (d ++ [n]) = none ∨ ∃ k, fs.get (d ++ [n]) = some (.file k) ∧ k < fs.next := by
  cases hget : fs.get (d ++ [n]) with
  | none => exact Or.inl rfl
  | some x =>
    obtain ⟨-, k, rfl, hk⟩ := h.files n [] x hget
    exact Or.inr ⟨k, rfl, hk⟩

theorem Flat.below (h : fs.Flat d) {t : List N} (ht : t ≠ []) : fs.get (d ++ [n] ++ t) = none := by
  rw [List.append_assoc, List.singleton_append]
  cases hget : fs.get (d ++ n :: t) with
  | none => rfl
  | some x => exact absurd (h.files n t x hget).1 ht

/-- A new directory is flat. -/
theorem Flat.of_new (h : fs.Dir d) (hnone : ∀ n t, fs.get (d ++ n :: t) = none) : fs.Flat d :=
  ⟨h, fun n t x hget => by rw [hnone n t] at hget; cases hget⟩

/-- What changes in one of its files keeps a directory flat. -/
theorem Flat.only (h : fs.Flat d) (ho : OnlyAt (d ++ [n]) fs fs')
    (hn : ∀ x, fs'.get (d ++ [n]) = some x → ∃ k, x = .file k ∧ k < fs'.next) : fs'.Flat d := by
  refine ⟨ho.dir h.dir, fun m t x hget => ?_⟩
  by_cases heq : d ++ m :: t = d ++ [n]
  · have hmt := List.append_cancel_left heq
    rw [heq] at hget
    exact ⟨(List.cons.inj hmt).2, hn x hget⟩
  · rw [ho.get _ heq] at hget
    obtain ⟨ht, k, hx, hk⟩ := h.files m t x hget
    exact ⟨ht, k, hx, Nat.lt_of_lt_of_le hk ho.next⟩

theorem create_flat (h : fs.Flat d) (n : N) : ∃ k : Nat, ∃ fs', fs.create (d ++ [n]) = ((k : Int), fs') ∧ fs'.Flat d ∧
    OnlyAt (d ++ [n]) fs fs' ∧ fs'.get (d ++ [n]) = some (.file k) ∧ k < fs'.next ∧ fs'.data k = [] := by
  have habove := above_of_dir h.dir n
  rcases h.name n with hnone | ⟨k, hfile, hk⟩
  · have hat : (fs.put (d ++ [n]) (.file fs.next)).get (d ++ [n]) = some (.file fs.next) := by rw [get_put, if_pos rfl]
    have ho : OnlyAt (d ++ [n]) fs { fs.put (d ++ [n]) (.file fs.next) with
        data := Function.update fs.data fs.next [], next := fs.next + 1 } :=
      ⟨(put_onlyAt _ _).get, Nat.le_succ _, rfl, rfl⟩
    refine ⟨fs.next, _, ?_, h.only ho fun x hx => ⟨fs.next, ?_, Nat.lt_succ_self _⟩, ho, hat, Nat.lt_succ_self _, ?_⟩
    · unfold create
      rw [habove, hnone]
    · exact (Option.some.inj (hat.symm.trans hx)).symm
    · exact Function.update_self ..
  · have ho : OnlyAt (d ++ [n]) fs { fs with data := Function.update fs.data k [] } :=
      ⟨fun _ _ => rfl, Nat.le_refl _, rfl, rfl⟩
    refine ⟨k, _, ?_, h.only ho fun x hx => ⟨k, ?_, hk⟩, ho, hfile, hk, ?_⟩
    · unfold create
      rw [habove, hfile]
    · exact (Option.some.inj (hfile.symm.trans hx)).symm
    · exact Function.update_self ..

theorem openFile_flat (h : fs.Flat d) {k : Nat} (hfile : fs.get (d ++ [n]) = some (.file k)) :
    fs.openFile (d ++ [n]) = k := by
  unfold openFile
  rw [above_of_dir h.dir n, hfile]

theorem unlink_flat (h : fs.Flat d) (n : N) :
    ∃ fs', fs.unlink (d ++ [n]) = (if fs.get (d ++ [n]) = none then -ENOENT else 0, fs') ∧ fs'.Flat d ∧
      OnlyAt (d ++ [n]) fs fs' ∧ fs'.get (d ++ [n]) = none := by
  have habove := above_of_dir h.dir n
  rcases h.name n with hnone | ⟨k, hfile, hk⟩
  · refine ⟨fs, ?_, h, OnlyAt.refl _ _, hnone⟩
    unfold unlink
    rw [habove, hnone]
    rfl
  · have hat : (fs.erase (d ++ [n])).get (d ++ [n]) = none := by rw [get_erase, if_pos rfl]
    refine ⟨_, ?_, h.only (erase_onlyAt _) fun x hx => ?_, erase_onlyAt _, hat⟩
    · unfold unlink
      rw [habove, hfile]
      rfl
    · rw [hat] at hx
      cases hx

theorem unlink_file (h : fs.Flat d) {k : Nat} (hfile : fs.get (d ++ [n]) = some (.file k)) :
    ∃ fs', fs.unlink (d ++ [n]) = (0, fs') ∧ fs'.Flat d ∧ OnlyAt (d ++ [n]) fs fs' ∧ fs'.get (d ++ [n]) = none := by
  obtain ⟨fs', hr, hflat, ho, hnone⟩ := unlink_flat h n
  rw [hfile] at hr
  exact ⟨fs', hr, hflat, ho, hnone⟩

theorem Flat.setData (h : fs.Flat d) (k : Nat) (bytes : List UInt8) : (fs.setData k bytes).Flat d :=
  ⟨h.dir, h.files⟩

theorem link_flat_none (h : fs.Flat d) (hnone : fs.get (d ++ [m]) = none) :
    fs.link (d ++ [m]) (d ++ [n]) = (-ENOENT, fs) := by
  unfold link
  rw [above_of_dir h.dir m, above_of_dir h.dir n, hnone]

theorem link_flat (h : fs.Flat d) {k : Nat} (hfile : fs.get (d ++ [m]) = some (.file k))
    (hnone : fs.get (d ++ [n]) = none) : ∃ fs', fs.link (d ++ [m]) (d ++ [n]) = (0, fs') ∧ fs'.Flat d ∧
      OnlyAt (d ++ [n]) fs fs' := by
  have hat : (fs.put (d ++ [n]) (.file k)).get (d ++ [n]) = some (.file k) := by rw [get_put, if_pos rfl]
  refine ⟨fs.put (d ++ [n]) (.file k), ?_, h.only (put_onlyAt _ _) fun x hx => ⟨k, ?_, ?_⟩, put_onlyAt _ _⟩
  · unfold link
    rw [above_of_dir h.dir m, above_of_dir h.dir n, hfile, hnone]
  · exact (Option.some.inj (hat.symm.trans hx)).symm
  · obtain ⟨-, l, hl, hlt⟩ := h.files m [] _ hfile
    cases hl
    exact hlt

/-- A file has been renamed to another name in its directory. -/
structure Renamed (d : List N) (m n : N) (fs fs' : Fs N) : Prop where
  flat : fs'.Flat d
  file : ∃ k, fs'.get (d ++ [n]) = some (.file k)
  get : ∀ r, ¬ d ++ [m] <+: r → ¬ d ++ [n] <+: r → fs'.get r = fs.get r
  refs : ∀ (i : Nat) r, fs.refs[i]? = some r → ¬ d ++ [m] <+: r → fs'.refs[i]? = some r
  length : fs'.refs.length = fs.refs.length

theorem move_flat (h : fs.Flat d) {k : Nat} (hfile : fs.get (d ++ [m]) = some (.file k))
    (hnone : fs.get (d ++ [n]) = none) : Renamed d m n fs (fs.move (d ++ [m]) (d ++ [n])) := by
  have hfree : ∀ t, fs.get (d ++ [n] ++ t) = none := by
    intro t
    by_cases ht : t = []
    · rw [ht, List.append_nil]
      exact hnone
    · exact h.below ht
  have hto : ∀ t, (fs.move (d ++ [m]) (d ++ [n])).get (d ++ [n] ++ t) = fs.get (d ++ [m] ++ t) := get_move_to hfree
  have hat : (fs.move (d ++ [m]) (d ++ [n])).get (d ++ [n]) = some (.file k) := by
    have := hto []
    rwa [List.append_nil, List.append_nil, hfile] at this
  have hpre : ∀ {a : N} {b : N} {t : List N}, d ++ [a] <+: d ++ b :: t ↔ a = b := by
    intro a b t
    rw [List.prefix_append_right_inj, List.cons_prefix_cons]
    simp
  refine ⟨⟨?_, ?_⟩, ⟨k, hat⟩, fun r => get_move_of_not, ?_, List.length_map _⟩
  · refine h.dir.congr fun q hq => get_move_of_not (fun hp => ?_) fun hp => ?_
    · exact absurd (hp.trans hq).length_le (by simp)
    · exact absurd (hp.trans hq).length_le (by simp)
  · intro a t x hget
    by_cases han : n = a
    · subst han
      have hto' := hto t
      rw [List.append_assoc, List.append_assoc, List.singleton_append, List.singleton_append] at hto'
      exact h.files m t x (hto'.symm.trans hget)
    · by_cases ham : m = a
      · rw [get_move_from (hpre.2 ham) fun hp => han (hpre.1 hp)] at hget
        cases hget
      · rw [get_move_of_not (fun hp => ham (hpre.1 hp)) fun hp => han (hpre.1 hp)] at hget
        exact h.files a t x hget
  · intro i r hr hp
    show (fs.refs.map _)[i]? = some r
    rw [List.getElem?_map, hr]
    exact congrArg some (moved_of_not _ hp)

theorem rename_flat (h : fs.Flat d) {k : Nat} (hfile : fs.get (d ++ [m]) = some (.file k)) :
    ∃ fs', fs.rename (d ++ [m]) (d ++ [n]) = (0, fs') ∧ Renamed d m n fs fs' := by
  unfold rename
  rw [above_of_dir h.dir m, above_of_dir h.dir n, hfile]
  dsimp only
  rcases h.name n with hnone | ⟨l, hl, -⟩
  · rw [hnone]
    exact ⟨_, rfl, move_flat h hfile hnone⟩
  · rw [hl]
    dsimp only
    split
    · exact ⟨fs, rfl, h, ⟨l, hl⟩, fun _ _ _ => rfl, fun _ _ hr _ => hr, rfl⟩
    · rename_i hkl
      have hne : m ≠ n := by
        rintro rfl
        rw [hfile] at hl
        cases hl
        exact hkl rfl
      have ho : OnlyAt (d ++ [n]) fs (fs.erase (d ++ [n])) := erase_onlyAt _
      have hat : (fs.erase (d ++ [n])).get (d ++ [n]) = none := by rw [get_erase, if_pos rfl]
      have hflat : (fs.erase (d ++ [n])).Flat d := h.only ho fun x hx => by rw [hat] at hx; cases hx
      have hsrc : (fs.erase (d ++ [n])).get (d ++ [m]) = some (.file k) := by
        rw [ho.get _ fun heq => hne (List.cons.inj (List.append_cancel_left heq)).1]
        exact hfile
      have hmove := move_flat hflat hsrc hat
      refine ⟨_, rfl, hmove.flat, hmove.file, fun r hm hn => (hmove.get r hm hn).trans (ho.get r ?_), hmove.refs,
        hmove.length⟩
      rintro rfl
      exact hn (List.prefix_refl _)

end Flat

/-! ## Renaming a directory -/

section RenameDir

variable {fs : Fs N} {d : List N} {m n : N}

/-- What was below the directory is below its new name. -/
theorem rename_dir (h : fs.Dir (d ++ [m])) (hne : m ≠ n) (hfree : ∀ t, fs.get (d ++ [n] ++ t) = none) :
    ∃ fs', fs.rename (d ++ [m]) (d ++ [n]) = (0, fs') ∧ (∀ t, fs'.get (d ++ [n] ++ t) = fs.get (d ++ [m] ++ t)) ∧
      (∀ t, fs'.get (d ++ [m] ++ t) = none) ∧ (∀ q, q <+: d → fs'.get q = fs.get q) ∧ fs'.next = fs.next := by
  have hd : fs.Dir d := fun q hq => h q (hq.trans (List.prefix_append d [m]))
  have hsrc : fs.get (d ++ [m]) = some .dir := h _ (List.prefix_refl _)
  have hdst : fs.get (d ++ [n]) = none := by
    have := hfree []
    rwa [List.append_nil] at this
  have hnot : ∀ {a b : N} {t : List N}, a ≠ b → ¬ d ++ [a] <+: d ++ [b] ++ t := by
    intro a b t hab hp
    rw [List.append_assoc, List.prefix_append_right_inj, List.singleton_append, List.cons_prefix_cons] at hp
    exact hab hp.1
  refine ⟨fs.move (d ++ [m]) (d ++ [n]), ?_, get_move_to hfree, fun t => ?_, fun q hq => ?_, rfl⟩
  · have hpath : d ++ [m] ≠ d ++ [n] := fun heq => hne (List.cons.inj (List.append_cancel_left heq)).1
    have hpre : ¬ d ++ [m] <+: d ++ [n] := by
      have := @hnot m n [] hne
      rwa [List.append_nil] at this
    unfold rename
    rw [above_of_dir hd m, above_of_dir hd n, hsrc]
    dsimp only
    rw [if_neg hpath, if_neg hpre, hdst]
  · exact get_move_from (List.prefix_append _ t) (hnot hne.symm)
  · refine get_move_of_not (fun hp => ?_) fun hp => ?_
    · exact absurd (hp.trans hq).length_le (by simp)
    · exact absurd (hp.trans hq).length_le (by simp)

/-- A directory of files below a directory that was renamed. -/
theorem Flat.of_rename {fs' : Fs N} {u : List N} (h : fs.Flat (d ++ [m] ++ u))
    (hto : ∀ t, fs'.get (d ++ [n] ++ t) = fs.get (d ++ [m] ++ t)) (hup : ∀ q, q <+: d → fs'.get q = fs.get q)
    (hnext : fs'.next = fs.next) : fs'.Flat (d ++ [n] ++ u) := by
  refine ⟨fun q hq => ?_, fun a t x hx => ?_⟩
  · rcases List.prefix_or_prefix_of_prefix hq (List.prefix_append (d ++ [n]) u) with hq' | ⟨t, rfl⟩
    · rcases List.prefix_concat_iff.1 hq' with rfl | hq'
      · have := hto []
        rw [List.append_nil, List.append_nil] at this
        exact this.trans (h.dir _ (List.prefix_append _ u))
      · rw [hup q hq']
        exact h.dir q (hq'.trans ((List.prefix_append d [m]).trans (List.prefix_append _ u)))
    · rw [hto t]
      exact h.dir _ ((List.prefix_append_right_inj _).2 ((List.prefix_append_right_inj _).1 hq))
  · rw [List.append_assoc, hto, ← List.append_assoc] at hx
    rw [hnext]
    exact h.files a t x hx

theorem lookup_of_get (h : fs.Dir d) {x : Node} (hx : fs.get (d ++ [n]) = some x) :
    fs.lookup (d ++ [n]) = (0, fs.refs.length, { fs with refs := fs.refs ++ [d ++ [n]] }) := by
  unfold lookup
  rw [above_of_dir h n, hx]

end RenameDir

/-! ## Data -/

section Data

theorem patch_end (bytes new : List UInt8) : patch bytes bytes.length new = bytes ++ new := by
  unfold patch
  rw [Nat.sub_self, List.replicate_zero, List.append_nil, List.take_length, List.drop_eq_nil_of_le (by omega),
    List.append_nil]

theorem patch_last (bytes : List UInt8) (b c : UInt8) : patch (bytes ++ [b]) bytes.length [c] = bytes ++ [c] := by
  unfold patch
  have hzero : bytes.length - (bytes ++ [b]).length = 0 := by simp
  rw [hzero, List.replicate_zero, List.append_nil, List.take_left, List.drop_eq_nil_of_le (by simp), List.append_nil]

omit [DecidableEq N]

variable {fs : Fs N} {k off len : Nat} {addr : Int}

theorem write_end (hk : k < fs.next) {bytes : List UInt8} (hoff : (fs.data k).length = off) (new : List UInt8)
    (hdata : fs.data k ++ new = bytes) : fs.write k off new = ((new.length : Int), fs.setData k bytes) := by
  subst hoff hdata
  unfold write
  rw [if_pos hk, patch_end]

/-- The file gets one byte longer. -/
theorem fallocate_end (hk : k < fs.next) (hoff : (fs.data k).length = off) :
    fs.fallocate k off 1 = (0, fs.setData k (fs.data k ++ [0])) := by
  subst hoff
  unfold fallocate
  rw [if_pos hk, if_neg Nat.one_ne_zero, Nat.add_sub_cancel_left, List.replicate_one]

theorem mmap_mapped (hk : k < fs.next) :
    ∃ addr : Nat, fs.mmap k = ((addr : Int), { fs with maps := fs.maps ++ [some k] }) ∧ addr ≠ 0 ∧
      mapped { fs with maps := fs.maps ++ [some k] } addr = some k := by
  refine ⟨fs.maps.length + 1, ?_, Nat.succ_ne_zero _, ?_⟩
  · unfold mmap
    rw [if_pos hk]
    rfl
  · unfold mapped
    rw [if_pos (by omega), Int.toNat_natCast, Nat.add_sub_cancel]
    simp

theorem munmap_mapped (h : fs.mapped addr = some k) :
    fs.munmap addr = (0, { fs with maps := fs.maps.set (addr.toNat - 1) none }) := by
  unfold munmap
  rw [h]

/-- A store to the last byte. -/
theorem store_last (h : fs.mapped addr = some k) {bytes : List UInt8} {b : UInt8} (hdata : fs.data k = bytes ++ [b])
    (hoff : bytes.length = off) (c : UInt8) : fs.store addr off [c] = (0, fs.setData k (bytes ++ [c])) := by
  subst hoff
  have hlen : (fs.data k).length = bytes.length + 1 := by rw [hdata, List.length_append, List.length_singleton]
  have hpage : bytes.length + [c].length ≤ fs.pageEnd k := by
    rw [pageEnd, hlen, List.length_singleton]
    omega
  unfold store
  rw [h]
  dsimp only
  rw [if_pos hpage, hlen, hdata, patch_last, List.take_of_length_le (by simp)]

theorem load_within (h : fs.mapped addr = some k) (hle : off + len ≤ (fs.data k).length) :
    fs.load addr off len = (0, fs.read k off len) := by
  have hpage : off + len ≤ fs.pageEnd k := by
    rw [pageEnd]
    omega
  have hlen : (fs.read k off len).length = len := by
    rw [read, List.length_take, List.length_drop]
    omega
  unfold load
  rw [h]
  dsimp only
  rw [if_pos hpage, hlen, Nat.sub_self, List.replicate_zero, List.append_nil]

theorem read_replicate {n : Nat} {b : UInt8} (hdata : fs.data k = List.replicate n b) (hle : off + len ≤ n) :
    fs.read k off len = List.replicate len b := by
  rw [read, hdata, List.drop_replicate, List.take_replicate, Nat.min_eq_left (by omega)]

end Data

end Fs

end Posix
