import NfsPlayground.Lib.PosixFiles
import Mathlib.Data.List.Dedup

/-!
# A POSIX file system as a map from paths to what is there

At a path is a directory, the bytes of a file, or nothing. What the calls that build a tree do is said by one update of
this map.
-/

namespace Posix

variable {N : Type} [DecidableEq N]

inductive Item
  | dir
  | file (bytes : List UInt8)
  deriving DecidableEq

namespace Fs

variable {fs fs' : Fs N} {p d : List N} {n : N}

/-- What is at a path. -/
def view (fs : Fs N) (p : List N) : Option Item :=
  match fs.get p with
  | some .dir => some .dir
  | some (.file k) => some (.file (fs.data k))
  | none => none

theorem view_dir : fs.view p = some .dir ↔ fs.get p = some .dir := by
  unfold view
  split <;> simp_all

theorem view_none : fs.view p = none ↔ fs.get p = none := by
  unfold view
  split <;> simp_all

theorem view_of_get {k : Nat} (h : fs.get p = some (.file k)) : fs.view p = some (.file (fs.data k)) := by
  unfold view
  rw [h]

theorem get_of_view {b : List UInt8} (h : fs.view p = some (.file b)) :
    ∃ k, fs.get p = some (.file k) ∧ fs.data k = b := by
  unfold view at h
  split at h
  · cases h
  · rename_i k hk
    exact ⟨k, hk, Item.file.inj (Option.some.inj h)⟩
  · cases h

/-- The map says what the tree of directories and the contents of the files say. -/
theorem view_congr (hdir : fs'.get p = some .dir ↔ fs.get p = some .dir) (hfile : fs'.content p = fs.content p) :
    fs'.view p = fs.view p := by
  unfold content at hfile
  unfold view
  rcases hget : fs.get p with _ | ⟨_ | k⟩ <;> rcases hget' : fs'.get p with _ | ⟨_ | k'⟩ <;>
    simp_all

theorem mkdir_view (h : fs.Tidy) (hd : fs.view d = some .dir) (hnone : fs.view (d ++ [n]) = none) :
    ∃ fs', fs.mkdir (d ++ [n]) = (0, fs') ∧ fs'.Tidy ∧
      ∀ q, fs'.view q = if q = d ++ [n] then some .dir else fs.view q := by
  obtain ⟨fs', hr, htidy, hcontent, hget⟩ := mkdir_tidy h (view_dir.1 hd) (view_none.1 hnone)
  refine ⟨fs', hr, htidy, fun q => ?_⟩
  split
  · rename_i hq
    exact view_dir.2 ((hget q).trans (if_pos hq))
  · rename_i hq
    exact view_congr (by rw [hget, if_neg hq]) (hcontent q)

/-- A new file that is created and written. -/
theorem create_write_view (h : fs.Tidy) (hd : fs.view d = some .dir) (hnone : fs.view (d ++ [n]) = none)
    (bytes : List UInt8) : ∃ (k : Nat) (fs' fs'' : Fs N), fs.create (d ++ [n]) = ((k : Int), fs') ∧
      fs'.write k 0 bytes = ((bytes.length : Int), fs'') ∧ fs''.Tidy ∧
      ∀ q, fs''.view q = if q = d ++ [n] then some (.file bytes) else fs.view q := by
  obtain ⟨fs', hr, hget, hdata, hb⟩ := create_new h (view_dir.1 hd) (view_none.1 hnone)
  have hempty : fs'.data fs.next = [] := by rw [hdata, Function.update_self]
  have hset := setData_content hb.tidy hget bytes
  refine ⟨fs.next, fs', fs'.setData fs.next bytes, hr, ?_, hset.tidy, fun q => ?_⟩
  · unfold write
    rw [if_pos (hb.tidy.lt hget), hempty]
    simp [patch]
  · split
    · rename_i hq
      subst hq
      have hget' : (fs'.setData fs.next bytes).get (d ++ [n]) = some (.file fs.next) := hget
      rw [view_of_get hget']
      exact congrArg (some ∘ Item.file) (Function.update_self ..)
    · rename_i hq
      refine view_congr ((hset.dirs q).trans (hb.dirs q)) ?_
      rw [hset.content, Function.update_of_ne hq, hb.content, Function.update_of_ne hq]

/-! ## What is in a directory -/

theorem mem_of_get {x : Node} (h : fs.get p = some x) : (p, x) ∈ fs.nodes := by
  obtain ⟨l₁, l₂, heq, -⟩ := List.lookup_eq_some_iff.1 h
  rw [heq]
  exact List.mem_append_right l₁ List.mem_cons_self

theorem get_ne_none : fs.get p ≠ none ↔ ∃ x, (p, x) ∈ fs.nodes := by
  constructor
  · intro h
    obtain ⟨x, hx⟩ := Option.ne_none_iff_exists'.1 h
    exact ⟨x, mem_of_get hx⟩
  · rintro ⟨x, hx⟩ hnone
    exact absurd (List.lookup_eq_none_iff.1 hnone _ hx) (by simp)

/-- The names in a directory. -/
def listing (fs : Fs N) (p : List N) : List N :=
  (fs.nodes.filterMap fun e => if e.1.dropLast = p then e.1.getLast? else none).dedup

theorem mem_listing : n ∈ fs.listing p ↔ fs.get (p ++ [n]) ≠ none := by
  unfold listing
  rw [List.mem_dedup, List.mem_filterMap, get_ne_none]
  constructor
  · rintro ⟨⟨q, x⟩, hmem, hq⟩
    split at hq
    · rename_i hp
      refine ⟨x, ?_⟩
      rwa [← hp, List.dropLast_append_getLast? n hq]
    · cases hq
  · rintro ⟨x, hmem⟩
    refine ⟨_, hmem, ?_⟩
    rw [if_pos List.dropLast_concat, List.getLast?_concat]

/-- What is there is in a directory. -/
def Up (fs : Fs N) : Prop := ∀ {p n x}, fs.get (p ++ [n]) = some x → fs.get p = some .dir

theorem Tidy.toUp (h : fs.Tidy) : fs.Up := h.up

/-- The directories above a directory are there. -/
theorem Up.dir (h : fs.Up) (hd : fs.get d = some .dir) : fs.Dir d := by
  induction d using List.reverseRecOn with
  | nil =>
    intro q hq
    rwa [List.prefix_nil.1 hq]
  | append_singleton d n ih => exact (ih (h hd)).snoc hd

theorem Up.below (h : fs.Up) (hnone : fs.get p = none) (t : List N) : fs.get (p ++ t) = none := by
  induction t using List.reverseRecOn with
  | nil => rwa [List.append_nil]
  | append_singleton t n ih =>
    cases hget : fs.get (p ++ (t ++ [n])) with
    | none => rfl
    | some x =>
      rw [← List.append_assoc] at hget
      rw [h hget] at ih
      cases ih

theorem above_pos {e : Int} (h : fs.above p = some e) : 0 < e := by
  unfold above at h
  obtain ⟨q, -, hq⟩ := List.exists_of_findSome?_eq_some h
  split at hq
  · cases hq
  · rw [← Option.some.inj hq]
    decide
  · rw [← Option.some.inj hq]
    decide

/-- Only a file is opened. -/
theorem openFile_neg (h : ∀ k, fs.get p ≠ some (.file k)) : fs.openFile p < 0 := by
  unfold openFile
  cases habove : fs.above p with
  | some e => exact Int.neg_neg_of_pos (above_pos habove)
  | none =>
    cases hget : fs.get p with
    | none => decide
    | some x =>
      cases x with
      | dir => decide
      | file k => exact absurd hget (h k)

end Fs

end Posix
