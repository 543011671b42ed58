import NfsPlayground.Generic.G001
import Mathlib.Data.List.Nodup

/-!
# generic/001: the names and what is in them

A name is an entry of the table and a link, and the paths of two names differ (`path_inj`). `Files S fs` says that below
the root of the test there are the files of the names to which `S` gives a content, with that content, and no others; on
such a file system the calls by path change `S` as a map is changed.
-/

namespace NfsPlayground.Generic.G001

open Lines Posix
open Races (Path XFS_MNT decimal decimal_inj)

/-! ## Names -/

theorem config_rel : ∀ e ∈ gen001_config, (e.rel.dropLast = [] ∨ e.rel.dropLast = [sub]) ∧ '.' ∉ e.rel.getLastD [] ∧
    e.rel ≠ [] ∧ e.rel ≠ [sub] := by decide

theorem config_nodup : (gen001_config.map Entry.rel).Nodup := by decide +kernel

theorem entry_eq {x : Nat} (hx : x < GEN001_NFILES) : entry x = gen001_config.get ⟨x, hx⟩ := by
  rw [entry, List.getD_eq_getElem?_getD, List.getElem?_eq_getElem hx]
  rfl

theorem entry_mem {x : Nat} (hx : x < GEN001_NFILES) : entry x ∈ gen001_config := by
  rw [entry_eq hx]
  exact List.get_mem ..

theorem entry_rel_inj {x y : Nat} (hx : x < GEN001_NFILES) (hy : y < GEN001_NFILES)
    (h : (entry x).rel = (entry y).rel) : x = y := by
  rw [entry_eq hx, entry_eq hy] at h
  have hinj := List.inj_on_of_nodup_map config_nodup (List.get_mem ..) (List.get_mem ..) h
  have hnodup : gen001_config.Nodup := config_nodup.of_map
  exact Fin.mk.inj (List.nodup_iff_injective_get.1 hnodup hinj)

theorem not_digit_of_decimal {c : Char} {n : Nat} (h : c.isDigit = false) : c ∉ decimal n := by
  intro hc
  rw [Nat.isDigit_of_mem_toDigits (by decide) (by decide) hc] at h
  cases h

theorem suffix_last : suffix (-2) = ['.', 'l', 'a', 's', 't'] := rfl

theorem suffix_num (j : Nat) : suffix j = '.' :: decimal j := by
  unfold suffix
  rw [if_neg (by omega), if_neg (by omega), Int.toNat_natCast]

/-- The links there are. -/
theorem link_cases {l : Int} (h : -2 ≤ l) : l = -1 ∨ l = -2 ∨ ∃ j : Nat, l = j := by
  by_cases h1 : l = -1
  · exact Or.inl h1
  by_cases h2 : l = -2
  · exact Or.inr (Or.inl h2)
  · exact Or.inr (Or.inr ⟨l.toNat, by omega⟩)

theorem suffix_inj {l l' : Int} (hl : -2 ≤ l) (hl' : -2 ≤ l') (h : suffix l = suffix l') : l = l' := by
  have hnum : ∀ j : Nat, suffix j ≠ suffix (-1) ∧ suffix j ≠ suffix (-2) := by
    intro j
    rw [suffix_num, suffix_last]
    refine ⟨List.cons_ne_nil _ _, fun heq => ?_⟩
    refine not_digit_of_decimal (c := 'l') (n := j) rfl ?_
    rw [(List.cons.inj heq).2]
    exact List.mem_cons_self
  rcases link_cases hl with rfl | rfl | ⟨j, rfl⟩ <;> rcases link_cases hl' with rfl | rfl | ⟨k, rfl⟩
  · rfl
  · cases h
  · exact absurd h.symm (hnum k).1
  · cases h
  · rfl
  · exact absurd h.symm (hnum k).2
  · exact absurd h (hnum j).1
  · exact absurd h (hnum j).2
  · rw [suffix_num, suffix_num] at h
    rw [decimal_inj (List.cons.inj h).2]

/-- The name in front of the suffix. -/
def stem (t : Text) : Text := t.takeWhile (· ≠ '.')

theorem stem_append {n : Text} (h : '.' ∉ n) (l : Int) : stem (n ++ suffix l) = n := by
  have hn : ∀ c ∈ n, decide (c ≠ '.') = true := by
    intro c hc
    exact decide_eq_true fun heq => h (heq ▸ hc)
  have hs : (suffix l).takeWhile (· ≠ '.') = [] := by
    unfold suffix
    split
    · rfl
    · split <;> exact List.takeWhile_cons_of_neg (by decide)
  rw [stem, List.takeWhile_append_of_pos hn, hs, List.append_nil]

/-- The path of a name. -/
def path (x : Nat) (l : Int) : Path := gen001_path (entry x).rel l

/-- The directory of an entry. -/
def dirOf (x : Nat) : Path := GEN001_ROOT ++ (entry x).rel.dropLast

def fileName (x : Nat) (l : Int) : Text := (entry x).rel.getLastD [] ++ suffix l

theorem path_eq (x : Nat) (l : Int) : path x l = dirOf x ++ [fileName x l] := rfl

theorem rel_eq {x : Nat} (hx : x < GEN001_NFILES) :
    (entry x).rel.dropLast ++ [(entry x).rel.getLastD []] = (entry x).rel := by
  have hne := (config_rel _ (entry_mem hx)).2.2.1
  rw [List.getLastD_eq_getLast?, List.getLast?_eq_some_getLast hne]
  exact List.dropLast_append_getLast hne

theorem stem_fileName {x : Nat} (hx : x < GEN001_NFILES) (l : Int) :
    stem (fileName x l) = (entry x).rel.getLastD [] :=
  stem_append (config_rel _ (entry_mem hx)).2.1 l

theorem path_inj {x y : Nat} {l l' : Int} (hx : x < GEN001_NFILES) (hy : y < GEN001_NFILES) (hl : -2 ≤ l)
    (hl' : -2 ≤ l') (h : path x l = path y l') : x = y ∧ l = l' := by
  rw [path_eq, path_eq] at h
  obtain ⟨hdir, hname⟩ := List.append_inj' h rfl
  have hdir : (entry x).rel.dropLast = (entry y).rel.dropLast := List.append_cancel_left hdir
  have hname : fileName x l = fileName y l' := (List.cons.inj hname).1
  have hlast : (entry x).rel.getLastD [] = (entry y).rel.getLastD [] := by
    rw [← stem_fileName hx l, hname, stem_fileName hy]
  have hrel : (entry x).rel = (entry y).rel := by rw [← rel_eq hx, ← rel_eq hy, hdir, hlast]
  refine ⟨entry_rel_inj hx hy hrel, suffix_inj hl hl' ?_⟩
  unfold fileName at hname
  rw [hlast] at hname
  exact List.append_cancel_left hname

theorem path_ne {x y : Nat} {l l' : Int} (hx : x < GEN001_NFILES) (hy : y < GEN001_NFILES) (hl : -2 ≤ l)
    (hl' : -2 ≤ l') (h : ¬ (x = y ∧ l = l')) : path x l ≠ path y l' := fun heq => h (path_inj hx hy hl hl' heq)

theorem dirOf_cases {x : Nat} (hx : x < GEN001_NFILES) : dirOf x = GEN001_ROOT ∨ dirOf x = GEN001_SUB := by
  rcases (config_rel _ (entry_mem hx)).1 with h | h
  · exact Or.inl (by rw [dirOf, h, List.append_nil])
  · exact Or.inr (by rw [dirOf, h]; rfl)

theorem root_path {x : Nat} (l : Int) : GEN001_ROOT <+: path x l := by
  rw [path_eq, dirOf, List.append_assoc]
  exact List.prefix_append ..

/-- No name is one of the directories. -/
theorem path_ne_dir {x : Nat} (hx : x < GEN001_NFILES) (l : Int) : path x l ≠ GEN001_ROOT ∧ path x l ≠ GEN001_SUB := by
  have hlen : (path x l).length = (dirOf x).length + 1 := by rw [path_eq, List.length_append, List.length_singleton]
  rcases dirOf_cases hx with h | h
  · rw [h] at hlen
    refine ⟨fun heq => by rw [heq] at hlen; omega, fun heq => ?_⟩
    rw [path_eq, h] at heq
    have hname : fileName x l = sub := (List.cons.inj (List.append_cancel_left heq)).1
    have hlast := stem_fileName hx l
    rw [hname] at hlast
    have hdrop : (entry x).rel.dropLast = [] := by
      have := h
      rw [dirOf] at this
      exact List.append_right_eq_self.1 this
    refine (config_rel _ (entry_mem hx)).2.2.2 ?_
    rw [← rel_eq hx, hdrop, ← hlast]
    decide
  · rw [h] at hlen
    have hsub : GEN001_SUB.length = GEN001_ROOT.length + 1 := rfl
    refine ⟨fun heq => ?_, fun heq => ?_⟩
    · rw [heq] at hlen
      omega
    · rw [heq] at hlen
      omega

/-- The path as the text that is put into the buffer. -/
def text (p : Path) : Text := p.flatMap fun n => '/' :: n

theorem config_length : ∀ e ∈ gen001_config,
    (text (GEN001_ROOT ++ e.rel.dropLast)).length + 1 + (e.rel.getLastD []).length ≤ 64 := by decide

/-- The buffer of 160 bytes has room for each name with an `int` that is a number of a link. -/
theorem gen001_path_fits {x : Nat} {l : Int} (hx : x < GEN001_NFILES) (hl : l < 2 ^ 31) :
    (text (path x l)).length < 160 := by
  have hsuffix : (suffix l).length ≤ 11 := by
    unfold suffix
    split
    · exact Nat.zero_le _
    · split
      · decide
      · have hdigits : (decimal l.toNat).length ≤ 10 :=
          (Nat.length_toDigits_le_iff (by decide) (by decide)).2 (by omega)
        rw [List.length_cons]
        omega
  have hconfig := config_length _ (entry_mem hx)
  rw [path_eq, text, List.flatMap_append, List.length_append]
  have hname : ([fileName x l].flatMap fun n => '/' :: n).length =
      1 + ((entry x).rel.getLastD []).length + (suffix l).length := by
    rw [List.flatMap_cons, List.flatMap_nil, List.append_nil, List.length_cons, fileName, List.length_append]
    omega
  rw [hname]
  unfold text at hconfig
  unfold dirOf
  omega

/-! ## The files of the test -/

/-- The directories are there, and no others below the root of the test. -/
structure Stage (fs : Fs Text) : Prop where
  tidy : fs.Tidy
  root : fs.get GEN001_ROOT = some .dir
  sub : fs.get GEN001_SUB = some .dir
  only : ∀ p, GEN001_ROOT <+: p → fs.get p = some .dir → p = GEN001_ROOT ∨ p = GEN001_SUB

/-- A content for some names. -/
abbrev Contents : Type := Nat → Int → Option (List UInt8)

structure Files (S : Contents) (fs : Fs Text) : Prop where
  stage : Stage fs
  content : ∀ x l, x < GEN001_NFILES → -2 ≤ l → fs.content (path x l) = S x l
  named : ∀ p, GEN001_ROOT <+: p → fs.content p ≠ none → ∃ x l, x < GEN001_NFILES ∧ -2 ≤ l ∧ p = path x l

/-- The contents with another one for the name. -/
def Contents.set (S : Contents) (x : Nat) (l : Int) (b : Option (List UInt8)) : Contents :=
  fun y m => if y = x ∧ m = l then b else S y m

variable {S : Contents} {fs fs' : Fs Text} {x : Nat} {l l' : Int} {b : List UInt8} {k : Nat}

theorem Stage.becomes {c : Path → Option (List UInt8)} (h : Stage fs) (hb : Fs.Becomes fs fs' c) : Stage fs' where
  tidy := hb.tidy
  root := (hb.dirs _).2 h.root
  sub := (hb.dirs _).2 h.sub
  only p hp hdir := h.only p hp ((hb.dirs p).1 hdir)

theorem Stage.dirOf (h : Stage fs) (hx : x < GEN001_NFILES) : fs.get (dirOf x) = some .dir := by
  rcases dirOf_cases hx with heq | heq
  · rw [heq]
    exact h.root
  · rw [heq]
    exact h.sub

theorem Stage.not_dir (h : Stage fs) (hx : x < GEN001_NFILES) (l : Int) : fs.get (path x l) ≠ some .dir := fun hdir =>
  (h.only _ (root_path l) hdir).elim (path_ne_dir hx l).1 (path_ne_dir hx l).2

theorem Stage.get_none (h : Stage fs) (hx : x < GEN001_NFILES) (hnone : fs.content (path x l) = none) :
    fs.get (path x l) = none := by
  cases hget : fs.get (path x l) with
  | none => rfl
  | some node =>
    cases node with
    | dir => exact absurd hget (h.not_dir hx l)
    | file k => exact absurd hget (Fs.content_eq_none.1 hnone k)

theorem Files.update (h : Files S fs) (hx : x < GEN001_NFILES) (hl : -2 ≤ l) {v : Option (List UInt8)}
    (hb : Fs.Becomes fs fs' (Function.update fs.content (path x l) v)) : Files (S.set x l v) fs' := by
  refine ⟨h.stage.becomes hb, fun y m hy hm => ?_, fun p hp hne => ?_⟩
  · rw [hb.content, Contents.set]
    split
    · rename_i heq
      rw [heq.1, heq.2, Function.update_self]
    · rename_i hne
      rw [Function.update_of_ne (path_ne hy hx hm hl hne)]
      exact h.content y m hy hm
  · by_cases hpath : p = path x l
    · exact ⟨x, l, hx, hl, hpath⟩
    · rw [hb.content, Function.update_of_ne hpath] at hne
      exact h.named p hp hne

/-- The file of a name. -/
theorem Files.get (h : Files S fs) (hx : x < GEN001_NFILES) (hl : -2 ≤ l) (hb : S x l = some b) :
    ∃ k, fs.get (path x l) = some (.file k) ∧ fs.data k = b :=
  Fs.get_of_content ((h.content x l hx hl).trans hb)

theorem Files.none (h : Files S fs) (hx : x < GEN001_NFILES) (hl : -2 ≤ l) (hnone : S x l = none) :
    fs.get (path x l) = none :=
  h.stage.get_none hx ((h.content x l hx hl).trans hnone)

theorem Files.openFile (h : Files S fs) (hx : x < GEN001_NFILES) (hget : fs.get (path x l) = some (.file k)) :
    fs.openFile (path x l) = k := Fs.openFile_content h.stage.tidy (h.stage.dirOf hx) hget

theorem Files.resolves (h : Files S fs) (hx : x < GEN001_NFILES) (hl : -2 ≤ l) :
    fs.resolves (path x l) = (S x l).isSome := by
  have habove : fs.above (path x l) = Option.none := Fs.above_of_dir (h.stage.tidy.dir (h.stage.dirOf hx)) _
  unfold Fs.resolves
  rw [habove, Option.isNone_none, Bool.true_and]
  cases hs : S x l with
  | none =>
    rw [h.none hx hl hs]
    rfl
  | some b =>
    obtain ⟨k, hget, -⟩ := h.get hx hl hs
    rw [hget]
    rfl

theorem Files.unlink (h : Files S fs) (hx : x < GEN001_NFILES) (hl : -2 ≤ l) (hs : S x l ≠ Option.none) :
    ∃ fs', fs.unlink (path x l) = (0, fs') ∧ Files (S.set x l Option.none) fs' := by
  obtain ⟨b, hb⟩ := Option.ne_none_iff_exists'.1 hs
  obtain ⟨k, hget, -⟩ := h.get hx hl hb
  obtain ⟨fs', hr, hbecomes⟩ := Fs.unlink_content h.stage.tidy (h.stage.dirOf hx) hget
  exact ⟨fs', hr, h.update hx hl hbecomes⟩

theorem Files.unlink_none (h : Files S fs) (hx : x < GEN001_NFILES) (hl : -2 ≤ l) (hs : S x l = Option.none) :
    fs.unlink (path x l) = (-ENOENT, fs) :=
  Fs.unlink_none h.stage.tidy (h.stage.dirOf hx) (h.none hx hl hs)

theorem Files.rename (h : Files S fs) (hx : x < GEN001_NFILES) (hl : -2 ≤ l) (hl' : -2 ≤ l') (hne : l ≠ l')
    (hb : S x l = some b) : ∃ fs', fs.rename (path x l) (path x l') = (0, fs') ∧
      Files ((S.set x l' (some b)).set x l Option.none) fs' := by
  obtain ⟨k, hget, rfl⟩ := h.get hx hl hb
  obtain ⟨fs', hr, hbecomes⟩ := Fs.rename_content h.stage.tidy (h.stage.dirOf hx) (h.stage.dirOf hx) hget
    (h.stage.not_dir hx l') (path_ne hx hx hl hl' fun heq => hne heq.2)
  refine ⟨fs', hr, h.stage.becomes hbecomes, fun y m hy hm => ?_, fun p hp hp' => ?_⟩
  · rw [hbecomes.content, Contents.set, Contents.set]
    by_cases h1 : y = x ∧ m = l
    · rw [if_pos h1, h1.1, h1.2]
      exact Function.update_self ..
    · rw [if_neg h1]
      refine (Function.update_of_ne (path_ne hy hx hm hl h1) ..).trans ?_
      split
      · rename_i h2
        rw [h2.1, h2.2]
        exact Function.update_self ..
      · rename_i h2
        exact (Function.update_of_ne (path_ne hy hx hm hl' h2) ..).trans (h.content y m hy hm)
  · rw [hbecomes.content] at hp'
    by_cases h1 : p = path x l
    · exact ⟨x, l, hx, hl, h1⟩
    by_cases h2 : p = path x l'
    · exact ⟨x, l', hx, hl', h2⟩
    · refine h.named p hp fun hnone => hp' ?_
      exact (Function.update_of_ne h1 ..).trans ((Function.update_of_ne h2 ..).trans hnone)

/-- A new file, as an open that creates it makes it. -/
theorem Files.create (h : Files S fs) (hx : x < GEN001_NFILES) (hl : -2 ≤ l) (hs : S x l = Option.none) :
    ∃ fs' : Fs Text, fs.create (path x l) = ((fs.next : Int), fs') ∧ fs.openExcl (path x l) = ((fs.next : Int), fs') ∧
      fs'.get (path x l) = some (.file fs.next) ∧ fs'.data = Function.update fs.data fs.next [] ∧
      Fs.Becomes fs fs' (Function.update fs.content (path x l) (some [])) := by
  have hnone := h.none hx hl hs
  obtain ⟨fs', hr, hget, hdata, hb⟩ := Fs.create_new h.stage.tidy (h.stage.dirOf hx) hnone
  exact ⟨fs', hr, (Fs.openExcl_new h.stage.tidy (h.stage.dirOf hx) hnone).trans hr, hget, hdata, hb⟩

end NfsPlayground.Generic.G001
