import NfsPlayground.Generic.G001Names
import NfsPlayground.Lib.Ends

/-!
# generic/001: what a chain leaves

`Shape old lo hi` are the contents with the originals, a `.last` for the entries of `old` and the numbers from `lo` up
to `hi`. A copy moves `hi` up by one; the closing of a chain takes the last number for the `.last` and moves `lo` up to
`hi`. `chain_ends` says where an iteration ends, or what it is left with at its fault.
-/

namespace NfsPlayground.Generic.G001

open Lines Posix
open Races (Path XFS_MNT decimal)

variable {R : Type} (g : Prandom R)

/-! ## The stream of an entry -/

theorem length_fillFrom : ∀ (left i : Nat) (r : UInt32) (st : R), (fillFrom g left i r st).1.length = left
  | 0, _, _, _ => rfl
  | left + 1, i, r, st => by
    rw [fillFrom, List.length_cons, length_fillFrom left]

theorem length_fill (st : R) (len : Nat) : (gen001_fill_chunk g st len).1.length = len := length_fillFrom ..

/-- What is generated chunk by chunk. -/
def streamFrom (st : R) (left : Nat) : List UInt8 :=
  if left = 0 then []
  else
    let n := min left GEN001_CHUNK
    (gen001_fill_chunk g st n).1 ++ streamFrom (gen001_fill_chunk g st n).2 (left - n)
termination_by left
decreasing_by
  simp only [GEN001_CHUNK]
  omega

/-- What is generated from the name of an entry. -/
def stream (x : Nat) : List UInt8 := streamFrom g (gen001_seed_for g (entry x).rel) (entry x).bytes

/-! ## Copies -/

/-- The fault is in the `i`-th copy. -/
def Site.InCopy (i : Nat) : Site → Prop
  | .kmalloc j | .openSrc j | .openDst j | .read j _ | .write j _ _ => j = i
  | _ => False

theorem delivered_cases (fault : Option Site) (i c : Nat) (got : List UInt8) :
    delivered fault i c got = got ∨ ∃ n, fault = some (.write i c n) ∧ delivered fault i c got = got.take n := by
  unfold delivered
  split
  · split
    · rename_i j d n h
      rw [h.1, h.2]
      exact Or.inr ⟨n, rfl, rfl⟩
    · exact Or.inl rfl
  · exact Or.inl rfl

section Copy

variable {fault : Option Site} {i src dst : Nat} {b : List UInt8} {p : Path}

/-- Nothing but the file system has changed. -/
def Same (w w' : World) : Prop := w'.link = w.link ∧ w'.failed = w.failed

variable (fault i src p) in
/-- The loop ends with all of the source in the file at `p`, or is left with something in it. -/
theorem copyLoop_ends : ∀ (fuel c pos : Nat) (w : World), w.fs.Tidy → w.fs.get p = some (.file dst) → src ≠ dst →
    w.fs.data src = b → w.fs.data dst = b.take pos → pos ≤ b.length → b.length - pos < fuel →
    Ends (fun w' => Same w w' ∧ Fs.Becomes w.fs w'.fs (Function.update w.fs.content p (some b)))
      (fun e => ∃ w' s v, e = .assertion w' ∧ Same w w' ∧ fault = some s ∧ s.InCopy i ∧
        Fs.Becomes w.fs w'.fs (Function.update w.fs.content p (some v)))
      (copyLoop fault i src dst fuel c pos pos w)
  | 0, _, _, _, _, _, _, _, _, _, hfuel => absurd hfuel (Nat.not_lt_zero _)
  | fuel + 1, c, pos, w, htidy, hget, hne, hsrc, hdst, hpos, hfuel => by
    have hthere : w.fs.content p = some (b.take pos) := (Fs.content_of_get hget).trans (congrArg some hdst)
    have hhere : Fs.Becomes w.fs w.fs (Function.update w.fs.content p (some (b.take pos))) := by
      rw [← hthere, Function.update_eq_self]
      exact Fs.Becomes.refl htidy
    unfold copyLoop
    split
    · rename_i hfault
      exact ⟨w, _, _, rfl, ⟨rfl, rfl⟩, hfault, rfl, hhere⟩
    obtain ⟨got, hgot⟩ : ∃ got, got = w.fs.read src pos GEN001_CHUNK := ⟨_, rfl⟩
    have hread : got = (b.drop pos).take GEN001_CHUNK := by rw [hgot, Fs.read, hsrc]
    have hlen : got.length = min GEN001_CHUNK (b.length - pos) := by rw [hread, List.length_take, List.length_drop]
    rw [← hgot]
    dsimp only
    split
    · rename_i hzero
      have hend : b.take pos = b := List.take_of_length_le (by rw [hlen, GEN001_CHUNK] at hzero; omega)
      rw [hend] at hhere
      exact ⟨⟨rfl, rfl⟩, hhere⟩
    rename_i hnonzero
    have hoff : (w.fs.data dst).length = pos := by rw [hdst, List.length_take, Nat.min_eq_left hpos]
    have hwrite := fun new => Fs.write_end (htidy.lt hget) hoff new (by rw [hdst] : _ = b.take pos ++ new)
    have hbecomes := fun new => Fs.setData_content htidy hget (b.take pos ++ new)
    rw [hwrite]
    dsimp only
    have hcases := delivered_cases fault i c got
    split
    · rename_i hshort
      obtain ⟨n, hfault, -⟩ := hcases.resolve_left fun heq => hshort (congrArg (fun l => ((l.length : Nat) : Int)) heq)
      exact ⟨_, _, _, rfl, ⟨rfl, rfl⟩, hfault, rfl, hbecomes _⟩
    rename_i hfull
    have hall : delivered fault i c got = got := by
      rcases hcases with heq | ⟨n, -, heq⟩
      · exact heq
      · rw [heq] at hfull ⊢
        refine List.take_of_length_le ?_
        have hfull' : (got.take n).length = got.length := Int.ofNat.inj (not_not.1 hfull)
        rw [List.length_take] at hfull'
        omega
    rw [hall, Int.toNat_natCast]
    have htake : b.take (pos + got.length) = b.take pos ++ got := by
      rw [List.take_add, hlen, ← List.length_drop, ← List.take_eq_take_min, ← hread]
    have hrec := copyLoop_ends fuel (c + 1) (pos + got.length) { w with fs := w.fs.setData dst (b.take pos ++ got) }
      (hbecomes got).tidy hget hne ((Function.update_of_ne hne ..).trans hsrc)
      ((Function.update_self ..).trans htake.symm) (by omega) (by omega)
    have hover : ∀ v, Function.update (w.fs.setData dst (b.take pos ++ got)).content p v =
        Function.update w.fs.content p v := by
      intro v
      rw [funext (hbecomes got).content, Function.update_idem]
    dsimp only at hrec
    simp only [hover] at hrec
    refine hrec.mono ?_ ?_
    · rintro w' ⟨hsame, hb⟩
      exact ⟨hsame, (hbecomes got).trans hb⟩
    · rintro e ⟨w', s, v, rfl, hsame, hs, hin, hb⟩
      exact ⟨w', s, v, rfl, hsame, hs, hin, (hbecomes got).trans hb⟩

end Copy

section Calls

variable {fault : Option Site} {S S' : Contents} {w : World} {x : Nat} {b : List UInt8}

theorem Files.congr (h : Files S w.fs) (hS : ∀ x l, x < GEN001_NFILES → -2 ≤ l → S x l = S' x l) : Files S' w.fs :=
  ⟨h.stage, fun x l hx hl => (h.content x l hx hl).trans (hS x l hx hl), h.named⟩

variable (fault) in
/-- A copy to a name that is free. -/
theorem copy_ends (i : Nat) {l l' : Int} (h : Files S w.fs) (hx : x < GEN001_NFILES) (hl : -2 ≤ l) (hl' : -2 ≤ l')
    (hb : S x l = some b) (hfree : S x l' = none) :
    Ends (fun w' => Same w w' ∧ Files (S.set x l' (some b)) w'.fs)
      (fun e => ∃ w' s, e = .assertion w' ∧ Same w w' ∧ fault = some s ∧ s.InCopy i ∧
        (Files S w'.fs ∨ ∃ v, Files (S.set x l' (some v)) w'.fs))
      (gen001_copy fault i (path x l) (path x l') w) := by
  have hleft : ∀ s, fault = some s → s.InCopy i → ∃ w' s, Left.assertion w = .assertion w' ∧ Same w w' ∧
      fault = some s ∧ s.InCopy i ∧ (Files S w'.fs ∨ ∃ v, Files (S.set x l' (some v)) w'.fs) :=
    fun s hs hin => ⟨w, s, rfl, ⟨rfl, rfl⟩, hs, hin, Or.inl h⟩
  obtain ⟨src, hsrc, hdata⟩ := h.get hx hl hb
  obtain ⟨fs', -, hopen, hdst, hdata', hnew⟩ := h.create hx hl' hfree
  have hne : src ≠ w.fs.next := Nat.ne_of_lt (h.stage.tidy.lt hsrc)
  unfold gen001_copy
  split
  · rename_i hfault
    exact hleft (.kmalloc i) hfault rfl
  rw [h.openFile hx hsrc]
  dsimp only
  split
  · rename_i hfails
    exact hleft (.openSrc i) (hfails.resolve_right (by omega)) rfl
  split
  · rename_i hfault
    exact hleft (.openDst i) hfault rfl
  rw [hopen]
  dsimp only
  rw [if_neg (by omega), Int.toNat_natCast, Int.toNat_natCast]
  have hsrc' : fs'.data src = b := by
    rw [hdata', Function.update_of_ne hne, hdata]
  have hempty : fs'.data w.fs.next = b.take 0 := by rw [hdata', Function.update_self, List.take_zero]
  have hloop := copyLoop_ends fault i src (path x l') ((w.fs.data src).length + 1) 0 0
    { w with fs := fs' } hnew.tidy hdst hne hsrc' hempty (Nat.zero_le _) (by rw [hdata]; omega)
  have hupdate : ∀ v, Function.update fs'.content (path x l') v = Function.update w.fs.content (path x l') v := by
    intro v
    rw [funext hnew.content, Function.update_idem]
  dsimp only at hloop
  simp only [hupdate] at hloop
  refine hloop.mono ?_ ?_
  · rintro w' ⟨hsame, hb'⟩
    exact ⟨hsame, h.update hx hl' (hnew.trans hb')⟩
  · rintro e ⟨w', s, v, rfl, hsame, hs, hin, hb'⟩
    exact ⟨w', s, rfl, hsame, hs, hin, Or.inr ⟨v, h.update hx hl' (hnew.trans hb')⟩⟩

end Calls

/-! ## Shapes -/

/-- The originals, a `.last` for the entries of `old` and the numbers from `lo` up to `hi`. -/
def Shape (old : Nat → Bool) (lo hi : Nat → Nat) : Contents := fun x l =>
  if l = -1 ∨ (l = -2 ∧ old x = true) ∨ ((lo x : Int) ≤ l ∧ l < hi x) then some (stream g x) else none

section Shape

variable {g} {old old' : Nat → Bool} {lo lo' hi hi' : Nat → Nat} {x : Nat} {l : Int}

theorem shape_ne_none : Shape g old lo hi x l ≠ none ↔
    l = -1 ∨ (l = -2 ∧ old x = true) ∨ ((lo x : Int) ≤ l ∧ l < hi x) := by
  unfold Shape
  split
  · exact iff_of_true (by simp) ‹_›
  · exact iff_of_false (by simp) ‹_›

theorem shape_eq_none : Shape g old lo hi x l = none ↔
    ¬ (l = -1 ∨ (l = -2 ∧ old x = true) ∨ ((lo x : Int) ≤ l ∧ l < hi x)) := by
  rw [← shape_ne_none, not_not]

theorem shape_some (h : l = -1 ∨ (l = -2 ∧ old x = true) ∨ ((lo x : Int) ≤ l ∧ l < hi x)) :
    Shape g old lo hi x l = some (stream g x) := if_pos h

theorem shape_num {j : Nat} : Shape g old lo hi x j ≠ none ↔ lo x ≤ j ∧ j < hi x := by
  rw [shape_ne_none]
  omega

/-- A name gets its stream, and the others stay. -/
theorem shape_set (hother : ∀ y m, -2 ≤ m → ¬ (y = x ∧ m = l) → Shape g old lo hi y m = Shape g old' lo' hi' y m)
    (hthis : Shape g old' lo' hi' x l = some (stream g x)) (y : Nat) (m : Int) (hm : -2 ≤ m) :
    Contents.set (Shape g old lo hi) x l (some (stream g x)) y m = Shape g old' lo' hi' y m := by
  unfold Contents.set
  split
  · rename_i h
    rw [h.1, h.2, hthis]
  · exact hother y m hm ‹_›

end Shape

theorem pick_lt (draw : Nat → UInt32) (i : Nat) : pick draw i < GEN001_NFILES := Nat.mod_lt _ (by decide)

/-- How many of the first `i` copies are of the entry `x`. -/
def copies (draw : Nat → UInt32) (i x : Nat) : Nat := ((List.range i).map (pick draw)).count x

section Copies

variable {draw : Nat → UInt32}

theorem copies_succ (i : Nat) :
    copies draw (i + 1) = Function.update (copies draw i) (pick draw i) (copies draw i (pick draw i) + 1) := by
  funext x
  have hsucc : copies draw (i + 1) x = copies draw i x + if pick draw i = x then 1 else 0 := by
    rw [copies, List.range_succ, List.map_append, List.count_append, List.map_singleton, List.count_singleton, copies]
    simp only [beq_iff_eq]
  rw [hsucc]
  by_cases hx : x = pick draw i
  · rw [hx, if_pos rfl, Function.update_self]
  · rw [if_neg fun heq => hx heq.symm, Function.update_of_ne hx, Nat.add_zero]

theorem copies_le (i x : Nat) : copies draw i x ≤ i := by
  refine Nat.le_trans List.count_le_length ?_
  rw [List.length_map, List.length_range]

theorem copies_ne_zero {i x : Nat} : copies draw i x ≠ 0 ↔ ∃ k < i, pick draw k = x := by
  rw [copies, Nat.ne_zero_iff_zero_lt, List.count_pos_iff, List.mem_map]
  simp only [List.mem_range]

end Copies

/-! ## What an iteration is left with -/

/-- The numbers are dense where a chain is left at its fault, except at an unlink of a number that is not the first
one. -/
def Site.Leaves (ncopy : Nat) (S : Contents) : Site → Prop
  | .unlink x (j + 1) => x < GEN001_NFILES ∧ S x 0 = none ∧ S x ((j + 1 : Nat) : Int) ≠ none
  | _ => ∃ m : Nat → Nat, ∀ x, m x ≤ ncopy ∧ ∀ j : Nat, S x j ≠ none ↔ j < m x

/-- The files a chain is left with. -/
def Remains (fault : Option Site) (ncopy : Nat) : Left → Prop
  | .assertion w => ∃ s S, fault = some s ∧ Files S w.fs ∧ s.Leaves ncopy S
  | .hangs => False

/-- Dense numbers, and a fault that is not at an unlink. -/
theorem remains_dense {fault : Option Site} {ncopy : Nat} {s : Site} {S : Contents} {w : World} {m : Nat → Nat}
    (hs : fault = some s) (hnot : ∀ x j, s ≠ .unlink x (j + 1)) (h : Files S w.fs) (hm : ∀ x, m x ≤ ncopy)
    (hdense : ∀ x (j : Nat), S x j ≠ none ↔ j < m x) : Remains fault ncopy (.assertion w) := by
  refine ⟨s, S, hs, h, ?_⟩
  unfold Site.Leaves
  split
  · exact absurd rfl (hnot _ _)
  · exact ⟨m, fun x => ⟨hm x, hdense x⟩⟩

section Chain

variable {g} {fault : Option Site} {ncopy : Nat} {draw : Nat → UInt32} {old : Nat → Bool} {w w₀ : World} {x : Nat}

/-- After `i` copies the counters are the numbers of links. -/
structure Copied (g : Prandom R) (draw : Nat → UInt32) (old : Nat → Bool) (w₀ : World) (i : Nat) (w : World) :
    Prop where
  files : Files (Shape g old (fun _ => 0) w.link) w.fs
  link : w.link = copies draw i
  failed : w.failed = w₀.failed

theorem not_unlink_of_inCopy {i : Nat} {s : Site} (h : s.InCopy i) (x j : Nat) : s ≠ .unlink x (j + 1) := by
  rintro rfl
  exact h

theorem copyStep_ends {i : Nat} (hi : i < ncopy) (h : Copied g draw old w₀ i w) :
    Ends (Copied g draw old w₀ (i + 1)) (Remains fault ncopy) (copyStep fault draw w i) := by
  obtain ⟨x, hxdef⟩ : ∃ x, x = pick draw i := ⟨_, rfl⟩
  have hx : x < GEN001_NFILES := hxdef ▸ pick_lt draw i
  obtain ⟨l, hl⟩ : ∃ l : Int, l = if w.link x ≠ 0 then (w.link x : Int) - 1 else -1 := ⟨_, rfl⟩
  have hsrc : -2 ≤ l ∧ Shape g old (fun _ => 0) w.link x l = some (stream g x) := by
    split at hl
    · exact ⟨by omega, shape_some (by omega)⟩
    · exact ⟨by omega, shape_some (Or.inl hl)⟩
  have hfree : Shape g old (fun _ => 0) w.link x (w.link x) = none := by
    rw [shape_eq_none]
    omega
  have hcopy := copy_ends fault i h.files hx hsrc.1 (by omega : -2 ≤ (w.link x : Int)) hsrc.2 hfree
  -- the name that is new is the next number
  have hset : ∀ y m, -2 ≤ m → ¬ (y = x ∧ m = (w.link x : Int)) → Shape g old (fun _ => 0) w.link y m =
      Shape g old (fun _ => 0) (Function.update w.link x (w.link x + 1)) y m := by
    intro y m _ hne
    by_cases hy : y = x
    · subst hy
      unfold Shape
      rw [Function.update_self]
      have hnum : m ≠ w.link y := fun heq => hne ⟨rfl, heq⟩
      refine if_congr (or_congr Iff.rfl (or_congr Iff.rfl ?_)) rfl rfl
      omega
    · unfold Shape
      rw [Function.update_of_ne hy]
  have hthis : Shape g old (fun _ => 0) (Function.update w.link x (w.link x + 1)) x (w.link x) = some (stream g x) := by
    refine shape_some ?_
    rw [Function.update_self]
    omega
  have hlink : Function.update w.link x (w.link x + 1) = copies draw (i + 1) := by rw [copies_succ, ← hxdef, h.link]
  have hle : ∀ y, Function.update w.link x (w.link x + 1) y ≤ ncopy := by
    intro y
    rw [hlink]
    exact Nat.le_trans (copies_le _ _) hi
  unfold copyStep
  dsimp only
  rw [← hxdef, ← hl]
  refine Ends.map (hcopy.mono (fun _ hq => hq) ?_) ?_
  · rintro e ⟨w', s, rfl, -, hs, hin, hfiles | ⟨v, hfiles⟩⟩
    · refine remains_dense hs (not_unlink_of_inCopy hin) hfiles (m := w.link) (fun y => ?_) fun y j => ?_
      · rw [h.link]
        exact Nat.le_trans (copies_le _ _) (Nat.le_of_lt hi)
      · rw [shape_num]
        omega
    · refine remains_dense hs (not_unlink_of_inCopy hin) hfiles hle fun y j => ?_
      unfold Contents.set
      split
      · rename_i hy
        rw [hy.1, Function.update_self]
        exact iff_of_true (by simp) (by omega)
      · rename_i hy
        rw [hset y j (by omega) hy, shape_num]
        omega
  · rintro w' ⟨⟨hsame, hfailed⟩, hfiles⟩
    rw [hsame]
    exact ⟨hfiles.congr fun y m _ hm => shape_set hset hthis y m hm, hlink, hfailed.trans h.failed⟩

/-- The first `j` numbers of a chain that is closed are gone; its last one is the `.last` now. -/
def Closing (g : Prandom R) (old : Nat → Bool) (link : Nat → Nat) (x j : Nat) : Contents :=
  Shape g (Function.update old x true) (Function.update (fun _ => 0) x j) (Function.update link x (link x - 1))

theorem closing_rename {link : Nat → Nat} (hlink : link x ≠ 0) (y : Nat) (m : Int) :
    ((Contents.set (Shape g old (fun _ => 0) link) x (-2) (some (stream g x))).set x ((link x : Int) - 1) none) y m =
      Closing g old link x 0 y m := by
  unfold Contents.set Closing
  by_cases hy : y = x
  · subst hy
    by_cases h1 : m = (link y : Int) - 1
    · rw [if_pos ⟨rfl, h1⟩, eq_comm, shape_eq_none, Function.update_self, Function.update_self, Function.update_self]
      omega
    rw [if_neg fun h => h1 h.2]
    by_cases h2 : m = -2
    · rw [if_pos ⟨rfl, h2⟩, shape_some (Or.inr (Or.inl ⟨h2, Function.update_self ..⟩))]
    rw [if_neg fun h => h2 h.2]
    unfold Shape
    rw [Function.update_self, Function.update_self, Function.update_self]
    refine if_congr (or_congr Iff.rfl (or_congr ?_ ?_)) rfl rfl
    · exact iff_of_false (fun h => h2 h.1) fun h => h2 h.1
    · dsimp only
      omega
  · rw [if_neg fun h => hy h.1, if_neg fun h => hy h.1]
    unfold Shape
    rw [Function.update_of_ne hy, Function.update_of_ne hy, Function.update_of_ne hy]

theorem closing_unlink {link : Nat → Nat} {j : Nat} (y : Nat) (m : Int) :
    Contents.set (Closing g old link x j) x j none y m = Closing g old link x (j + 1) y m := by
  unfold Contents.set Closing
  by_cases hy : y = x
  · subst hy
    by_cases h1 : m = (j : Int)
    · rw [if_pos ⟨rfl, h1⟩, eq_comm, shape_eq_none, Function.update_self, Function.update_self, Function.update_self]
      omega
    rw [if_neg fun h => h1 h.2]
    unfold Shape
    rw [Function.update_self, Function.update_self, Function.update_self, Function.update_self]
    refine if_congr (or_congr Iff.rfl (or_congr Iff.rfl ?_)) rfl rfl
    omega
  · rw [if_neg fun h => hy h.1]
    unfold Shape
    rw [Function.update_of_ne hy, Function.update_of_ne hy, Function.update_of_ne hy, Function.update_of_ne hy]

/-- No number is left once all but the last are gone. -/
theorem closing_end {link : Nat → Nat} (y : Nat) (m : Int) :
    Closing g old link x (link x - 1) y m =
      Shape g (Function.update old x true) (fun _ => 0) (Function.update link x 0) y m := by
  unfold Closing Shape
  by_cases hy : y = x
  · subst hy
    rw [Function.update_self, Function.update_self, Function.update_self, Function.update_self]
    refine if_congr (or_congr Iff.rfl (or_congr Iff.rfl ?_)) rfl rfl
    omega
  · rw [Function.update_of_ne hy, Function.update_of_ne hy, Function.update_of_ne hy, Function.update_of_ne hy]

theorem closing_num {link : Nat → Nat} {j k : Nat} : Closing g old link x j x k ≠ none ↔ j ≤ k ∧ k < link x - 1 := by
  rw [Closing, shape_num, Function.update_self, Function.update_self]

theorem closing_num_ne {link : Nat → Nat} {j k y : Nat} (hy : y ≠ x) :
    Closing g old link x j y k ≠ none ↔ k < link y := by
  rw [Closing, shape_num, Function.update_of_ne hy, Function.update_of_ne hy]
  omega

theorem renameStep_ends (hx : x < GEN001_NFILES) (hle : ∀ y, w.link y ≤ ncopy) (hlink : w.link x ≠ 0)
    (h : Files (Shape g old (fun _ => 0) w.link) w.fs) :
    Ends (fun w' => Same w w' ∧ Files (Closing g old w.link x 0) w'.fs) (Remains fault ncopy)
      (renameStep fault x w) := by
  unfold renameStep
  split
  · rename_i hfault
    refine remains_dense hfault (fun y j => by simp) h hle fun y j => ?_
    rw [shape_num]
    omega
  · have hlast : Shape g old (fun _ => 0) w.link x ((w.link x : Int) - 1) = some (stream g x) := shape_some (by omega)
    obtain ⟨fs', hr, hfiles⟩ := h.rename hx (by omega) (by omega : (-2 : Int) ≤ -2) (by omega) hlast
    dsimp only
    change w.fs.rename (gen001_path (entry x).rel ((w.link x : Int) - 1)) (gen001_path (entry x).rel (-2)) = _ at hr
    rw [hr]
    refine ⟨⟨rfl, rfl⟩, ?_⟩
    exact Files.congr (w := ⟨fs', w.link, w.failed⟩) hfiles fun y m _ _ => closing_rename hlink y m

/-- The state of the loop of unlinks; none of those that were made is the fault. -/
def Unlinked (g : Prandom R) (fault : Option Site) (old : Nat → Bool) (w : World) (x j : Nat) (w' : World) : Prop :=
  Same w w' ∧ Files (Closing g old w.link x j) w'.fs ∧ ∀ k < j, fault ≠ some (.unlink x k)

theorem unlinkStep_ends {w' : World} {j : Nat} (hx : x < GEN001_NFILES) (hle : ∀ y, w.link y ≤ ncopy)
    (hj : j < w.link x - 1) (h : Unlinked g fault old w x j w') :
    Ends (Unlinked g fault old w x (j + 1)) (Remains fault ncopy) (unlinkStep fault x w' j) := by
  obtain ⟨hsame, hfiles, hbefore⟩ := h
  have hthere : Closing g old w.link x j x j ≠ none := closing_num.2 ⟨Nat.le_refl j, hj⟩
  unfold unlinkStep
  split
  · rename_i hfault
    refine ⟨_, _, hfault, hfiles, ?_⟩
    cases j with
    | zero =>
      refine ⟨Function.update w.link x (w.link x - 1), fun y => ⟨?_, fun k => ?_⟩⟩
      · by_cases hy : y = x
        · subst hy
          rw [Function.update_self]
          exact Nat.le_trans (Nat.sub_le _ _) (hle y)
        · rw [Function.update_of_ne hy]
          exact hle y
      · by_cases hy : y = x
        · subst hy
          rw [closing_num, Function.update_self]
          omega
        · rw [closing_num_ne hy, Function.update_of_ne hy]
    | succ j =>
      refine ⟨hx, ?_, hthere⟩
      by_contra hne
      have h0 := (closing_num (k := 0)).1 hne
      omega
  · rename_i hfault
    obtain ⟨fs', hr, hfiles'⟩ := hfiles.unlink hx (by omega) hthere
    dsimp only
    change w'.fs.unlink (gen001_path (entry x).rel (j : Int)) = _ at hr
    rw [hr]
    refine ⟨hsame, ?_, fun k hk => ?_⟩
    · exact Files.congr (w := ⟨fs', w'.link, w'.failed⟩) hfiles' fun y m _ _ => closing_unlink y m
    · rcases Nat.lt_succ_iff_lt_or_eq.1 hk with hlt | rfl
      · exact hbefore k hlt
      · exact hfault

/-- The entries with a `.last` once the chains of the first `X` entries are closed. -/
def lasts (old : Nat → Bool) (link : Nat → Nat) (X y : Nat) : Bool := old y || (decide (y < X) && decide (link y ≠ 0))

/-- The counters then. -/
def cleared (link : Nat → Nat) (X y : Nat) : Nat := if y < X then 0 else link y

theorem lasts_succ {link : Nat → Nat} {X : Nat} (h : link X ≠ 0) :
    lasts old link (X + 1) = Function.update (lasts old link X) X true := by
  funext y
  unfold lasts
  by_cases hy : y = X
  · subst hy
    rw [Function.update_self, decide_eq_true (Nat.lt_succ_self y), decide_eq_true h]
    exact Bool.or_true _
  · rw [Function.update_of_ne hy, decide_eq_decide.2 (by omega : y < X + 1 ↔ y < X)]

theorem lasts_succ_of_zero {link : Nat → Nat} {X : Nat} (h : link X = 0) :
    lasts old link (X + 1) = lasts old link X := by
  funext y
  unfold lasts
  by_cases hy : y = X
  · subst hy
    rw [h]
    simp
  · rw [decide_eq_decide.2 (by omega : y < X + 1 ↔ y < X)]

theorem cleared_succ (link : Nat → Nat) (X : Nat) :
    cleared link (X + 1) = Function.update (cleared link X) X 0 := by
  funext y
  unfold cleared
  by_cases hy : y = X
  · subst hy
    rw [Function.update_self, if_pos (Nat.lt_succ_self y)]
  · rw [Function.update_of_ne hy]
    exact if_congr (by omega) rfl rfl

/-- The chains of the first `X` entries are closed: those that had a link have a `.last`, and no unlink that this took
is the fault. -/
structure Closed (g : Prandom R) (fault : Option Site) (old : Nat → Bool) (n : Nat → Nat) (w₀ : World) (X : Nat)
    (w : World) : Prop where
  files : Files (Shape g (lasts old n X) (fun _ => 0) w.link) w.fs
  link : w.link = cleared n X
  failed : w.failed = w₀.failed
  passed : ∀ y < X, ∀ j, j + 1 < n y → fault ≠ some (.unlink y j)

theorem closeStep_ends {link : Nat → Nat} (hx : x < GEN001_NFILES) (hle : ∀ y, link y ≤ ncopy)
    (h : Closed g fault old link w₀ x w) :
    Ends (Closed g fault old link w₀ (x + 1)) (Remains fault ncopy) (closeStep fault w x) := by
  have hthis : w.link x = link x := by
    rw [h.link]
    exact if_neg (Nat.lt_irrefl x)
  have hle' : ∀ y, w.link y ≤ ncopy := by
    intro y
    rw [h.link, cleared]
    split
    · exact Nat.zero_le _
    · exact hle y
  have hlink : Function.update w.link x 0 = cleared link (x + 1) := by rw [cleared_succ, h.link]
  have hpassed : (∀ j, j + 1 < link x → fault ≠ some (.unlink x j)) →
      ∀ y < x + 1, ∀ j, j + 1 < link y → fault ≠ some (.unlink y j) := by
    intro hlast y hy
    rcases Nat.lt_succ_iff_lt_or_eq.1 hy with hlt | rfl
    · exact h.passed y hlt
    · exact hlast
  unfold closeStep
  split
  · rename_i hzero
    have hsame : Function.update w.link x 0 = w.link := by rw [← hzero, Function.update_eq_self]
    refine ⟨?_, hsame ▸ hlink, h.failed, hpassed fun j hj => by omega⟩
    rw [lasts_succ_of_zero (hthis ▸ hzero)]
    exact h.files
  · rename_i hne
    refine (renameStep_ends hx hle' hne h.files).bind fun w₁ h₁ => ?_
    have hcount : w₁.link x = w.link x := by rw [h₁.1.1]
    have hbefore : ∀ k < 0, fault ≠ some (.unlink x k) := fun k hk => absurd hk (Nat.not_lt_zero k)
    rw [hcount]
    refine Ends.bind (Ends.foldlM_range (I := Unlinked g fault (lasts old link x) w x) _
      (fun j w' hj hw' => unlinkStep_ends hx hle' hj hw') ⟨h₁.1, h₁.2, hbefore⟩) fun w₂ h₂ => ?_
    obtain ⟨⟨hsame, hfailed⟩, hfiles, hunlinked⟩ := h₂
    refine ⟨?_, hsame ▸ hlink, hfailed.trans h.failed, hpassed fun j hj => hunlinked j (by omega)⟩
    rw [lasts_succ (hthis ▸ hne)]
    dsimp only
    rw [hsame]
    exact hfiles.congr fun y m _ _ => closing_end y m

variable (fault ncopy draw) in
/-- Where an iteration ends: every chain is closed, the entries that were picked have a `.last`, too, and the fault is
at none of the unlinks this took. What it is left with at its fault are the files that remain. -/
theorem chain_ends (h : Files (Shape g old (fun _ => 0) (fun _ => 0)) w.fs) (hlink : ∀ x, w.link x = 0) :
    Ends (fun w' => (∀ x, w'.link x = 0) ∧ w'.failed = w.failed ∧
        Files (Shape g (lasts old (copies draw ncopy) GEN001_NFILES) (fun _ => 0) (fun _ => 0)) w'.fs ∧
        ∀ x < GEN001_NFILES, ∀ j, j + 1 < copies draw ncopy x → fault ≠ some (.unlink x j))
      (Remains fault ncopy) (gen001_chain fault ncopy draw w) := by
  have hzero : w.link = fun _ => 0 := funext hlink
  have hstart : Copied g draw old w 0 w := ⟨hzero ▸ h, hzero, rfl⟩
  unfold gen001_chain
  refine (Ends.foldlM_range ncopy (fun i a hi ha => copyStep_ends hi ha) hstart).bind fun w₁ h₁ => ?_
  have hclosed : Closed g fault old w₁.link w 0 w₁ := by
    refine ⟨?_, funext fun y => (if_neg (Nat.not_lt_zero y)).symm, h₁.failed, fun y hy => absurd hy (Nat.not_lt_zero y)⟩
    have hlasts : lasts old w₁.link 0 = old := by
      funext y
      simp [lasts]
    rw [hlasts]
    exact h₁.files
  have hle : ∀ y, w₁.link y ≤ ncopy := by
    intro y
    rw [h₁.link]
    exact copies_le ncopy y
  have hclose := Ends.foldlM_range (E := Remains fault ncopy) GEN001_NFILES
    (fun X a hX ha => closeStep_ends hX hle ha) hclosed
  refine hclose.imp fun w₂ h₂ => ?_
  -- a counter that is not of an entry was zero before
  have hlink₂ : w₂.link = fun _ => 0 := by
    funext x
    rw [h₂.link, cleared, h₁.link]
    split
    · rfl
    · rename_i hx
      by_contra hne
      obtain ⟨k, -, rfl⟩ := copies_ne_zero.1 hne
      exact hx (pick_lt draw k)
  have hfiles := h₂.files
  rw [hlink₂, h₁.link] at hfiles
  exact ⟨fun x => congrFun hlink₂ x, h₂.failed, hfiles, fun x hx j hj => h₂.passed x hx j (h₁.link ▸ hj)⟩

end Chain

end NfsPlayground.Generic.G001
