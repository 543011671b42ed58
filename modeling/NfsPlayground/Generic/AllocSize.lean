import Mathlib.Data.Nat.Log
import Mathlib.Order.Bounds.Basic
import Mathlib.Tactic.Ring

/-!
# generic/436 and generic/539: the allocation unit

`g436_alloc_size()` and its copy `g539_alloc_size()` look for the smallest offset at which a written byte is no longer
reported as data at offset 0. They double an offset until the answer changes, then go back and forth from it with a step
that is halved after each probe.

The step before the last leaves four candidates and the search probes once more, so it tells two of them from the other
two and returns the first or the last of the four: it finds a unit that is 0 or 1 modulo 4 (`alloc_size_iff`).
-/

namespace NfsPlayground.Generic.AllocSize

variable {F : Type}

/-- The calls of the search; an error is negative. -/
structure SeekFs (F : Type) where
  /-- The return value of `xfs_kstat()`, and `st.blksize`. -/
  kstat : F → Int × Nat
  ftruncate : F → Nat → Int × F
  kernelWrite : F → List Char → Int → Int × F
  /-- `vfs_llseek(f, offset, SEEK_DATA)` -/
  seekData : F → Int → Int × F

/-- A byte is written at the offset of an empty file, and data looked for from 0; `none` is a failed assertion. -/
def probe (fs : SeekFs F) (f : F) (offset : Int) : Option (Int × F) :=
  let (err, f) := fs.ftruncate f 0
  if err ≠ 0 then none
  else
    let (n, f) := fs.kernelWrite f ['a'] offset
    if n ≠ 1 then none
    else
      let (pos, f) := fs.seekData f 0
      if pos < 0 then none else some (pos, f)

/-- `while (pos == 0 && offset < alloc)` -/
def double (fs : SeekFs F) (alloc : Nat) (pos : Int) (offset : Nat) (hpos : 0 < offset) (f : F) :
    Option (Int × Nat × F) :=
  if _h : pos = 0 ∧ offset < alloc then
    match probe fs f ↑(offset <<< 1) with
    | none => none
    | some (pos, f) => double fs alloc pos (offset <<< 1) (by omega) f
  else some (pos, offset, f)
termination_by alloc - offset

/-- `while (shift && offset < alloc)` -/
def bisect (fs : SeekFs F) (alloc : Nat) (pos : Int) (offset : Int) (shift : Nat) (f : F) :
    Option (Int × Int × Nat × F) :=
  if _h : shift ≠ 0 ∧ offset < alloc then
    match probe fs f offset with
    | none => none
    | some (pos, f) => bisect fs alloc pos (offset + if pos ≠ 0 then -(shift : Int) else shift) (shift >>> 1) f
  else some (pos, offset, shift, f)
termination_by shift
decreasing_by
  rw [Nat.shiftRight_one]
  omega

/-- `get_io_sizes()`, as both ports have it. -/
def allocSize (fs : SeekFs F) (f : F) : Option Int :=
  let (err, alloc) := fs.kstat f
  if err ≠ 0 then none
  else
    match double fs alloc 0 1 Nat.one_pos f with
    | none => none
    | some (pos, offset, f) =>
      match bisect fs alloc pos offset (offset >>> 2) f with
      | none => none
      | some (pos, offset, shift, _) => some (if shift = 0 then offset + if pos ≠ 0 then 0 else 1 else offset)

def g436AllocSize (fs : SeekFs F) (f : F) : Option Int := allocSize fs f

def g539AllocSize (fs : SeekFs F) (f : F) : Option Int := allocSize fs f

/-! ## A file system with an allocation unit -/

/-- A file system that reports the block size `alloc`, and a single byte as data from the start of its unit of `g`
bytes on. -/
structure UnitFs (F : Type) (g alloc : Nat) where
  fs : SeekFs F
  IsEmpty : F → Prop
  /-- The file holds one byte, at the offset. -/
  HasByteAt : Nat → F → Prop
  kstat_eq : ∀ f, fs.kstat f = (0, alloc)
  ftruncate_eq : ∀ f, ∃ f', fs.ftruncate f 0 = (0, f') ∧ IsEmpty f'
  write_eq : ∀ f o, IsEmpty f → ∃ f', fs.kernelWrite f ['a'] (o : Nat) = (1, f') ∧ HasByteAt o f'
  seek_eq : ∀ f o, HasByteAt o f → ∃ f', fs.seekData f 0 = (((o / g * g : Nat) : Int), f')

section Search

variable {g alloc : Nat} (u : UnitFs F g alloc)

theorem probe_eq (f : F) (o : Nat) : ∃ f', probe u.fs f o = some (((o / g * g : Nat) : Int), f') := by
  obtain ⟨f₁, h₁, hempty⟩ := u.ftruncate_eq f
  obtain ⟨f₂, h₂, hbyte⟩ := u.write_eq f₁ o hempty
  obtain ⟨f₃, h₃⟩ := u.seek_eq f₂ o hbyte
  refine ⟨f₃, ?_⟩
  simp only [probe, h₁, h₂, h₃]
  rw [if_neg (by decide), if_neg (by decide), if_neg (by omega)]

theorem probed_zero {o : Nat} (h : o < g) : o / g * g = 0 := by
  rw [Nat.div_eq_of_lt h, Nat.zero_mul]

theorem probed_ne {o : Nat} (hg : 0 < g) (h : g ≤ o) : o / g * g ≠ 0 :=
  Nat.mul_ne_zero (Nat.div_ne_zero_iff.2 ⟨Nat.pos_iff_ne_zero.1 hg, h⟩) (Nat.pos_iff_ne_zero.1 hg)

/-- The unit is what the search is for. -/
theorem isLeast_unit (hg : 0 < g) (f : F) : IsLeast {o : Nat | ∀ f', probe u.fs f o ≠ some (0, f')} g := by
  constructor
  · intro f' hzero
    obtain ⟨f'', h⟩ := probe_eq u f g
    rw [hzero, Option.some.injEq, Prod.mk.injEq] at h
    exact probed_ne hg (Nat.le_refl g) (Int.natCast_eq_zero.1 h.1.symm)
  · intro o ho
    by_contra hlt
    obtain ⟨f', h⟩ := probe_eq u f o
    rw [probed_zero (Nat.not_le.1 hlt)] at h
    exact ho f' h

theorem double_stop {fs : SeekFs F} {pos : Int} {offset : Nat} {hpos : 0 < offset} {f : F}
    (h : ¬ (pos = 0 ∧ offset < alloc)) : double fs alloc pos offset hpos f = some (pos, offset, f) := by
  rw [double, dif_neg h]

theorem double_go {fs : SeekFs F} {pos : Int} {offset : Nat} {hpos : 0 < offset} {f f' : F} (h : offset < alloc)
    (hprobe : probe fs f ↑(2 * offset) = some (pos, f')) :
    double fs alloc 0 offset hpos f = double fs alloc pos (2 * offset) (by omega) f' := by
  have hshift : offset <<< 1 = 2 * offset := by rw [Nat.shiftLeft_eq, Nat.pow_one, Nat.mul_comm]
  rw [double, dif_pos ⟨rfl, h⟩]
  simp only [hshift, hprobe]

/-- The doubling stops at the first power of two from the unit on. -/
theorem double_spec {k : Nat} (hlow : 2 ^ k < 2 * g) (hhigh : g ≤ 2 ^ k) (hle : g ≤ alloc) (d : Nat) :
    ∀ (j : Nat) (f : F) (hpos : 0 < 2 ^ j), j + d + 1 = k →
      ∃ f' pos, double u.fs alloc 0 (2 ^ j) hpos f = some (pos, 2 ^ k, f') ∧ pos ≠ 0 := by
  induction d with
  | zero =>
    intro j f hpos hj
    have hpow : 2 * 2 ^ j = 2 ^ k := by rw [← hj, Nat.add_zero, Nat.pow_succ, Nat.mul_comm]
    obtain ⟨f', hprobe⟩ := probe_eq u f (2 * 2 ^ j)
    have hne : ((2 * 2 ^ j / g * g : Nat) : Int) ≠ 0 :=
      Int.natCast_ne_zero.2 (probed_ne (by omega) (by omega))
    refine ⟨f', _, ?_, hne⟩
    rw [double_go (by omega) hprobe, double_stop fun h => hne h.1, hpow]
  | succ d ih =>
    intro j f hpos hj
    have hpow : 2 * 2 ^ j = 2 ^ (j + 1) := by rw [Nat.pow_succ, Nat.mul_comm]
    have hstep : 2 * 2 ^ (j + 1) ≤ 2 ^ k := by
      rw [Nat.mul_comm, ← Nat.pow_succ]
      exact Nat.pow_le_pow_right (by omega) (by omega)
    obtain ⟨f', hprobe⟩ := probe_eq u f (2 * 2 ^ j)
    rw [probed_zero (by omega), Nat.cast_zero] at hprobe
    obtain ⟨f'', pos, hrest, hne⟩ := ih (j + 1) f' (by omega) (by omega)
    refine ⟨f'', pos, ?_, hne⟩
    rw [double_go (by omega) hprobe]
    simpa only [hpow] using hrest

theorem bisect_stop {fs : SeekFs F} {pos offset : Int} {shift : Nat} {f : F} (h : ¬ (shift ≠ 0 ∧ offset < alloc)) :
    bisect fs alloc pos offset shift f = some (pos, offset, shift, f) := by
  rw [bisect, dif_neg h]

theorem bisect_go {fs : SeekFs F} {pos pos' offset : Int} {shift : Nat} {f f' : F} (hshift : shift ≠ 0)
    (h : offset < alloc) (hprobe : probe fs f offset = some (pos', f')) :
    bisect fs alloc pos offset shift f =
      bisect fs alloc pos' (offset + if pos' ≠ 0 then -(shift : Int) else shift) (shift / 2) f' := by
  rw [bisect, dif_pos ⟨hshift, h⟩]
  simp only [hprobe, Nat.shiftRight_one]

/-- The end of the search, as a function of where the last probe was and what it said. -/
def corrected (pos offset : Int) (shift : Nat) : Int :=
  if shift = 0 then offset + if pos ≠ 0 then 0 else 1 else offset

/-- Where the search ends among four candidates: the first or the last of them. -/
def rounded (g : Nat) : Nat := if g % 4 = 2 then g - 1 else if g % 4 = 3 then g + 1 else g

/-- The unit is at most twice the step away from the offset, an odd multiple of twice the step. -/
theorem bisect_spec (hg : 0 < g) (i : Nat) : ∀ (c o : Nat) (pos : Int) (f : F), o = 4 * 2 ^ i * c + 2 * 2 ^ i →
    o < g + 2 * 2 ^ i → g ≤ o + 2 * 2 ^ i → o + 2 * 2 ^ i ≤ alloc →
    ∃ pos' o' shift f', bisect u.fs alloc pos o (2 ^ i) f = some (pos', o', shift, f') ∧
      corrected pos' o' shift = rounded g := by
  induction i with
  | zero =>
    intro c o pos f ho hlow hhigh halloc
    obtain ⟨f', hprobe⟩ := probe_eq u f o
    rw [bisect_go (by decide) (by omega) hprobe, bisect_stop (by simp)]
    refine ⟨_, _, _, _, rfl, ?_⟩
    simp only [corrected, rounded]
    by_cases hgo : g ≤ o
    · have hne : ((o / g * g : Nat) : Int) ≠ 0 := Int.natCast_ne_zero.2 (probed_ne hg hgo)
      simp only [if_pos hne]
      split_ifs <;> omega
    · rw [probed_zero (by omega)]
      simp only [Nat.cast_zero, ne_eq, not_true_eq_false, if_false]
      split_ifs <;> omega
  | succ i ih =>
    intro c o pos f ho hlow hhigh halloc
    have hpow : 2 ^ (i + 1) = 2 * 2 ^ i := by rw [Nat.pow_succ, Nat.mul_comm]
    have hhalf : 2 ^ (i + 1) / 2 = 2 ^ i := by omega
    rw [hpow] at ho hlow hhigh halloc
    obtain ⟨f', hprobe⟩ := probe_eq u f o
    rw [bisect_go (by omega) (by omega) hprobe, hhalf]
    by_cases hgo : g ≤ o
    · have hne : ((o / g * g : Nat) : Int) ≠ 0 := Int.natCast_ne_zero.2 (probed_ne hg hgo)
      have hback : (o : Int) + -((2 ^ (i + 1) : Nat) : Int) = ((4 * 2 ^ i * (2 * c) + 2 * 2 ^ i : Nat) : Int) := by
        have hle : o = 4 * 2 ^ i * (2 * c) + 2 * 2 ^ i + 2 * 2 ^ i := by rw [ho]; ring
        omega
      rw [if_pos hne, hback]
      have heq : 4 * (2 * 2 ^ i) * c = 4 * 2 ^ i * (2 * c) := by ring
      exact ih (2 * c) _ _ f' rfl (by omega) (by omega) (by omega)
    · rw [probed_zero (by omega)]
      have hforth : (o : Int) + ((2 ^ (i + 1) : Nat) : Int) = ((4 * 2 ^ i * (2 * c + 1) + 2 * 2 ^ i : Nat) : Int) := by
        have hle : o + 2 * 2 ^ i = 4 * 2 ^ i * (2 * c + 1) + 2 * 2 ^ i := by rw [ho]; ring
        omega
      simp only [Nat.cast_zero, ne_eq, not_true_eq_false, if_false]
      rw [hforth]
      have heq : 4 * (2 * 2 ^ i) * c + 4 * 2 ^ i = 4 * 2 ^ i * (2 * c + 1) := by ring
      exact ih (2 * c + 1) _ _ f' rfl (by omega) (by omega) (by omega)

/-- The first power of two from the unit on. -/
def above (g : Nat) : Nat := 2 ^ Nat.clog 2 g

/-- The offset the search ends at. -/
def found (g alloc : Nat) : Nat :=
  if g = 2 then 2 else if alloc ≤ above g then above g else if g ≤ 4 then 3 else rounded g

theorem above_spec (hg : 2 ≤ g) : ∃ k, above g = 2 ^ (k + 1) ∧ 2 ^ k < g ∧ g ≤ 2 ^ (k + 1) := by
  obtain ⟨k, hk⟩ : ∃ k, Nat.clog 2 g = k + 1 := Nat.exists_eq_succ_of_ne_zero (Nat.clog_pos Nat.one_lt_two hg).ne'
  refine ⟨k, by rw [above, hk], ?_, ?_⟩
  · have hlt := Nat.pow_pred_clog_lt_self Nat.one_lt_two hg
    rwa [hk, Nat.pred_succ] at hlt
  · have hle := Nat.le_pow_clog Nat.one_lt_two g
    rwa [hk] at hle

theorem allocSize_of {f f₁ f₂ : F} {pos pos' o' : Int} {o shift : Nat}
    (hdouble : double u.fs alloc 0 1 Nat.one_pos f = some (pos, o, f₁))
    (hbisect : bisect u.fs alloc pos o (o / 4) f₁ = some (pos', o', shift, f₂)) :
    allocSize u.fs f = some (corrected pos' o' shift) := by
  have hshift : o >>> 2 = o / 4 := Nat.shiftRight_eq_div_pow ..
  simp only [allocSize, u.kstat_eq, hdouble, hshift, hbisect]
  rw [if_neg (by decide)]
  rfl

/-- The doubling has stopped below the block size, with at least four units to choose from. -/
theorem bisect_above {k : Nat} (pos : Int) {f : F} (hk : above g = 2 ^ (k + 2)) (hlow : 2 ^ (k + 1) < g)
    (hhigh : g ≤ 2 ^ (k + 2)) (hblock : above g < alloc) : ∃ pos' o' shift f',
      bisect u.fs alloc pos (above g) (above g / 4) f = some (pos', o', shift, f') ∧
        corrected pos' o' shift = (if g ≤ 4 then 3 else rounded g : Nat) := by
  have hpow : 2 ^ (k + 2) = 4 * 2 ^ k := by rw [Nat.pow_succ, Nat.pow_succ]; omega
  have hpow' : 2 ^ (k + 1) = 2 * 2 ^ k := by rw [Nat.pow_succ, Nat.mul_comm]
  have hone : 1 ≤ 2 ^ k := Nat.one_le_two_pow
  have hshift : above g / 4 = 2 ^ k := by omega
  -- the first probe asks again where the doubling stopped
  obtain ⟨f', hprobe⟩ := probe_eq u f (above g)
  have hagain : ((above g / g * g : Nat) : Int) ≠ 0 := Int.natCast_ne_zero.2 (probed_ne (by omega) (by omega))
  rw [hshift, bisect_go (by omega) (by omega) hprobe, if_pos hagain]
  cases k with
  | zero =>
    rw [bisect_stop (by simp)]
    refine ⟨_, _, _, _, rfl, ?_⟩
    rw [if_pos (by omega), corrected, if_pos (by decide), if_pos hagain]
    omega
  | succ i =>
    have hpow'' : 2 ^ (i + 1) = 2 * 2 ^ i := by rw [Nat.pow_succ, Nat.mul_comm]
    have hone : 1 ≤ 2 ^ i := Nat.one_le_two_pow
    have hplace : (above g : Int) + -((2 ^ (i + 1) : Nat) : Int) = ((4 * 2 ^ i * 1 + 2 * 2 ^ i : Nat) : Int) := by omega
    have hhalf : 2 ^ (i + 1) / 2 = 2 ^ i := by omega
    rw [hplace, hhalf, if_neg (by omega)]
    exact bisect_spec u (by omega) i 1 _ _ f' rfl (by omega) (by omega) (by omega)

theorem allocSize_eq (hg : 2 ≤ g) (hle : g ≤ alloc) (f : F) : allocSize u.fs f = some (found g alloc : Int) := by
  obtain ⟨k, hk, hlow, hhigh⟩ := above_spec hg
  have hpow : 2 ^ (k + 1) = 2 * 2 ^ k := by rw [Nat.pow_succ, Nat.mul_comm]
  obtain ⟨f', pos, hdouble, hne⟩ := double_spec u (k := k + 1) (by omega) hhigh hle k 0 f (by decide) (by omega)
  rw [← hk] at hdouble
  rw [found]
  cases k with
  | zero =>
    have hshift : above g / 4 = 0 := by omega
    rw [allocSize_of u hdouble (bisect_stop fun h => h.1 hshift), hshift, if_pos (by omega), corrected, if_pos rfl,
      if_pos hne, hk]
    rfl
  | succ k =>
    have hone : 1 ≤ 2 ^ k := Nat.one_le_two_pow
    have hpow' : 2 ^ (k + 1) = 2 * 2 ^ k := by rw [Nat.pow_succ, Nat.mul_comm]
    rw [if_neg (by omega)]
    by_cases hblock : alloc ≤ above g
    · have hstop : ¬ (above g / 4 ≠ 0 ∧ (above g : Int) < alloc) := by omega
      rw [allocSize_of u hdouble (bisect_stop hstop), if_pos hblock, corrected, if_neg (by omega)]
    · obtain ⟨pos', o', shift, f'', hbisect, hend⟩ := bisect_above u pos (f := f') hk hlow hhigh (by omega)
      rw [allocSize_of u hdouble hbisect, hend, if_neg hblock]

/-- The search finds the unit: a power of two other than 4, or a smaller number than the first power of two it can
tell from its neighbours; 3, 4 and what lies between a power of two and the block size are cases of their own. -/
theorem alloc_size_iff (hg : 2 ≤ g) (hle : g ≤ alloc) (f : F) :
    (g436AllocSize u.fs f = some (g : Int) ∧ g539AllocSize u.fs f = some (g : Int)) ↔
      g = 2 ∨ (g = above g ∧ alloc = g) ∨ (above g < alloc ∧ (g = 3 ∨ 4 < g ∧ g % 4 ≤ 1)) := by
  have heq := allocSize_eq u hg hle f
  have habove : g ≤ above g := Nat.le_pow_clog Nat.one_lt_two g
  rw [g436AllocSize, g539AllocSize, and_self, heq, Option.some.injEq, Int.natCast_inj]
  unfold found rounded
  split_ifs <;> omega

end Search

/-! ## A file by the offsets of its bytes -/

def ENXIO : Int := 6

/-- A file is the list of the offsets that were written. -/
def offsets (g alloc : Nat) : SeekFs (List Nat) where
  kstat _ := (0, alloc)
  ftruncate f n := (0, f.filter (· < n))
  kernelWrite f _ o := (1, o.toNat :: f)
  seekData f off :=
    match ((f.filter fun o => off < (o / g * g + g : Nat)).map fun o => max off (o / g * g : Nat)).min? with
    | none => (- ENXIO, f)
    | some pos => (pos, f)

def offsetsUnit {g : Nat} (alloc : Nat) (hg : 0 < g) : UnitFs (List Nat) g alloc where
  fs := offsets g alloc
  IsEmpty f := f = []
  HasByteAt o f := f = [o]
  kstat_eq _ := rfl
  ftruncate_eq _ := ⟨_, rfl, by simp⟩
  write_eq _ o h := ⟨_, rfl, by rw [h, Int.toNat_natCast]⟩
  seek_eq f o h := by
    refine ⟨[o], ?_⟩
    have hdata : ([o].filter fun o => (0 : Int) < (o / g * g + g : Nat)) = [o] :=
      List.filter_cons_of_pos (decide_eq_true (by omega))
    have hmax : max (0 : Int) (o / g * g : Nat) = (o / g * g : Nat) := max_eq_right (by omega)
    rw [h, offsets]
    dsimp only
    rw [hdata, List.map_cons, List.map_nil, hmax]
    rfl

theorem above_pow (n : Nat) : above (2 ^ n) = 2 ^ n := by rw [above, Nat.clog_pow 2 n (by decide)]

theorem alloc_size_iff_eight :
    g436AllocSize (offsets 8 4096) [] = some 8 ∧ g539AllocSize (offsets 8 4096) [] = some 8 := by
  have habove : above 8 = 8 := above_pow 3
  exact (alloc_size_iff (offsetsUnit 4096 (by decide)) (by decide) (by decide) []).2
    (Or.inr (Or.inr ⟨by rw [habove]; decide, Or.inr (by decide)⟩))

/-- A unit of 4 bytes in a block of 4096 is taken for 3. -/
theorem unit_of_four : ¬ (g436AllocSize (offsets 4 4096) [] = some 4 ∧ g539AllocSize (offsets 4 4096) [] = some 4) := by
  intro h
  have heq := allocSize_eq (offsetsUnit 4096 (by decide)) (g := 4) (by decide) (by decide) []
  have hfound : found 4 4096 = 3 := by
    rw [found, show above 4 = 4 from above_pow 2]
    rfl
  rw [hfound] at heq
  have hfour : allocSize (offsets 4 4096) [] = some 4 := h.1
  cases heq.symm.trans hfour

end NfsPlayground.Generic.AllocSize
