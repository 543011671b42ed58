import Mathlib.Data.BitVec
import Mathlib.Data.List.Basic

/-!
# generic/339: names with one directory hash

`g339_gen_name()` draws 248 bytes and computes four more from `last`, the complement of what the hash of the drawn bytes
turns into at the last word. The hash adds the four back at bits 0 to 28. So 29 bits of the hash are the same for every
name, and the three above them are bits 1 to 3 of the hash of the drawn bytes (`same_hash_iff`).

The bytes of `get_random_u8()` are a list: a call that has not returned when the list is used up gives `none`.
-/

namespace NfsPlayground.Generic.G339

abbrev U8 := BitVec 8
abbrev U32 := BitVec 32

/-- `G339_NAMELEN` -/
def namelen : Nat := 252

def rol32 (word : U32) (shift : Nat) : U32 := (word <<< shift) ||| (word >>> (32 - shift))

/-- What one pass of the loop of the hash puts over the rotated hash. -/
def word (n0 n1 n2 n3 : U8) : U32 :=
  (n0.setWidth 32 <<< 21) ^^^ (n1.setWidth 32 <<< 14) ^^^ (n2.setWidth 32 <<< 7) ^^^ (n3.setWidth 32 <<< 0)

/-- The loop of `g339_xfs_da_hashname()`. -/
def hashFrom : U32 → List U8 → U32
  | hash, n0 :: n1 :: n2 :: n3 :: name => hashFrom (word n0 n1 n2 n3 ^^^ rol32 hash (7 * 4)) name
  | hash, _ => hash

def xfsDaHashname (name : List U8) (len : Nat) : U32 := hashFrom 0 (name.take len)

def genRand : List U8 → Option (U8 × List U8)
  | [] => none
  | r :: s => if r = 0 then genRand s else some (r, s)

/-- `n` calls of `g339_gen_rand()` -/
def genRands : Nat → List U8 → Option (List U8 × List U8)
  | 0, s => some ([], s)
  | n + 1, s =>
    match genRand s with
    | none => none
    | some (r, s') => (genRands n s').map fun x => (r :: x.1, x.2)

/-- The last four bytes of the name. -/
def tail (last : U32) : List U8 :=
  [((last >>> 21) &&& 0xff).setWidth 8, ((last >>> 14) &&& 0x7f).setWidth 8, ((last >>> 7) &&& 0x7f).setWidth 8,
    (last &&& 0x7f).setWidth 8]

/-- The buffer with its last four bytes and the closing zero, or `none` for `goto again`. -/
def close (drawn : List U8) (last : U32) : Option (List U8) :=
  if last = 0 then none
  else
    let buffer := drawn ++ tail last ++ [0]
    if 0x2e ∈ buffer.take namelen ∨ 0x2f ∈ buffer.take namelen then none else some buffer

/-- What is done with the drawn bytes. -/
def finish (drawn : List U8) : Option (List U8) :=
  let hash := rol32 (xfsDaHashname drawn 248) (7 * 4)
  close drawn (hash ^^^ ~~~0)

theorem length_genRand : ∀ {s : List U8} {r : U8} {s' : List U8}, genRand s = some (r, s') → s'.length < s.length
  | [], _, _, h => by cases h
  | b :: s, r, s', h => by
    rw [genRand] at h
    split at h
    · exact Nat.lt_succ_of_lt (length_genRand h)
    · cases h
      exact Nat.lt_succ_self _

theorem genRands_spec {n : Nat} : ∀ {s bs s' : List U8}, genRands n s = some (bs, s') →
    bs.length = n ∧ s'.length + n ≤ s.length := by
  induction n with
  | zero =>
    intro s bs s' h
    cases h
    exact ⟨rfl, Nat.le_refl _⟩
  | succ n ih =>
    intro s bs s' h
    rw [genRands] at h
    cases hr : genRand s with
    | none =>
      rw [hr] at h
      cases h
    | some x =>
      obtain ⟨r, s₁⟩ := x
      rw [hr] at h
      obtain ⟨⟨bs', s₂⟩, hx, heq⟩ := Option.map_eq_some_iff.1 h
      cases heq
      obtain ⟨hlen, hle⟩ := ih hx
      have hlt := length_genRand hr
      refine ⟨congrArg (· + 1) hlen, ?_⟩
      dsimp only at hle ⊢
      omega

/-- `again:` draws `n` bytes until they are accepted. -/
def again (n : Nat) (hn : 0 < n) (finish : List U8 → Option (List U8)) (s : List U8) : Option (List U8 × List U8) :=
  match _h : genRands n s with
  | none => none
  | some (drawn, rest) =>
    match finish drawn with
    | some buffer => some (buffer, rest)
    | none => again n hn finish rest
termination_by s.length
decreasing_by
  have hle := (genRands_spec _h).2
  omega

/-- `g339_gen_name()`: the buffer with its closing zero, and the bytes that were not drawn. -/
def genName (s : List U8) : Option (List U8 × List U8) := again (namelen - 4) (by decide) finish s

/-! ## Bit by bit -/

theorem bit_rol {w : U32} {j : Nat} (hj : j < 32) : (rol32 w (7 * 4)).getLsbD j = w.getLsbD ((j + 4) % 32) := by
  unfold rol32
  rw [BitVec.getLsbD_or, BitVec.getLsbD_shiftLeft, BitVec.getLsbD_ushiftRight]
  by_cases h : j < 28
  · have hmod : (j + 4) % 32 = 4 + j := by omega
    rw [hmod]
    simp [h]
  · have hmod : (j + 4) % 32 = j - 28 := by omega
    have hout : w.getLsbD (4 + j) = false := BitVec.getLsbD_of_ge w (4 + j) (by omega)
    rw [hmod]
    simp [h, hj, hout]

/-- The four bytes give back the low 29 bits of `last`. -/
theorem bit_tail (last : U32) {j : Nat} (hj : j < 32) :
    (word (((last >>> 21) &&& 0xff).setWidth 8) (((last >>> 14) &&& 0x7f).setWidth 8)
        (((last >>> 7) &&& 0x7f).setWidth 8) ((last &&& 0x7f).setWidth 8)).getLsbD j =
      (decide (j < 29) && last.getLsbD j) := by
  have h7 : ∀ i, (0x7f : U32).getLsbD i = decide (i < 7) := by
    intro i
    rw [show (0x7f : U32) = BitVec.ofNat 32 (2 ^ 7 - 1) from rfl, BitVec.getLsbD_ofNat, Nat.testBit_two_pow_sub_one]
    by_cases h : i < 7
    · simp [h, Nat.lt_trans h]
    · simp [h]
  have h8 : ∀ i, (0xff : U32).getLsbD i = decide (i < 8) := by
    intro i
    rw [show (0xff : U32) = BitVec.ofNat 32 (2 ^ 8 - 1) from rfl, BitVec.getLsbD_ofNat, Nat.testBit_two_pow_sub_one]
    by_cases h : i < 8
    · simp [h, Nat.lt_trans h]
    · simp [h]
  unfold word
  simp only [BitVec.getLsbD_xor, BitVec.getLsbD_shiftLeft, BitVec.getLsbD_setWidth, BitVec.getLsbD_and,
    BitVec.getLsbD_ushiftRight, h7, h8]
  -- every bit is in one of the four fields, or above them
  by_cases h29 : j < 29
  · by_cases h21 : j < 21
    · by_cases h14 : j < 14
      · by_cases h : j < 7
        · simp [h, hj, h14, h21, h29, show j < 8 by omega]
        · simp [h, hj, h14, h21, h29, show j - 7 < 7 by omega, show j - 7 < 8 by omega, show j - 7 < 32 by omega,
            show 7 + (j - 7) = j by omega]
      · simp [hj, h14, h21, h29, show ¬ j < 7 by omega, show j - 14 < 7 by omega, show j - 14 < 8 by omega,
          show j - 14 < 32 by omega, show ¬ j - 7 < 7 by omega, show 14 + (j - 14) = j by omega]
    · simp [hj, h21, h29, show ¬ j < 7 by omega, show ¬ j < 14 by omega, show j - 21 < 8 by omega,
        show j - 21 < 32 by omega, show ¬ j - 7 < 7 by omega, show ¬ j - 14 < 7 by omega,
        show 21 + (j - 21) = j by omega]
  · simp [hj, h29, show ¬ j < 7 by omega, show ¬ j < 14 by omega, show ¬ j < 21 by omega, show ¬ j - 7 < 7 by omega,
      show ¬ j - 14 < 7 by omega, show ¬ j - 21 < 8 by omega]

/-- The words the hash reads. -/
def words : List U8 → List U32
  | n0 :: n1 :: n2 :: n3 :: name => word n0 n1 n2 n3 :: words name
  | _ => []

/-- The exclusive or of one bit of each word, four places further from word to word. -/
def parity : List U32 → Nat → Bool
  | [], _ => false
  | w :: ws, j => (w.getLsbD ((j + 4 * ws.length) % 32)).xor (parity ws j)

theorem bit_hashFrom {j : Nat} (hj : j < 32) : ∀ (hash : U32) (name : List U8),
    (hashFrom hash name).getLsbD j = (hash.getLsbD ((j + 4 * (words name).length) % 32)).xor (parity (words name) j)
  | hash, n0 :: n1 :: n2 :: n3 :: name => by
    have hlt : (j + 4 * (words name).length) % 32 < 32 := Nat.mod_lt _ (by decide)
    have hplace : ((j + 4 * (words name).length) % 32 + 4) % 32 = (j + 4 * ((words name).length + 1)) % 32 := by omega
    rw [hashFrom, bit_hashFrom hj _ name, BitVec.getLsbD_xor, bit_rol hlt, hplace, words, parity, List.length_cons]
    generalize hash.getLsbD _ = x
    generalize (word n0 n1 n2 n3).getLsbD _ = y
    generalize parity (words name) j = z
    cases x <;> cases y <;> cases z <;> rfl
  | hash, [] => by simp [hashFrom, words, parity, Nat.mod_eq_of_lt hj]
  | hash, [_] => by simp [hashFrom, words, parity, Nat.mod_eq_of_lt hj]
  | hash, [_, _] => by simp [hashFrom, words, parity, Nat.mod_eq_of_lt hj]
  | hash, [_, _, _] => by simp [hashFrom, words, parity, Nat.mod_eq_of_lt hj]

/-- A last word after whole words. -/
theorem hashFrom_snoc (n0 n1 n2 n3 : U8) : ∀ (hash : U32) (name : List U8), 4 ∣ name.length →
    hashFrom hash (name ++ [n0, n1, n2, n3]) = word n0 n1 n2 n3 ^^^ rol32 (hashFrom hash name) (7 * 4)
  | _, [], _ => rfl
  | _, _ :: _ :: _ :: _ :: name, h => by
    rw [List.cons_append, List.cons_append, List.cons_append, List.cons_append, hashFrom, hashFrom]
    refine hashFrom_snoc n0 n1 n2 n3 _ name ?_
    simp only [List.length_cons] at h
    omega
  | _, [_], h => absurd h (by simp)
  | _, [_, _], h => absurd h (by simp)
  | _, [_, _, _], h => absurd h (by simp)

/-! ## The names -/

theorem close_spec {drawn buffer : List U8} {last : U32} (h : close drawn last = some buffer) :
    buffer = drawn ++ tail last ++ [0] := by
  unfold close at h
  split at h
  · cases h
  · dsimp only at h
    split at h
    · cases h
    · exact (Option.some.inj h).symm

/-- What is returned was accepted. -/
theorem again_spec {n : Nat} (hn : 0 < n) {finish : List U8 → Option (List U8)} (s : List U8) {buffer rest : List U8}
    (h : again n hn finish s = some (buffer, rest)) : ∃ drawn, drawn.length = n ∧ finish drawn = some buffer := by
  induction s using again.induct n hn finish with
  | case1 s hnone =>
    rw [again] at h
    split at h
    · cases h
    · rename_i hsome
      cases hnone.symm.trans hsome
  | case2 s drawn rest' hdraw buffer' hfinish =>
    rw [again] at h
    split at h
    · cases h
    · rename_i hsome
      cases hdraw.symm.trans hsome
      rw [hfinish] at h
      cases h
      exact ⟨drawn, (genRands_spec hdraw).1, hfinish⟩
  | case3 s drawn rest' hdraw hfinish ih =>
    rw [again] at h
    split at h
    · cases h
    · rename_i hsome
      cases hdraw.symm.trans hsome
      rw [hfinish] at h
      exact ih h

theorem take_left {drawn l : List U8} {n : Nat} (h : drawn.length = n) : (drawn ++ l).take n = drawn := by
  subst h
  exact List.take_left

theorem again_of {n : Nat} {hn : 0 < n} {finish : List U8 → Option (List U8)} {s drawn buffer rest : List U8}
    (hdraw : genRands n s = some (drawn, rest)) (hfinish : finish drawn = some buffer) :
    again n hn finish s = some (buffer, rest) := by
  rw [again]
  split
  · rename_i hnone
    cases hdraw.symm.trans hnone
  · rename_i hsome
    cases hdraw.symm.trans hsome
    rw [hfinish]

/-- Bit `j` of the hash of a name. -/
theorem bit_hash {s buffer rest : List U8} (h : genName s = some (buffer, rest)) {j : Nat} (hj : j < 32) :
    (xfsDaHashname buffer namelen).getLsbD j = (decide (j < 29) || parity (words (buffer.take 248)) (j - 28)) := by
  obtain ⟨drawn, hlen, hfinish⟩ := again_spec _ s h
  have hlen : drawn.length = 248 := hlen
  have hbuffer := close_spec hfinish
  obtain ⟨last, hlast⟩ : ∃ last, last = rol32 (xfsDaHashname drawn 248) (7 * 4) ^^^ ~~~0 := ⟨_, rfl⟩
  rw [← hlast] at hbuffer
  have hdrawn : buffer.take 248 = drawn := by rw [hbuffer, List.append_assoc, take_left hlen]
  have hname : xfsDaHashname buffer namelen = hashFrom 0 (drawn ++ tail last) := by
    rw [xfsDaHashname, hbuffer, take_left (by rw [List.length_append, hlen]; rfl)]
  have hwhole : xfsDaHashname drawn 248 = hashFrom 0 drawn := by
    rw [xfsDaHashname, List.take_of_length_le (Nat.le_of_eq hlen)]
  rw [hwhole] at hlast
  have hzero : ∀ i, (0 : U32).getLsbD i = false := fun _ => BitVec.getLsbD_zero
  rw [hdrawn, hname, tail, hashFrom_snoc _ _ _ _ _ _ ⟨62, hlen⟩, BitVec.getLsbD_xor, bit_tail last hj, hlast,
    BitVec.getLsbD_xor, bit_rol hj, BitVec.getLsbD_not, hzero]
  by_cases h29 : j < 29
  · simp [h29, hj]
  · have hplace : (j + 4) % 32 = j - 28 := by omega
    rw [hplace, bit_hashFrom (by omega), hzero]
    simp [h29]

/-- Two names have the same hash exactly when their drawn bytes agree in the three bits that are left over. -/
theorem same_hash_iff {s s' buffer buffer' rest rest' : List U8} (h : genName s = some (buffer, rest))
    (h' : genName s' = some (buffer', rest')) :
    xfsDaHashname buffer namelen = xfsDaHashname buffer' namelen ↔
      ∀ j ∈ [1, 2, 3], parity (words (buffer.take 248)) j = parity (words (buffer'.take 248)) j := by
  constructor
  · intro heq j hj
    have hlt : j + 28 < 32 ∧ ¬ j + 28 < 29 := by
      simp only [List.mem_cons, List.not_mem_nil, or_false] at hj
      omega
    have hbit := congrArg (BitVec.getLsbD · (j + 28)) heq
    rwa [bit_hash h hlt.1, bit_hash h' hlt.1, decide_eq_false hlt.2, Bool.false_or, Bool.false_or, Nat.add_sub_cancel]
      at hbit
  · intro hbits
    apply BitVec.eq_of_getLsbD_eq
    intro j hj
    rw [bit_hash h hj, bit_hash h' hj]
    by_cases h29 : j < 29
    · simp [h29]
    · have hmem : j - 28 ∈ [1, 2, 3] := by
        simp only [List.mem_cons, List.not_mem_nil, or_false]
        omega
      rw [hbits _ hmem]

/-- 248 random bytes: ones, and then the last. -/
def ones (last : U8) : List U8 := List.replicate 247 1 ++ [last]

def onesName (last : U8) : List U8 := ones last ++ [0xee, 0x6e, 0x6e, 0x6e] ++ [0]

theorem genName_ones {last : U8} (hdraw : genRands 248 (ones last) = some (ones last, []))
    (hfinish : finish (ones last) = some (onesName last)) : genName (ones last) = some (onesName last, []) :=
  again_of hdraw hfinish

theorem genName_one : genName (ones 1) = some (onesName 1, []) := genName_ones (by decide +kernel) (by decide +kernel)

theorem genName_three : genName (ones 3) = some (onesName 3, []) := genName_ones (by decide +kernel) (by decide +kernel)

theorem same_hash_iff_ones : xfsDaHashname (onesName 1) namelen = xfsDaHashname (onesName 3) namelen ↔
    ∀ j ∈ [1, 2, 3], parity (words ((onesName 1).take 248)) j = parity (words ((onesName 3).take 248)) j :=
  same_hash_iff genName_one genName_three

/-- There is no one hash that all names have. -/
theorem no_fixed_hash : ¬ ∃ hash, ∀ s buffer rest, genName s = some (buffer, rest) →
    xfsDaHashname buffer namelen = hash := by
  rintro ⟨hash, hall⟩
  have hone : xfsDaHashname (onesName 1) namelen = 0x1fffffff := by decide +kernel
  have hthree : xfsDaHashname (onesName 3) namelen = 0x3fffffff := by decide +kernel
  have heq := (hall _ _ _ genName_one).trans (hall _ _ _ genName_three).symm
  rw [hone, hthree] at heq
  exact absurd heq (by decide)

end NfsPlayground.Generic.G339
