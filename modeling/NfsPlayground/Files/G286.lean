import NfsPlayground.Lib.Bytes

/-!
# generic/286: a sparse file is copied with SEEK_DATA and SEEK_HOLE

The walk copies what the file system says is data. Which extents it names is a parameter, and so is the set of data
regions they are taken from; `Consistent` is what the two calls promise. A walk over the extents ends, writes nothing
outside the data regions and leaves a copy of the source (`walk_copies`).
-/

namespace NfsPlayground.Files.G286

open Bytes

def G286_SZ : Nat := 256 * 1024
def G286_ISLAND_SZ : Nat := 8192

def ENXIO : Int := 6

/-! ## The walk -/

/-- The answers to SEEK_DATA and SEEK_HOLE in a round, by the offset asked for. -/
structure Seeks where
  data : Nat → Nat → Int
  hole : Nat → Nat → Int

/-- The assertions of the walk. -/
inductive Failed
  | data
  | hole
  | read
  | write
  deriving DecidableEq

/-- The copy so far, and where it has been written to. -/
structure Copy where
  out : File
  islands : Int
  written : List (Nat × Nat)

def kernel_read (f : File) (len off : Nat) : List UInt8 := (f.drop off).take len

def kernel_write (f : File) (buf : List UInt8) (off : Nat) : Nat × File := (buf.length, f.write off buf)

/-- The inner loop, over one extent. -/
def copyExtent (src : File) (data hole : Nat) (s : Copy) : Except Failed Copy :=
  if data < hole then
    let chunk := min (hole - data) G286_ISLAND_SZ
    let buf := kernel_read src chunk data
    if buf.length = chunk then
      let w := kernel_write s.out buf data
      if w.1 = chunk then
        copyExtent src (data + chunk) hole { s with out := w.2, written := s.written ++ [(data, chunk)] }
      else .error .write
    else .error .read
  else .ok s
termination_by hole - data
decreasing_by
  simp only [G286_ISLAND_SZ]
  omega

/-- The walk, with a bound on its rounds. -/
def walk (src : File) (seeks : Seeks) : Nat → Nat → Nat → Copy → Option (Except Failed Copy)
  | 0, _, _, _ => none
  | fuel + 1, round, pos, s =>
    let data := seeks.data round pos
    if data = - ENXIO then some (.ok s)
    else if data < 0 then some (.error .data)
    else
      let hole := seeks.hole round data.toNat
      if hole ≤ data then some (.error .hole)
      else
        match copyExtent src data.toNat hole.toNat { s with islands := s.islands + 1 } with
        | .error e => some (.error e)
        | .ok t => walk src seeks fuel (round + 1) hole.toNat t

/-! ## What the file system promises -/

/-- The answers name data regions that cover every byte that is not zero. -/
structure Consistent (src : File) (region : Nat → Prop) (seeks : Seeks) : Prop where
  covers : ∀ i, src.byte i ≠ 0 → region i
  /-- SEEK_DATA answers the next offset in a region, and that there is none only if there is none. -/
  data : ∀ round pos, (seeks.data round pos = - ENXIO ∧ ∀ i, pos ≤ i → ¬ region i) ∨
    ∃ d : Nat, seeks.data round pos = d ∧ pos ≤ d ∧ region d ∧ ∀ i, pos ≤ i → i < d → ¬ region i
  /-- SEEK_HOLE answers an offset up to which there is data. -/
  hole : ∀ round d, region d →
    ∃ h : Nat, seeks.hole round d = h ∧ d < h ∧ h ≤ src.length ∧ ∀ i, d ≤ i → i < h → region i

/-- The copy is that of the first bytes of the source, and was written in data regions. -/
structure CopiedTo (src : File) (region : Nat → Prop) (pos : Nat) (s : Copy) : Prop where
  byte : ∀ i, s.out.byte i = if i < pos then src.byte i else 0
  written : ∀ w ∈ s.written, ∀ i, w.1 ≤ i → i < w.1 + w.2 → region i

variable {src : File} {region : Nat → Prop} {pos data hole : Nat} {s : Copy}

/-- Bytes outside the data regions need no copying. -/
theorem CopiedTo.skip (h : CopiedTo src region pos s) (hcovers : ∀ i, src.byte i ≠ 0 → region i)
    (hskip : ∀ i, pos ≤ i → i < data → ¬ region i) (hle : pos ≤ data) : CopiedTo src region data s := by
  refine ⟨fun i => ?_, h.written⟩
  have hzero : ¬ region i → src.byte i = 0 := fun hi => not_not.1 (mt (hcovers i) hi)
  rw [h.byte]
  by_cases hpos : i < pos
  · simp [hpos, Nat.lt_of_lt_of_le hpos hle]
  · by_cases hdata : i < data
    · simp [hpos, hdata, hzero (hskip i (by omega) hdata)]
    · simp [hpos, hdata]

theorem length_read {chunk : Nat} (h : data + chunk ≤ src.length) : (kernel_read src chunk data).length = chunk := by
  simp only [kernel_read, List.length_take, List.length_drop]
  omega

/-- A chunk of a data region is copied. -/
theorem CopiedTo.chunk {chunk : Nat} (h : CopiedTo src region data s) (hpos : 0 < chunk)
    (hle : data + chunk ≤ src.length) (hregion : ∀ i, data ≤ i → i < data + chunk → region i) :
    CopiedTo src region (data + chunk)
      { s with out := s.out.write data (kernel_read src chunk data), written := s.written ++ [(data, chunk)] } := by
  have hlen := length_read hle
  have hne : kernel_read src chunk data ≠ [] := fun hnil => by simp [hnil] at hlen; omega
  constructor
  · intro i
    rw [File.byte_write hne, hlen, h.byte]
    by_cases hin : data ≤ i ∧ i < data + chunk
    · have hi : i - data < chunk := by omega
      simp only [hin, and_self, if_true, kernel_read, List.getD_eq_getElem?_getD, List.getElem?_take, hi,
        List.getElem?_drop, File.byte]
      congr 2
      omega
    · rw [if_neg hin]
      by_cases hi : i < data
      · simp [hi, Nat.lt_of_lt_of_le hi (Nat.le_add_right data chunk)]
      · have hi' : ¬ i < data + chunk := fun hlt => hin ⟨by omega, hlt⟩
        simp [hi, hi']
  · intro w hw
    rcases List.mem_append.1 hw with hw | hw
    · exact h.written w hw
    · rw [List.mem_singleton.1 hw]
      exact hregion

/-- An extent is copied, whether or not the chunks divide it. -/
theorem copyExtent_spec (hhole : hole ≤ src.length) : ∀ {data s}, CopiedTo src region data s → data ≤ hole →
    (∀ i, data ≤ i → i < hole → region i) → ∃ t, copyExtent src data hole s = .ok t ∧ CopiedTo src region hole t := by
  intro data s
  induction data, s using copyExtent.induct src hole with
  | case1 data s hlt chunk buf hread w hwrite ih =>
    intro h hle hregion
    have hpos : 0 < chunk := by simp only [chunk, G286_ISLAND_SZ]; omega
    have hchunk : data + chunk ≤ hole := by omega
    have hstep := h.chunk hpos (by omega) fun i hi hi' => hregion i hi (by omega)
    obtain ⟨t, hrun, ht⟩ := ih hstep hchunk fun i hi hi' => hregion i (by omega) hi'
    refine ⟨t, ?_, ht⟩
    rw [copyExtent]
    simp only [hlt, if_true]
    rw [if_pos hread, if_pos hwrite]
    exact hrun
  | case2 data s hlt chunk buf hread w hwrite => exact absurd hread hwrite
  | case3 data s hlt chunk buf hread =>
    intro _ _ _
    exact absurd (length_read (by omega)) hread
  | case4 data s hge =>
    intro h hle _
    have heq : data = hole := by omega
    subst heq
    exact ⟨s, by rw [copyExtent, if_neg hge], h⟩

/-- From any position the walk ends, and has then copied everything. -/
theorem walk_spec {seeks : Seeks} (hc : Consistent src region seeks) : ∀ (fuel round : Nat) {pos : Nat} {s : Copy},
    CopiedTo src region pos s → pos ≤ src.length → src.length < pos + fuel →
      ∃ t end', walk src seeks fuel round pos s = some (.ok t) ∧ CopiedTo src region end' t ∧
        ∀ i, end' ≤ i → ¬ region i := by
  intro fuel
  induction fuel with
  | zero =>
    intro round pos s h hpos hfuel
    omega
  | succ fuel ih =>
    intro round pos s h hpos hfuel
    rcases hc.data round pos with ⟨hnone, hend⟩ | ⟨d, hd, hle, hregion, hskip⟩
    · refine ⟨s, pos, ?_, h, hend⟩
      simp [walk, hnone]
    · obtain ⟨hole, hhole, hlt, hlen, hdata⟩ := hc.hole round d hregion
      have hskipped := h.skip hc.covers hskip hle
      have hstart : CopiedTo src region d { s with islands := s.islands + 1 } := ⟨hskipped.byte, hskipped.written⟩
      obtain ⟨t, hrun, ht⟩ := copyExtent_spec hlen hstart (Nat.le_of_lt hlt) hdata
      obtain ⟨u, last, hwalk, hu, hlast⟩ := ih (round + 1) ht hlen (by omega)
      refine ⟨u, last, ?_, hu, hlast⟩
      have hno : ¬ (d : Int) = - ENXIO := by simp only [ ENXIO]; omega
      have hpos : ¬ (d : Int) < 0 := by omega
      have hgt : ¬ (hole : Int) ≤ d := by omega
      rw [walk]
      simp only [hd, hno, hpos, Int.toNat_natCast, hhole, hgt, if_false, hrun]
      exact hwalk

/-- Whatever the data regions are and however the answers cut them up, the walk ends, has written in data regions only,
and its copy, once it is truncated to the size of the source, is the source. -/
theorem walk_copies {src : File} (hsize : src.length = G286_SZ) {region : Nat → Prop} {seeks : Seeks}
    (hc : Consistent src region seeks) {fuel : Nat} (hfuel : G286_SZ < fuel) :
    ∃ t, walk src seeks fuel 0 0 ⟨[], 0, []⟩ = some (.ok t) ∧
      (∀ w ∈ t.written, ∀ i, w.1 ≤ i → i < w.1 + w.2 → region i) ∧ t.out.truncate G286_SZ = src := by
  have hstart : CopiedTo src region 0 ⟨[], 0, []⟩ := ⟨fun i => by simp [File.byte], by simp⟩
  obtain ⟨t, last, hrun, ht, hlast⟩ := walk_spec hc fuel 0 hstart (Nat.zero_le _) (by omega)
  refine ⟨t, hrun, ht.written, File.eq_of_byte (by simp [hsize]) fun i => ?_⟩
  rw [File.byte_truncate, ht.byte]
  by_cases hi : i < G286_SZ
  · by_cases hi' : i < last
    · simp [hi, hi']
    · have hzero : src.byte i = 0 := not_not.1 (mt (hc.covers i) (hlast i (by omega)))
      simp [hi, hi', hzero]
  · simp [hi, File.byte_past (show src.length ≤ i by omega)]

/-- A file with one island, at its beginning. -/
def island : File := List.replicate G286_ISLAND_SZ 0xB0 ++ List.replicate (G286_SZ - G286_ISLAND_SZ) 0

/-- The answers of a file system that knows no smaller extents than pages. -/
def islandSeeks : Seeks where
  data _ pos := if pos < G286_ISLAND_SZ then pos else - ENXIO
  hole _ pos := (pos / 4096 + 1) * 4096

theorem length_island : island.length = G286_SZ := by
  rw [island, List.length_append, List.length_replicate, List.length_replicate]
  rfl

theorem island_consistent : Consistent island (· < G286_ISLAND_SZ) islandSeeks where
  covers i hi := by
    by_contra hge
    apply hi
    have hlen : (List.replicate G286_ISLAND_SZ (0xB0 : UInt8)).length ≤ i := by simp; omega
    simp only [island, File.byte, List.getD_eq_getElem?_getD, List.getElem?_append_right hlen, List.getElem?_replicate]
    split <;> rfl
  data _ pos := by
    by_cases hpos : pos < G286_ISLAND_SZ
    · exact Or.inr ⟨pos, by simp [islandSeeks, hpos], Nat.le_refl _, hpos, fun i hi hi' => by omega⟩
    · exact Or.inl ⟨by simp [islandSeeks, hpos], fun i hi hi' => by omega⟩
  hole _ d hd := by
    refine ⟨(d / 4096 + 1) * 4096, by simp [islandSeeks], by omega, ?_, fun i hi hi' => ?_⟩
    · rw [length_island]
      simp only [G286_ISLAND_SZ] at hd
      simp only [G286_SZ]
      omega
    · simp only [G286_ISLAND_SZ] at hd ⊢
      omega

/-- The island is copied in two extents of a page. -/
theorem walk_copies_island : ∃ t, walk island islandSeeks (G286_SZ + 1) 0 0 ⟨[], 0, []⟩ = some (.ok t) ∧
    (∀ w ∈ t.written, ∀ i, w.1 ≤ i → i < w.1 + w.2 → i < G286_ISLAND_SZ) ∧ t.out.truncate G286_SZ = island :=
  walk_copies length_island island_consistent (Nat.lt_succ_self _)

end NfsPlayground.Files.G286
