import NfsPlayground.Generic.G001Chain
import NfsPlayground.Races.World

/-!
# generic/001: iterations

The files that a chain leaves pass `gen001_check()`, and another iteration can start from them. The originals are made
by `setup`, where the export has nothing at the root of the test.
-/

namespace NfsPlayground.Generic.G001

open Lines Posix
open Races (Path XFS_MNT decimal mountedFs mountedFs_tidy_get mountedFs_mnt mountedFs_free)

variable {R : Type} (g : Prandom R)

/-! ## Comparisons -/

section Verify

variable {g} {S : Contents} {w : World} {x : Nat} {l : Int}

/-- A file that goes on with the rest of the stream passes. -/
theorem verifyLoop_ok {k bytes : Nat} : ∀ (left : Nat) {off : Nat} {st : R} {b : List UInt8},
    w.fs.data k = b ++ streamFrom g st left → b.length = off → bytes = off + left →
    verifyLoop g k bytes off st off w = .ok w := by
  intro left
  induction left using Nat.strong_induction_on with
  | _ left ih =>
    intro off st b hdata hoff hbytes
    unfold verifyLoop
    rw [streamFrom] at hdata
    by_cases hleft : left = 0
    · rw [if_pos hleft, List.append_nil] at hdata
      have hread : w.fs.read k off 1 = [] := by rw [Fs.read, hdata, ← hoff, List.drop_length, List.take_nil]
      rw [if_neg (by omega), hread]
      simp
    · rw [if_neg hleft] at hdata
      dsimp only at hdata ⊢
      obtain ⟨n, hn⟩ : ∃ n, n = min left GEN001_CHUNK := ⟨_, rfl⟩
      have hpos : 0 < n := by
        rw [hn, GEN001_CHUNK]
        omega
      have hrest : bytes - off = left := by omega
      rw [← hn] at hdata
      have hread : w.fs.read k off n = (gen001_fill_chunk g st n).1 := by
        rw [Fs.read, hdata, ← hoff, List.drop_left, List.take_append_of_le_length (by rw [length_fill]), ]
        exact List.take_of_length_le (by rw [length_fill])
      rw [if_pos (by omega), hrest, ← hn, hread, length_fill, if_neg (not_not.2 rfl), if_neg (not_not.2 rfl)]
      refine ih (left - n) (by omega) (b := b ++ (gen001_fill_chunk g st n).1) ?_ ?_ (by omega)
      · rw [hdata, List.append_assoc]
      · rw [List.length_append, length_fill, hoff]

theorem verify_ok (h : Files S w.fs) (hx : x < GEN001_NFILES) (hl : -2 ≤ l) (hs : S x l = some (stream g x)) :
    gen001_verify_content g (entry x).rel (path x l) (entry x).bytes w = .ok w := by
  obtain ⟨k, hget, hdata⟩ := h.get hx hl hs
  unfold gen001_verify_content
  rw [h.openFile hx hget]
  dsimp only
  rw [if_neg (by omega), Int.toNat_natCast]
  exact verifyLoop_ok (entry x).bytes (b := []) hdata rfl (Nat.zero_add _).symm

theorem check_ok {old : Nat → Bool} (h : Files (Shape g old (fun _ => 0) (fun _ => 0)) w.fs) :
    gen001_check g w = .ok w := by
  have hstep : ∀ x a, x < GEN001_NFILES → a = w → Ends (ε := Left) (fun b => b = w) (fun _ => False)
      (checkStep g a x) := by
    rintro x a hx rfl
    have horig : gen001_verify_content g (entry x).rel (path x (-1)) (entry x).bytes a = .ok a :=
      verify_ok h hx (by omega) (shape_some (Or.inl rfl))
    have hlast := h.resolves hx (l := -2) (by omega)
    unfold checkStep
    change Ends _ _ (gen001_verify_content g (entry x).rel (path x (-1)) (entry x).bytes a >>= fun w =>
      if w.fs.resolves (path x (-2)) then gen001_verify_content g (entry x).rel (path x (-2)) (entry x).bytes w
      else pure w)
    rw [horig]
    show Ends _ _ (if a.fs.resolves (path x (-2)) then _ else _)
    rw [hlast]
    split
    · rename_i hsome
      have hne := shape_ne_none.1 (Option.isSome_iff_ne_none.1 hsome)
      rw [verify_ok h hx (by omega) (shape_some hne)]
      rfl
    · rfl
  obtain ⟨w', hw', rfl⟩ := (Ends.foldlM_range (I := fun _ b => b = w) GEN001_NFILES hstep rfl).exists_ok
  exact hw'

end Verify

/-! ## Iterations -/

/-- The directories and the originals are there, and nothing else. -/
def Originals (fs : Fs Text) : Prop := Files (fun x l => if l = -1 then some (stream g x) else none) fs

/-- The entry was picked in one of the first `n` iterations. -/
def PickedBefore (ncopy : Nat → Nat) (draw : Nat → Nat → UInt32) (n x : Nat) : Prop :=
  ∃ iter < n, ∃ i < ncopy iter, pick (draw iter) i = x

structure Iterated (ncopy : Nat → Nat) (draw : Nat → Nat → UInt32) (n : Nat) (w : World) : Prop where
  link : ∀ x, w.link x = 0
  failed : w.failed = false
  files : ∃ old, Files (Shape g old (fun _ => 0) (fun _ => 0)) w.fs ∧
    ∀ x < GEN001_NFILES, old x = true ↔ PickedBefore ncopy draw n x

section Iterations

variable {g} {ncopy : Nat → Nat} {draw : Nat → Nat → UInt32} {w : World} {n : Nat}

theorem originals_shape {fs : Fs Text} (h : Originals g fs) :
    Files (Shape g (fun _ => false) (fun _ => 0) (fun _ => 0)) fs := by
  refine h.congr (w := ⟨fs, fun _ => 0, false⟩) fun x l _ _ => ?_
  unfold Shape
  refine if_congr ⟨Or.inl, fun hor => hor.resolve_right ?_⟩ rfl rfl
  rintro (⟨-, hf⟩ | hnum)
  · cases hf
  · omega

variable (ncopy draw) in
/-- No iteration is left, and no comparison fails. -/
theorem iterations_ok (h : Originals g w.fs) (hlink : ∀ x, w.link x = 0) (hfailed : w.failed = false) (n : Nat) :
    ∃ w', iterations g ncopy draw n w = .ok w' ∧ Iterated g ncopy draw n w' := by
  have hstart : Iterated g ncopy draw 0 w := by
    refine ⟨hlink, hfailed, fun _ => false, originals_shape h, fun x _ => ?_⟩
    exact iff_of_false (fun hf => by cases hf) fun ⟨_, hlt, _⟩ => absurd hlt (Nat.not_lt_zero _)
  refine (Ends.foldlM_range (E := fun _ : Left => False) n (fun iter a _ ha => ?_) hstart).exists_ok
  obtain ⟨old, hfiles, hold⟩ := ha.files
  have hends := chain_ends none (ncopy iter) (draw iter) hfiles ha.link
  refine (hends.mono (fun _ hq => hq) ?_).bind ?_
  · rintro (w' | _) hrem
    · obtain ⟨s, S, hs, -⟩ := hrem
      cases hs
    · exact hrem
  · rintro w' ⟨hlink', hfailed', hfiles', -⟩
    rw [check_ok hfiles']
    refine ⟨hlink', hfailed'.trans ha.failed, _, hfiles', fun x hx => ?_⟩
    rw [lasts, Bool.or_eq_true, Bool.and_eq_true, decide_eq_true_iff, decide_eq_true_iff, and_iff_right hx,
      copies_ne_zero, hold x hx]
    unfold PickedBefore
    rw [Nat.exists_lt_succ_right]

/-- The names that are there after some iterations. -/
def Present (ncopy : Nat → Nat) (draw : Nat → Nat → UInt32) (n : Nat) (p : Path) : Prop :=
  ∃ x < GEN001_NFILES, p = path x (-1) ∨ (p = path x (-2) ∧ PickedBefore ncopy draw n x)

theorem Iterated.names (h : Iterated g ncopy draw n w) {p : Path} (hp : GEN001_ROOT <+: p) :
    w.fs.get p ≠ none ↔ p = GEN001_ROOT ∨ p = GEN001_SUB ∨ Present ncopy draw n p := by
  obtain ⟨old, hfiles, hold⟩ := h.files
  have hpath : ∀ {x l}, x < GEN001_NFILES → -2 ≤ l →
      (w.fs.get (path x l) ≠ none ↔ Shape g old (fun _ => 0) (fun _ => 0) x l ≠ none) := by
    intro x l hx hl
    refine ⟨fun hne hs => hne (hfiles.none hx hl hs), fun hne hget => ?_⟩
    obtain ⟨b, hb⟩ := Option.ne_none_iff_exists'.1 hne
    obtain ⟨k, hk, -⟩ := hfiles.get hx hl hb
    rw [hk] at hget
    cases hget
  constructor
  · intro hne
    cases hget : w.fs.get p with
    | none => exact absurd hget hne
    | some node =>
      cases node with
      | dir => exact (hfiles.stage.only p hp hget).imp_right Or.inl
      | file k =>
        have hcontent : w.fs.content p ≠ none := by
          rw [Fs.content_of_get hget]
          simp
        obtain ⟨x, l, hx, hl, rfl⟩ := hfiles.named p hp hcontent
        rcases shape_ne_none.1 ((hpath hx hl).1 hne) with rfl | ⟨rfl, ho⟩ | hnum
        · exact Or.inr (Or.inr ⟨x, hx, Or.inl rfl⟩)
        · exact Or.inr (Or.inr ⟨x, hx, Or.inr ⟨rfl, (hold x hx).1 ho⟩⟩)
        · omega
  · rintro (rfl | rfl | ⟨x, hx, rfl | ⟨rfl, hpicked⟩⟩)
    · rw [hfiles.stage.root]
      simp
    · rw [hfiles.stage.sub]
      simp
    · exact (hpath hx (by omega)).2 (shape_ne_none.2 (Or.inl rfl))
    · exact (hpath hx (by omega)).2 (shape_ne_none.2 (Or.inr (Or.inl ⟨rfl, (hold x hx).2 hpicked⟩)))

theorem Iterated.content (h : Iterated g ncopy draw n w) {x : Nat} {l : Int} {b : List UInt8} (hx : x < GEN001_NFILES)
    (hl : -2 ≤ l) (hb : w.fs.content (path x l) = some b) : b = stream g x := by
  obtain ⟨old, hfiles, -⟩ := h.files
  rw [hfiles.content x l hx hl] at hb
  have hne : Shape g old (fun _ => 0) (fun _ => 0) x l ≠ none := by
    rw [hb]
    simp
  rw [shape_some (shape_ne_none.1 hne)] at hb
  exact (Option.some.inj hb).symm

end Iterations

/-- For every number of copies and every draw, the iterations go on to the end: no copy finds its source missing or its
destination there, no rename or unlink fails, and no comparison. Then the counters are zero, the names are those of the
originals and of a `.last` for each entry picked so far, and each holds the stream of its entry. -/
theorem chain_copier_never_trips {w : World} (h : Originals g w.fs) (hlink : ∀ x, w.link x = 0)
    (hfailed : w.failed = false) (ncopy : Nat → Nat) (draw : Nat → Nat → UInt32) (n : Nat) :
    ∃ w', iterations g ncopy draw n w = .ok w' ∧ w'.failed = false ∧ (∀ x, w'.link x = 0) ∧
      (∀ p, GEN001_ROOT <+: p →
        (w'.fs.get p ≠ none ↔ p = GEN001_ROOT ∨ p = GEN001_SUB ∨ Present ncopy draw n p)) ∧
      ∀ x l b, x < GEN001_NFILES → -2 ≤ l → w'.fs.content (path x l) = some b → b = stream g x := by
  obtain ⟨w', hw', hiterated⟩ := iterations_ok ncopy draw h hlink hfailed n
  refine ⟨w', hw', hiterated.failed, hiterated.link, fun p hp => hiterated.names hp, ?_⟩
  intro x l b hx hl hb
  exact hiterated.content hx hl hb

/-! ## The originals -/

section Setup

variable {g} {w : World} {x k : Nat} {p : Path}

theorem writeLoop_ok : ∀ (left : Nat) {s : R} {i : Nat} {b : List UInt8} {w : World}, w.fs.Tidy →
    w.fs.get p = some (.file k) → w.fs.data k = b → b.length = i →
    ∃ w', writeLoop g k left s i w = .ok w' ∧ Same w w' ∧
      Fs.Becomes w.fs w'.fs (Function.update w.fs.content p (some (b ++ streamFrom g s left))) := by
  intro left
  induction left using Nat.strong_induction_on with
  | _ left ih =>
    intro s i b w htidy hget hdata hpos
    unfold writeLoop streamFrom
    by_cases hleft : left = 0
    · rw [if_pos hleft, if_pos hleft, List.append_nil, ← hdata, ← Fs.content_of_get hget, Function.update_eq_self]
      exact ⟨w, rfl, ⟨rfl, rfl⟩, Fs.Becomes.refl htidy⟩
    · rw [if_neg hleft, if_neg hleft]
      dsimp only
      obtain ⟨n, hn⟩ : ∃ n, n = min left GEN001_CHUNK := ⟨_, rfl⟩
      have hsmall : 0 < n ∧ n ≤ left := by
        rw [hn, GEN001_CHUNK]
        omega
      rw [← hn]
      obtain ⟨chunk, hchunk⟩ : ∃ chunk, chunk = (gen001_fill_chunk g s n).1 := ⟨_, rfl⟩
      have hlen : chunk.length = n := by rw [hchunk, length_fill]
      have hwrite := Fs.write_end (htidy.lt hget) (hdata ▸ hpos) chunk (by rw [hdata] : _ = b ++ chunk)
      have hbecomes := Fs.setData_content htidy hget (b ++ chunk)
      rw [← hchunk, hwrite, hlen]
      dsimp only
      rw [if_neg (not_not.2 rfl), Int.toNat_natCast]
      obtain ⟨w', hw', hsame, hb⟩ := ih (left - n) (by omega) (s := (gen001_fill_chunk g s n).2) (i := i + n)
        (b := b ++ chunk) (w := { w with fs := w.fs.setData k (b ++ chunk) }) hbecomes.tidy hget
        (Function.update_self ..) (by rw [List.length_append, hlen, hpos])
      refine ⟨w', hw', hsame, ?_⟩
      dsimp only at hb
      rw [funext hbecomes.content, Function.update_idem, List.append_assoc] at hb
      exact hbecomes.trans hb

/-- The originals of the first `X` entries. -/
def Written (g : Prandom R) (X : Nat) : Contents := fun x l =>
  if l = -1 ∧ x < X then some (stream g x) else none

theorem write_file_ok (hx : x < GEN001_NFILES) (h : Files (Written g x) w.fs) :
    ∃ w', gen001_write_file g (entry x).rel (entry x).bytes w = .ok w' ∧ Same w w' ∧
    Files (Written g (x + 1)) w'.fs := by
  have hfree : Written g x x (-1) = none := if_neg fun h => Nat.lt_irrefl x h.2
  obtain ⟨fs', hcreate, -, hget, hdata, hnew⟩ := h.create hx (by omega) hfree
  have hcreate' : w.fs.create (gen001_path (entry x).rel (-1)) = ((w.fs.next : Int), fs') := hcreate
  have hempty : fs'.data w.fs.next = [] := by rw [hdata, Function.update_self]
  obtain ⟨w', hw', hsame, hb⟩ := writeLoop_ok (g := g) (entry x).bytes (s := gen001_seed_for g (entry x).rel)
    (w := { w with fs := fs' }) hnew.tidy hget hempty rfl
  dsimp only at hb
  rw [funext hnew.content, Function.update_idem, List.nil_append] at hb
  unfold gen001_write_file
  rw [hcreate']
  dsimp only
  rw [if_neg (by omega), Int.toNat_natCast]
  refine ⟨w', hw', hsame, (h.update hx (by omega) (hnew.trans hb)).congr fun y l _ _ => ?_⟩
  unfold Contents.set Written
  by_cases hy : y = x ∧ l = -1
  · rw [if_pos hy, if_pos ⟨hy.2, by omega⟩, hy.1]
    rfl
  · rw [if_neg hy]
    exact if_congr (by omega) rfl rfl

/-- The export is mounted, and has nothing at the root of the test. -/
structure Mounted (fs : Fs Text) : Prop where
  tidy : fs.Tidy
  mnt : fs.get XFS_MNT = some .dir
  free : fs.get GEN001_ROOT = none

theorem setup_ok (h : Mounted w.fs) : ∃ w', setup g w = .ok w' ∧ Same w w' ∧ Originals g w'.fs := by
  obtain ⟨fs₁, hr₁, htidy₁, hcontent₁, hget₁⟩ := Fs.mkdir_tidy h.tidy h.mnt h.free
  have hroot₁ : fs₁.get GEN001_ROOT = some .dir := by
    rw [hget₁]
    exact if_pos rfl
  have hfree₁ : ∀ t, t ≠ [] → fs₁.get (GEN001_ROOT ++ t) = none := by
    intro t ht
    rw [hget₁, if_neg, h.tidy.free h.free]
    exact fun heq => ht (List.append_right_eq_self.1 heq)
  obtain ⟨fs₂, hr₂, htidy₂, hcontent₂, hget₂⟩ := Fs.mkdir_tidy htidy₁ hroot₁ (hfree₁ [sub] (List.cons_ne_nil _ _))
  have hroot : GEN001_ROOT ≠ GEN001_ROOT ++ [sub] := by simp
  have hnone : ∀ p, GEN001_ROOT <+: p → fs₂.content p = none := by
    rintro p ⟨t, rfl⟩
    rw [hcontent₂, hcontent₁, Fs.content_eq_none]
    intro k
    rw [h.tidy.free h.free]
    simp
  have hstart : Files (Written g 0) fs₂ := by
    refine ⟨⟨htidy₂, ?_, ?_, ?_⟩, fun x l _ _ => ?_, fun p hp hne => absurd (hnone p hp) hne⟩
    · rw [hget₂, if_neg hroot, hroot₁]
    · rw [hget₂]
      exact if_pos rfl
    · rintro p ⟨t, rfl⟩ hdir
      rw [hget₂] at hdir
      split at hdir
      · exact Or.inr ‹_›
      · by_cases ht : t = []
        · rw [ht, List.append_nil]
          exact Or.inl rfl
        · rw [hfree₁ t ht] at hdir
          cases hdir
    · rw [hnone _ (root_path l)]
      exact (if_neg fun hlt => Nat.not_lt_zero _ hlt.2).symm
  have hstep : ∀ x (a : World), x < GEN001_NFILES → (Same w a ∧ Files (Written g x) a.fs) →
      Ends (fun b => Same w b ∧ Files (Written g (x + 1)) b.fs) (fun _ : Left => False)
        (gen001_write_file g (entry x).rel (entry x).bytes a) := by
    rintro x a hx ⟨⟨hlink, hfailed⟩, hfiles⟩
    obtain ⟨w', hw', hsame, hfiles'⟩ := write_file_ok hx hfiles
    rw [hw']
    exact ⟨⟨hsame.1.trans hlink, hsame.2.trans hfailed⟩, hfiles'⟩
  obtain ⟨w', hw', hsame, hfiles⟩ := (Ends.foldlM_range (a := { w with fs := fs₂ }) GEN001_NFILES hstep
    ⟨⟨rfl, rfl⟩, hstart⟩).exists_ok
  refine ⟨w', ?_, hsame, hfiles.congr fun x l hx _ => if_congr (and_iff_left hx) rfl rfl⟩
  have hmk₁ : mkdirStep GEN001_ROOT w = .ok { w with fs := fs₁ } := by
    unfold mkdirStep
    rw [show w.fs.mkdir GEN001_ROOT = (0, fs₁) from hr₁]
    rfl
  have hmk₂ : mkdirStep GEN001_SUB { w with fs := fs₁ } = .ok { w with fs := fs₂ } := by
    unfold mkdirStep
    rw [show ({ w with fs := fs₁ } : World).fs.mkdir GEN001_SUB = (0, fs₂) from hr₂]
    rfl
  unfold setup
  rw [hmk₁, Ends.ok_bind, hmk₂, Ends.ok_bind, hw']

/-- The whole test passes on an export with nothing at its root. -/
theorem chains_preserve_data_passes (h : Mounted w.fs) (hlink : ∀ x, w.link x = 0) (hfailed : w.failed = false)
    (draw : Nat → Nat → UInt32) :
    ∃ w', chains_preserve_data_across_five_iterations g w draw = .ok w' ∧ w'.failed = false := by
  obtain ⟨w₁, hw₁, hsame, horiginals⟩ := setup_ok (g := g) h
  obtain ⟨w', hw', hiterated⟩ := iterations_ok (fun _ => GEN001_NCOPY) draw horiginals
    (fun x => (congrFun hsame.1 x).trans (hlink x)) (hsame.2.trans hfailed) GEN001_ITERS
  refine ⟨w', ?_, hiterated.failed⟩
  unfold chains_preserve_data_across_five_iterations
  rw [hw₁, Ends.ok_bind, hw']

end Setup

/-! ## A mounted export -/

theorem mountedFs_mounted : Mounted mountedFs := ⟨mountedFs_tidy_get.1, mountedFs_mnt, mountedFs_free _⟩

/-- Random numbers that are all zero. -/
def zeros : Prandom Unit := ⟨fun _ => 0, fun _ => (), fun _ => (0, ())⟩

theorem chain_copier_never_trips_zeros : ∃ w : World, setup zeros ⟨mountedFs, fun _ => 0, false⟩ = .ok w ∧
    ∃ w', iterations zeros (fun _ => GEN001_NCOPY) (fun _ _ => 0) GEN001_ITERS w = .ok w' ∧ w'.failed = false := by
  obtain ⟨w, hw, hsame, horiginals⟩ := setup_ok (g := zeros) (w := ⟨mountedFs, fun _ => 0, false⟩) mountedFs_mounted
  obtain ⟨w', hw', hfailed, -⟩ := chain_copier_never_trips zeros horiginals (fun x => congrFun hsame.1 x) hsame.2
    (fun _ => GEN001_NCOPY) (fun _ _ => 0) GEN001_ITERS
  exact ⟨w, hw, w', hw', hfailed⟩

end NfsPlayground.Generic.G001
