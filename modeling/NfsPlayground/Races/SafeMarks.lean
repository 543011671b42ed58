import NfsPlayground.Lib.PosixRanges
import NfsPlayground.Races.MarksJoined
import NfsPlayground.Races.Passes

/-!
# generic/340, 344 and 346 on a conforming file system

The two markers write to ranges that do not overlap, so that a mark that is made stays (`Ready.mark0`, `Ready.mark1`).
What holds at each program point (`Body`) is kept by every step of the test function (`test_safe`) and of the threads
(`thread_safe`): no schedule fails a check, and after the last round every page holds both marks (`marks_kept`).
-/

namespace NfsPlayground.Races.Marks

open Lines Posix Threads Runs

abbrev Config : Type := State Point Marking Frame

/-! ## The marks of a file -/

/-- The first `n` pages have the mark in the slot. -/
def Marked (id : UInt64) (slot n : Nat) (bytes : List UInt8) : Prop :=
  ∀ i < n, (bytes.drop (i * PAGE_SIZE + slot)).take 8 = u64 id

theorem length_u64 (v : UInt64) : (u64 v).length = 8 := by
  rw [u64, List.length_map, List.length_range]

section Marked

variable {id id' : UInt64} {slot slot' n i : Nat} {bytes : List UInt8}

/-- A mark within the file. -/
theorem within_file (v : UInt64) {size : Nat} (hlen : bytes.length = size) (hi : i < size / PAGE_SIZE)
    (hslot : slot + 8 ≤ PAGE_SIZE) : i * PAGE_SIZE + slot + (u64 v).length ≤ bytes.length := by
  rw [length_u64, hlen]
  unfold PAGE_SIZE at *
  omega

theorem Marked.next (h : Marked id slot n bytes) (hfits : n * PAGE_SIZE + slot + (u64 id).length ≤ bytes.length) :
    Marked id slot (n + 1) (Fs.patch bytes (n * PAGE_SIZE + slot) (u64 id)) := by
  intro i hi
  by_cases hin : i = n
  · subst hin
    have hslice := Fs.slice_patch hfits
    rwa [length_u64] at hslice
  · rw [Fs.slice_patch_apart hfits]
    · exact h i (by omega)
    · rw [length_u64]
      unfold PAGE_SIZE
      omega

/-- A mark in another slot. -/
theorem Marked.other (h : Marked id slot n bytes) (hslot : slot + 8 ≤ slot' ∨ slot' + 8 ≤ slot)
    (hpage : slot + 8 ≤ PAGE_SIZE ∧ slot' + 8 ≤ PAGE_SIZE)
    (hfits : i * PAGE_SIZE + slot' + (u64 id').length ≤ bytes.length) :
    Marked id slot n (Fs.patch bytes (i * PAGE_SIZE + slot') (u64 id')) := by
  intro j hj
  rw [Fs.slice_patch_apart hfits]
  · exact h j hj
  · rw [length_u64]
    unfold PAGE_SIZE at *
    omega

theorem marked_zero : Marked id slot 0 bytes := fun _ hi => absurd hi (Nat.not_lt_zero _)

end Marked

theorem slots_apart : slot0 + 8 ≤ slot1 ∧ slot1 + 8 ≤ PAGE_SIZE := by decide

theorem slot0_within : slot0 + 8 ≤ PAGE_SIZE := by decide

/-! ## The test file -/

/-- The test file of the round is open as `f`, with the given numbers of marks in its slots. -/
structure Opened (p : Port) (r : Nat) (f : Int) (n0 n1 : Nat) (fs : Fs Text) : Prop where
  flat : fs.Flat p.root
  file : fs.get p.file = some (.file f.toNat)
  lt : f.toNat < fs.next
  length : (fs.data f.toNat).length = (p.round r).size
  marks0 : Marked p.id0 slot0 n0 (fs.data f.toNat)
  marks1 : Marked p.id1 slot1 n1 (fs.data f.toNat)

/-- It is mapped, too. -/
structure Ready (p : Port) (r : Nat) (m : Frame) (n0 n1 : Nat) (fs : Fs Text) : Prop
    extends Opened p r m.f n0 n1 fs where
  mapped : fs.mapped m.addr = some m.f.toNat

section Files

variable {p : Port} {r n0 n1 i : Nat} {f : Int} {m : Frame} {fs : Fs Text}

/-- Other bytes in the file, as many. -/
theorem Ready.setData (h : Ready p r m n0 n1 fs) {bytes : List UInt8} {k0 k1 : Nat}
    (hlen : bytes.length = (fs.data m.f.toNat).length) (h0 : Marked p.id0 slot0 k0 bytes)
    (h1 : Marked p.id1 slot1 k1 bytes) : Ready p r m k0 k1 (fs.setData m.f.toNat bytes) := by
  have hdata : (fs.setData m.f.toNat bytes).data m.f.toNat = bytes := Function.update_self ..
  refine ⟨⟨⟨h.flat.dir, h.flat.files⟩, h.file, h.lt, ?_, ?_, ?_⟩, h.mapped⟩
  · rw [hdata, hlen, h.length]
  · rwa [hdata]
  · rwa [hdata]

/-- The mark of the thread. -/
theorem Ready.mark0 (h : Ready p r m n0 n1 fs) (hi : n0 < p.pages r) :
    Ready p r m (n0 + 1) n1
      (fs.setData m.f.toNat (Fs.patch (fs.data m.f.toNat) (n0 * PAGE_SIZE + slot0) (u64 p.id0))) := by
  have hfits := within_file p.id0 h.length hi slot0_within
  exact h.setData (Fs.length_patch_within hfits) (h.marks0.next hfits)
    (h.marks1.other (Or.inr slots_apart.1) ⟨slots_apart.2, slot0_within⟩ hfits)

/-- The mark of the test function. -/
theorem Ready.mark1 (h : Ready p r m n0 n1 fs) (hi : n1 < p.pages r) :
    Ready p r m n0 (n1 + 1)
      (fs.setData m.f.toNat (Fs.patch (fs.data m.f.toNat) (n1 * PAGE_SIZE + slot1) (u64 p.id1))) := by
  have hfits := within_file p.id1 h.length hi slots_apart.2
  exact h.setData (Fs.length_patch_within hfits)
    (h.marks0.other (Or.inl slots_apart.1) ⟨slot0_within, slots_apart.2⟩ hfits) (h.marks1.next hfits)

/-- Eight bytes of a page are read through the mapping. -/
theorem Ready.load {slot : Nat} (h : Ready p r m n0 n1 fs) (hi : i < p.pages r) (hslot : slot + 8 ≤ PAGE_SIZE) :
    fs.load m.addr (i * PAGE_SIZE + slot) 8 = (0, ((fs.data m.f.toNat).drop (i * PAGE_SIZE + slot)).take 8) := by
  have hfits := within_file p.id0 h.length hi hslot
  rw [length_u64] at hfits
  exact Fs.load_within h.mapped hfits

/-- A page is read on the server; in it are the marks of the file. -/
theorem Opened.page (h : Opened p r f n0 n1 fs) (hi : i < p.pages r) :
    (fs.read f.toNat (i * PAGE_SIZE) PAGE_SIZE).length = PAGE_SIZE ∧ ∀ slot, slot + 8 ≤ PAGE_SIZE →
      ((fs.read f.toNat (i * PAGE_SIZE) PAGE_SIZE).drop slot).take 8 =
        ((fs.data f.toNat).drop (i * PAGE_SIZE + slot)).take 8 := by
  have hlen := h.length
  have hi' : i < (p.round r).size / PAGE_SIZE := hi
  constructor
  · rw [Fs.read, List.length_take, List.length_drop, hlen]
    unfold PAGE_SIZE at *
    omega
  · intro slot hslot
    rw [Fs.read, List.drop_take, List.take_take, List.drop_drop, Nat.min_eq_left (by omega)]

end Files

/-! ## The invariant -/

/-- Every page of the round holds both marks. -/
def Kept (p : Port) (r : Nat) (fs : Fs Text) : Prop :=
  ∃ k, fs.get p.file = some (.file k) ∧
    Marked p.id0 slot0 (p.pages r) (fs.data k) ∧ Marked p.id1 slot1 (p.pages r) (fs.data k)

/-- The last round is over, and has left its marks. -/
def Finished (p : Port) (fs : Fs Text) : Prop := ∀ r, r + 1 = p.rounds.length → Kept p r fs

/-- How many of the pages the thread has marked. -/
def Marking.progress (n : Nat) : Marking → Nat
  | .mark i => i
  | .complete | .exit => n

/-- The file has its size, and nothing has been written to it. -/
def Blank (p : Port) (r : Nat) (m : Frame) (fs : Fs Text) : Prop :=
  fs.data m.f.toNat = List.replicate (p.round r).size 0

/-- What holds at a program point. -/
def Body (p : Port) : Point → Config → Fs Text → Prop
  | .mounted, _, fs | .mkdir, _, fs => Fresh p.root fs
  | .addAction, _, fs | .unlink _, _, fs | .create _, _, fs => fs.Flat p.root
  | .ftruncate _, s, fs => fs.Flat p.root ∧ fs.get p.file = some (.file s.mem.f.toNat) ∧
      s.mem.f.toNat < fs.next ∧ fs.data s.mem.f.toNat = []
  | .mmap r, s, fs => Opened p r s.mem.f 0 0 fs ∧ Blank p r s.mem fs
  | .prefault r _, s, fs => Ready p r s.mem 0 0 fs ∧ Blank p r s.mem fs
  | .wasZero r _, s, fs => Ready p r s.mem 0 0 fs ∧ Blank p r s.mem fs ∧ s.mem.v = u64 0
  | .start r, s, fs => Ready p r s.mem 0 0 fs
  | .mark r i, s, fs => i ≤ p.pages r ∧ s.started r = true ∧
      Ready p r s.mem ((s.thread r).progress (p.pages r)) i fs
  | .join r, s, fs => s.started r = true ∧ Ready p r s.mem ((s.thread r).progress (p.pages r)) (p.pages r) fs
  | .assertErr r, s, fs | .load0 r _, s, fs | .munmap r, s, fs => Ready p r s.mem (p.pages r) (p.pages r) fs
  | .expect0 r i, s, fs => i < p.pages r ∧ Ready p r s.mem (p.pages r) (p.pages r) fs ∧ s.mem.v = u64 p.id0
  | .load1 r i, s, fs => i < p.pages r ∧ Ready p r s.mem (p.pages r) (p.pages r) fs
  | .expect1 r _, s, fs => Ready p r s.mem (p.pages r) (p.pages r) fs ∧ s.mem.v = u64 p.id1
  | .close r, s, fs | .kmalloc r, s, fs | .readPage r _, s, fs => Opened p r s.mem.f (p.pages r) (p.pages r) fs
  | .server0 r _, s, fs => Opened p r s.mem.f (p.pages r) (p.pages r) fs ∧
      Port.markAt s.mem slot0 = u64 p.id0 ∧ Port.markAt s.mem slot1 = u64 p.id1
  | .server1 r _, s, fs => Opened p r s.mem.f (p.pages r) (p.pages r) fs ∧ Port.markAt s.mem slot1 = u64 p.id1
  | .ret, _, fs => Finished p fs

def rounds (p : Port) : Rounds Point Marking Frame (Fs Text) where
  toShape := shape
  count := p.rounds.length
  exit := .exit
  frame m := m.err = 0
  body := Body p
  left := Finished p

abbrev Inv (p : Port) : Config → Fs Text → Prop := (rounds p).Inv

variable {p : Port} {s : Config} {fs fs' : Fs Text} {t u : Point}

/-- The next round begins, or there is none. -/
theorem Inv.enter (h : Inv p s fs) (ht : s.test = some t) {r : Nat} (hopened : t.opened = some r)
    (hruns : t.runs = none) (hflat : fs.Flat p.root) (hkept : p.rounds.length ≤ r → Finished p fs) :
    Inv p (s.goto (p.enter r) s.mem) fs := by
  have hnone : ∀ u q, t.runs = some q → Point.runs u = some q ∨ s.thread q = .exit := fun u q hq => by
    cases hruns.symm.trans hq
  unfold Port.enter
  split
  · rename_i hr
    refine h.goto ht h.frame (fun n hn => hopened.trans hn) (fun q hq => ?_) (hnone (.unlink r)) hflat
    cases hq
    exact hr
  · rename_i hr
    refine h.goto ht h.frame (fun n hn => ?_) (fun q hq => ?_) (hnone .ret) (hkept (Nat.not_lt.1 hr))
    · cases hn
    · cases hq

theorem Opened.finished {r : Nat} {f : Int} (h : Opened p r f (p.pages r) (p.pages r) fs) (hr : r < p.rounds.length)
    (hlast : p.rounds.length ≤ r + 1) : Finished p fs := by
  intro q hq
  obtain rfl : q = r := by omega
  exact ⟨f.toNat, h.file, h.marks0, h.marks1⟩

/-! ## The steps -/

theorem test_safe {x : Bool} (h : Inv p s fs) (ht : s.test = some t) :
    (p.code t).Safe world p.program x s fs (Inv p) := by
  have hb := h.body t ht
  have hround : ∀ {r}, t.round = some r → r < p.rounds.length := fun hr => h.round t _ ht hr
  cases t with
  | mounted => exact Op.safe_assert rfl rfl (h.within ht h.frame ⟨rfl, rfl, rfl⟩ hb)
  | mkdir =>
    obtain ⟨fs', hr, hdir, hnone⟩ := Fresh.mkdir hb
    exact Op.safe_assert (congrArg answer hr) rfl
      (h.within ht h.frame ⟨rfl, rfl, rfl⟩ (Fs.Flat.of_new hdir hnone))
  | addAction =>
    refine Op.safe_assert rfl rfl (h.enter ht rfl rfl hb fun hle q hq => ?_)
    omega
  | unlink r =>
    obtain ⟨fs', hr, hflat, -, -⟩ := Fs.unlink_flat hb Port.testfile
    exact Op.safe_assertStore (congrArg answer hr) rfl (h.within ht rfl ⟨rfl, rfl, rfl⟩ hflat)
  | create r =>
    obtain ⟨k, fs', hr, hflat, -, hfile, hk, hdata⟩ := Fs.create_flat hb Port.testfile
    exact Op.safe_assertStore (congrArg answer hr) (not_isErr k fs')
      (h.within ht h.frame ⟨rfl, rfl, rfl⟩ ⟨hflat, hfile, hk, hdata⟩)
  | ftruncate r =>
    obtain ⟨hflat, hfile, hk, hempty⟩ := hb
    have hr := Fs.truncate_empty hk hempty (p.round r).size
    have hdata : (fs.setData s.mem.f.toNat (List.replicate (p.round r).size 0)).data s.mem.f.toNat =
        List.replicate (p.round r).size 0 := Function.update_self ..
    refine Op.safe_assert (congrArg answer hr) rfl (h.within ht h.frame ⟨rfl, rfl, rfl⟩ ⟨?_, hdata⟩)
    exact ⟨⟨hflat.dir, hflat.files⟩, hfile, hk, (congrArg List.length hdata).trans List.length_replicate, marked_zero,
      marked_zero⟩
  | mmap r =>
    obtain ⟨hopened, hblank⟩ := hb
    obtain ⟨addr, hr, hne, hmapped⟩ := Fs.mmap_mapped hopened.lt
    refine Op.safe_assertStore (congrArg answer hr) (bne_iff_ne.2 (Int.natCast_ne_zero.2 hne)) ?_
    have hready : Ready p r { s.mem with addr := addr } 0 0 { fs with maps := fs.maps ++ [some s.mem.f.toNat] } :=
      ⟨⟨⟨hopened.flat.dir, hopened.flat.files⟩, hopened.file, hopened.lt, hopened.length, hopened.marks0,
        hopened.marks1⟩, hmapped⟩
    cases (p.round r).prefault with
    | true => exact h.within ht h.frame ⟨rfl, rfl, rfl⟩ ⟨hready, hblank⟩
    | false => exact h.within ht h.frame ⟨rfl, rfl, rfl⟩ hready
  | prefault r i =>
    obtain ⟨hready, hblank⟩ := hb
    refine Op.safe_ite (fun hi => ?_) fun _ => Op.safe_act (h.within ht h.frame ⟨rfl, rfl, rfl⟩ hready)
    have hzero : ((fs.data s.mem.f.toNat).drop (i * PAGE_SIZE + 0)).take 8 = u64 0 := by
      have hi' : i < (p.round r).size / PAGE_SIZE := hi
      rw [hblank, List.drop_replicate, List.take_replicate, Nat.min_eq_left]
      · decide
      · unfold PAGE_SIZE at *
        omega
    refine Op.safe_assertStore (serve_copyFromUser (hready.load hi (Nat.le_of_ble_eq_true rfl))) rfl ?_
    exact h.within ht h.frame ⟨rfl, rfl, rfl⟩ ⟨⟨hready.toOpened, hready.mapped⟩, hblank, hzero⟩
  | wasZero r i =>
    exact Op.safe_check (beq_iff_eq.2 hb.2.2) (h.within ht h.frame ⟨rfl, rfl, rfl⟩ ⟨hb.1, hb.2.1⟩)
  | start r =>
    refine Op.safe_start rfl rfl (h.spawn ht rfl rfl ⟨rfl, rfl, rfl⟩ ⟨Nat.zero_le _, State.spawn_started .., ?_⟩)
    rw [State.spawn_thread]
    exact hb
  | mark r i =>
    obtain ⟨hle, hst, hready⟩ := hb
    refine Op.safe_ite (fun hi => ?_) fun hi => ?_
    · have hr := Fs.store_within hready.mapped (within_file p.id1 hready.length hi slots_apart.2)
      exact Op.safe_assert (serve_copyToUser hr) rfl
        (h.within ht h.frame ⟨rfl, rfl, rfl⟩ ⟨hi, hst, hready.mark1 hi⟩)
    · obtain rfl : i = p.pages r := by omega
      exact Op.safe_act (h.within ht h.frame ⟨rfl, rfl, rfl⟩ ⟨hst, hready⟩)
  | join r =>
    refine Op.safe_wait (fun hd => ?_) h
    have hready := hb.2
    rw [show s.thread r = .exit from (h.done r hd).2] at hready
    exact h.joined ht rfl hd ⟨rfl, rfl⟩ hready
  | assertErr r => exact Op.safe_check (beq_iff_eq.2 h.frame) (h.within ht h.frame ⟨rfl, rfl, rfl⟩ hb)
  | load0 r i =>
    refine Op.safe_ite (fun hi => ?_) fun _ => Op.safe_act (h.within ht h.frame ⟨rfl, rfl, rfl⟩ hb)
    refine Op.safe_assertStore (serve_copyFromUser (hb.load hi slot0_within)) rfl ?_
    exact h.within ht h.frame ⟨rfl, rfl, rfl⟩ ⟨hi, ⟨hb.toOpened, hb.mapped⟩, hb.marks0 i hi⟩
  | expect0 r i =>
    exact Op.safe_check (beq_iff_eq.2 hb.2.2) (h.within ht h.frame ⟨rfl, rfl, rfl⟩ ⟨hb.1, hb.2.1⟩)
  | load1 r i =>
    obtain ⟨hi, hready⟩ := hb
    refine Op.safe_assertStore (serve_copyFromUser (hready.load hi slots_apart.2)) rfl ?_
    exact h.within ht h.frame ⟨rfl, rfl, rfl⟩ ⟨⟨hready.toOpened, hready.mapped⟩, hready.marks1 i hi⟩
  | expect1 r i => exact Op.safe_check (beq_iff_eq.2 hb.2) (h.within ht h.frame ⟨rfl, rfl, rfl⟩ hb.1)
  | munmap r =>
    refine Op.safe_expectCall (congrArg answer (Fs.munmap_mapped hb.mapped)) rfl ?_
    refine h.within ht h.frame ⟨rfl, rfl, rfl⟩ ?_
    exact ⟨⟨hb.flat.dir, hb.flat.files⟩, hb.file, hb.lt, hb.length, hb.marks0, hb.marks1⟩
  | close r =>
    refine Op.safe_expectCall rfl rfl ?_
    cases (p.round r).server with
    | true => exact h.within ht h.frame ⟨rfl, rfl, rfl⟩ hb
    | false => exact h.enter ht rfl rfl hb.flat (hb.finished (hround rfl))
  | kmalloc r => exact Op.safe_assert rfl rfl (h.within ht h.frame ⟨rfl, rfl, rfl⟩ hb)
  | readPage r i =>
    refine Op.safe_ite (fun hi => ?_) fun _ => Op.safe_act (h.enter ht rfl rfl hb.flat (hb.finished (hround rfl)))
    obtain ⟨hlen, hslots⟩ := hb.page hi
    refine Op.safe_assertStore (serve_readRange (Fs.openFile_flat hb.flat hb.file) rfl) ?_ ?_
    · exact beq_iff_eq.2 (congrArg Nat.cast hlen)
    · refine h.within ht h.frame ⟨rfl, rfl, rfl⟩ ⟨hb, ?_, ?_⟩
      · exact (hslots slot0 slot0_within).trans (hb.marks0 i hi)
      · exact (hslots slot1 slots_apart.2).trans (hb.marks1 i hi)
  | server0 r i =>
    exact Op.safe_check (beq_iff_eq.2 hb.2.1) (h.within ht h.frame ⟨rfl, rfl, rfl⟩ ⟨hb.1, hb.2.2⟩)
  | server1 r i => exact Op.safe_check (beq_iff_eq.2 hb.2) (h.within ht h.frame ⟨rfl, rfl, rfl⟩ hb.1)
  | ret => exact h.leave ht rfl hb

/-- A thread that has not ended has marked what its program point says; it may move on, if its round's program point
finds what it has marked then. -/
theorem Inv.marking (h : Inv p s fs) {r : Nat} (hst : s.started r = true) (hne : s.thread r ≠ .exit) :
    ∃ n1, Ready p r s.mem ((s.thread r).progress (p.pages r)) n1 fs ∧
      ∀ v fs', Ready p r s.mem (v.progress (p.pages r)) n1 fs' → ∀ t, s.test = some t → t.runs = some r →
        Body p t (s.move r v s.mem) fs' := by
  obtain ⟨t, ht, hr⟩ := h.moving r hst hne
  have hb : Body p t s fs := h.body t ht
  cases t with
  | mark q i =>
    cases hr
    refine ⟨i, hb.2.2, fun v fs' hready u hu _ => ?_⟩
    cases ht.symm.trans hu
    refine ⟨hb.1, hst, ?_⟩
    rwa [State.move_thread]
  | join q =>
    cases hr
    refine ⟨p.pages r, hb.2, fun v fs' hready u hu _ => ?_⟩
    cases ht.symm.trans hu
    refine ⟨hst, ?_⟩
    rwa [State.move_thread]
  | _ => cases hr

theorem thread_safe {x : Bool} {r : Nat} (h : Inv p s fs) (hst : s.started r = true) :
    (p.marker r (s.thread r)).Safe world r x s fs (Inv p) := by
  cases hpoint : s.thread r with
  | mark i =>
    have hne : s.thread r ≠ .exit := by simp [hpoint]
    obtain ⟨n1, hready, hbody⟩ := h.marking hst hne
    rw [hpoint] at hready
    refine ThreadOp.safe_ite (fun hi => ?_) fun hi => h.move hst hne (hbody .complete fs ⟨⟨hready.flat, hready.file,
      hready.lt, hready.length, fun j hj => hready.marks0 j (Nat.lt_of_lt_of_le hj (Nat.not_lt.1 hi)), hready.marks1⟩,
      hready.mapped⟩)
    have hfits := within_file p.id0 hready.length hi slot0_within
    have hnext := h.move hst hne (hbody (.mark (i + 1)) _ (hready.mark0 hi))
    refine ThreadOp.safe_ite (fun _ => ?_) fun _ => ?_
    · exact ThreadOp.safe_call (serve_copyToUser (Fs.store_within hready.mapped hfits)) hnext
    · have hr : fs.write s.mem.f.toNat (i * PAGE_SIZE + slot0) (u64 p.id0) = (8, fs.setData s.mem.f.toNat
          (Fs.patch (fs.data s.mem.f.toNat) (i * PAGE_SIZE + slot0) (u64 p.id0))) := by
        rw [Fs.write, if_pos hready.lt, length_u64]
        rfl
      exact ThreadOp.safe_call (congrArg answer hr) hnext
  | complete =>
    have hne : s.thread r ≠ .exit := by simp [hpoint]
    obtain ⟨n1, hready, hbody⟩ := h.marking hst hne
    rw [hpoint] at hready
    refine h.signal hst hne fun t ht hr => ?_
    have hb := hbody .exit fs hready t ht hr
    cases t <;> exact hb
  | exit => exact h

/-! ## Runs -/

end NfsPlayground.Races.Marks
