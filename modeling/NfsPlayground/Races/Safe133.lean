import NfsPlayground.Lib.PosixRanges
import NfsPlayground.Races.G133
import NfsPlayground.Races.Passes

/-!
# generic/133: the record of the writer, and a conforming file system

Between the start of the writer and the wait for it there is no assertion, so that its record is there for as long as
it runs (`writer_within`). On a conforming file system the writer spreads its pattern over the one of the round before,
a chunk at a time (`Holds.next`): no schedule fails a check, and in the end the file holds the last pattern
(`patterns_kept`).
-/

namespace NfsPlayground.Races.G133

open Lines Posix Threads Runs

/-! ## The record of the writer -/

theorem waitsFor : program.WaitsFor shape.live where
  entry := rfl
  keeps := by
    intro t
    show (code t).Keeps shape.live (shape.live t)
    cases t with
    | fill => exact Op.keeps_ite (fun _ _ _ _ => List.nil_subset _) fun _ _ _ _ => List.nil_subset _
    | start => exact ⟨List.mem_singleton.2 rfl, List.nil_subset _⟩
    | read r pos =>
      refine Op.keeps_ite (fun _ _ a _ => ?_) fun _ _ _ _ => List.Subset.refl _
      show shape.live (.read r pos) ⊆ shape.live (if a.ret ≤ 0 then .join r else .verify r (pos + a.ret.toNat))
      split <;> exact List.Subset.refl _
    | verify r pos =>
      intro _ _ m
      show shape.live (.verify r pos) ⊆ shape.live (if m.buf.all wasWritten then .read r pos else .join r)
      split <;> exact List.Subset.refl _
    | join r => exact fun j hj hne => absurd (List.mem_singleton.1 hj) hne
    | ret => rfl
    | _ => exact fun _ _ _ => List.nil_subset _

theorem stays (t : Point) (a : Answer) (m : Frame) (h : shape.live t ≠ []) : program.rejects t a m = false := by
  unfold Program.rejects
  cases t with
  | read r pos => by_cases hpos : pos < G133_SIZE <;> simp [program, code, hpos, readChunk, Op.act]
  | verify r pos => simp [program, code, Op.expectOr]
  | join r => simp [program, code]
  | _ => exact absurd rfl h

/-- Whatever the calls answer and whichever way the two interleave, the writer of a round runs only while the test
function is in that round, on whose stack its record is. -/
theorem writer_within (is : List (Option Nat × Answer)) (n : Nat) :
    shape.Within (exec program.step program.init (is.take n)) :=
  Shape.always_within waitsFor stays is n

/-! ## What the file holds -/

/-- The pattern that the file holds when the round begins. -/
def before : Nat → UInt8
  | 0 => G133_PATTERN_A
  | r + 1 => (round r).pattern

theorem wasWritten_pattern : ∀ r, wasWritten (round r).pattern = true
  | 0 | 1 | 2 | 3 => rfl
  | _ + 4 => rfl

theorem wasWritten_before : ∀ r, wasWritten (before r) = true
  | 0 => rfl
  | r + 1 => wasWritten_pattern r

/-- The test file is the file `f`, and the pattern of the round has spread over `n` of its bytes. -/
structure Holds (r n : Nat) (f : Int) (fs : Fs Text) : Prop where
  flat : fs.Flat G133_ROOT
  file : fs.get G133_FILE = some (.file f.toNat)
  lt : f.toNat < fs.next
  le : n ≤ G133_SIZE
  data : fs.data f.toNat = List.replicate n (round r).pattern ++ List.replicate (G133_SIZE - n) (before r)

section Holds

variable {r n pos : Nat} {f : Int} {fs : Fs Text}

theorem chunk_fits (hdvd : G133_CHUNK ∣ n) (hlt : n < G133_SIZE) : n + G133_CHUNK ≤ G133_SIZE := by
  obtain ⟨c, rfl⟩ := hdvd
  unfold G133_CHUNK G133_SIZE at *
  omega

/-- The next chunk of the writer. -/
theorem Holds.next (h : Holds r n f fs) (hle : n + G133_CHUNK ≤ G133_SIZE) :
    ∃ fs', fs.write f.toNat n (chunk (round r).pattern) = ((G133_CHUNK : Int), fs') ∧
      Holds r (n + G133_CHUNK) f fs' := by
  refine ⟨fs.setData f.toNat (Fs.patch (fs.data f.toNat) n (chunk (round r).pattern)), ?_,
    ⟨h.flat.dir, h.flat.files⟩, h.file, h.lt, hle, ?_⟩
  · rw [Fs.write, if_pos h.lt, chunk, List.length_replicate]
  · refine (Function.update_self ..).trans ?_
    rw [h.data, chunk, Fs.patch_replicate, Nat.sub_sub]

/-- All that is read has been written. -/
theorem Holds.read (h : Holds r n f fs) (hpos : pos < G133_SIZE) :
    0 < (fs.read f.toNat pos G133_CHUNK).length ∧ (fs.read f.toNat pos G133_CHUNK).all wasWritten = true := by
  constructor
  · have hle := h.le
    rw [Fs.read, h.data, List.length_take, List.length_drop, List.length_append, List.length_replicate,
      List.length_replicate]
    unfold G133_CHUNK
    omega
  · rw [List.all_eq_true]
    intro b hb
    have hmem := List.mem_of_mem_drop (List.mem_of_mem_take hb)
    rw [h.data, List.mem_append, List.mem_replicate, List.mem_replicate] at hmem
    rcases hmem with ⟨-, rfl⟩ | ⟨-, rfl⟩
    · exact wasWritten_pattern r
    · exact wasWritten_before r

/-- At its end the round has left its pattern to the next one. -/
theorem Holds.again (h : Holds r G133_SIZE f fs) : Holds (r + 1) 0 f fs where
  flat := h.flat
  file := h.file
  lt := h.lt
  le := Nat.zero_le _
  data := by
    rw [h.data, Nat.sub_self, List.replicate_zero, List.append_nil, List.replicate_zero, List.nil_append]
    rfl

end Holds

/-! ## The invariant -/

abbrev Config : Type := State Point Writing Frame

/-- How many bytes the writer has written. -/
def Writing.progress : Writing → Nat
  | .kmalloc => 0
  | .write pos => pos
  | .complete | .exit => G133_SIZE

/-- The writer is at work on the file that the test function has open. -/
structure Working (r : Nat) (s : Config) (fs : Fs Text) : Prop where
  started : s.started r = true
  reader : s.mem.rf.toNat = s.mem.wf.toNat
  whole : G133_CHUNK ∣ (s.thread r).progress
  holds : Holds r (s.thread r).progress s.mem.wf fs

theorem Working.goto {r : Nat} {s : Config} {fs : Fs Text} (h : Working r s fs) {t : Point} {m : Frame}
    (hrf : m.rf = s.mem.rf) (hwf : m.wf = s.mem.wf) : Working r (s.goto t m) fs where
  started := h.started
  reader := by
    show m.rf.toNat = m.wf.toNat
    rw [hrf, hwf]
    exact h.reader
  whole := h.whole
  holds := by
    show Holds r (s.thread r).progress m.wf fs
    rw [hwf]
    exact h.holds

/-- The file has been filled as far as `pos`. -/
structure Filling (pos : Nat) (f : Int) (fs : Fs Text) : Prop where
  flat : fs.Flat G133_ROOT
  file : fs.get G133_FILE = some (.file f.toNat)
  lt : f.toNat < fs.next
  whole : G133_CHUNK ∣ pos
  le : pos ≤ G133_SIZE
  data : fs.data f.toNat = List.replicate pos G133_PATTERN_A

theorem Filling.holds {f : Int} {fs : Fs Text} (h : Filling G133_SIZE f fs) : Holds 0 0 f fs :=
  ⟨h.flat, h.file, h.lt, Nat.zero_le _, h.data⟩

/-- The file holds the pattern of the last round. -/
def Finished (fs : Fs Text) : Prop :=
  ∃ k, fs.get G133_FILE = some (.file k) ∧ fs.data k = List.replicate G133_SIZE G133_PATTERN_A

def Body : Point → Config → Fs Text → Prop
  | .mounted, _, fs | .mkdir, _, fs => Fresh G133_ROOT fs
  | .addAction, _, fs | .kmalloc, _, fs | .openFile, _, fs => fs.Flat G133_ROOT
  | .fill pos, s, fs => Filling pos s.mem.f fs
  | .fsync, s, fs | .close, s, fs => Holds 0 0 s.mem.f fs
  | .openWriter r, _, fs => ∃ f, Holds r 0 f fs
  | .openReader r, s, fs => Holds r 0 s.mem.wf fs
  | .readBuf r, s, fs | .start r, s, fs => s.mem.rf.toNat = s.mem.wf.toNat ∧ Holds r 0 s.mem.wf fs
  | .read r _, s, fs | .join r, s, fs => Working r s fs
  | .verify r _, s, fs => Working r s fs ∧ s.mem.buf.all wasWritten = true
  | .expectErr r, s, fs | .closeReader r, s, fs | .closeWriter r, s, fs => Holds r G133_SIZE s.mem.wf fs
  | .ret, _, fs => Finished fs

def checked : Rounds Point Writing Frame (Fs Text) where
  toShape := shape
  count := rounds.length
  exit := .exit
  frame m := m.err = 0
  body := Body
  left := Finished

abbrev Inv : Config → Fs Text → Prop := checked.Inv

variable {s : Config} {fs fs' : Fs Text} {t : Point} {x : Bool} {r : Nat}

/-- The next round begins, or there is none. -/
theorem Inv.enter (h : Inv s fs) (ht : s.test = some t) (hopened : t.opened = some r) (hruns : t.runs = none)
    (hr : r ≤ rounds.length) {f : Int} (hholds : Holds r 0 f fs) : Inv (s.goto (G133.enter r) s.mem) fs := by
  have hnone : ∀ u q, t.runs = some q → Point.runs u = some q ∨ s.thread q = .exit := fun u q hq => by
    cases hruns.symm.trans hq
  unfold G133.enter
  split
  · rename_i hlt
    refine h.goto ht h.frame (fun n hn => hopened.trans hn) (fun q hq => ?_) (hnone (.openWriter r)) ⟨f, hholds⟩
    cases hq
    exact hlt
  · rename_i hlt
    obtain rfl : r = rounds.length := by omega
    refine h.goto ht h.frame (fun n hn => ?_) (fun q hq => ?_) (hnone .ret) ⟨f.toNat, hholds.file, hholds.data⟩
    · cases hn
    · cases hq

/-! ## The steps -/

theorem serve_write {c : Bool} {f : Int} {bytes : List UInt8} {pos : Nat} :
    world.serve x (if c then .directWrite f bytes pos else .kernelWrite f bytes pos) fs =
      answer (fs.write f.toNat pos bytes) := by
  split <;> rfl

theorem serve_read {c : Bool} {f : Int} {len pos : Nat} :
    world.serve x (if c then .directRead f len pos else .kernelRead f len pos) fs =
      ({ ret := (fs.read f.toNat pos len).length, bytes := fs.read f.toNat pos len }, fs) := by
  split <;> rfl

theorem test_safe (h : Inv s fs) (ht : s.test = some t) : (code t).Safe world program x s fs Inv := by
  have hb := h.body t ht
  cases t with
  | mounted | addAction | kmalloc => exact Op.safe_assert rfl rfl (h.within ht h.frame ⟨rfl, rfl, rfl⟩ hb)
  | mkdir =>
    obtain ⟨fs', hr, hdir, hnone⟩ := Fresh.mkdir hb
    exact Op.safe_assert (congrArg answer hr) rfl
      (h.within ht h.frame ⟨rfl, rfl, rfl⟩ (Fs.Flat.of_new hdir hnone))
  | openFile =>
    obtain ⟨k, fs', hr, hflat, -, hfile, hk, hdata⟩ := Fs.create_flat hb testfile
    exact Op.safe_assertStore (congrArg answer hr) (not_isErr k fs') (h.within ht h.frame ⟨rfl, rfl, rfl⟩
      ⟨hflat, hfile, hk, Nat.dvd_zero _, Nat.zero_le _, hdata⟩)
  | fill pos =>
    refine Op.safe_ite (fun hlt => ?_) fun hge => ?_
    · have hr := Fs.write_end hb.lt (by rw [hb.data, List.length_replicate]) (chunk G133_PATTERN_A) rfl
      have hle := chunk_fits hb.whole hlt
      refine Op.safe_assert (congrArg answer hr) ?_ (h.within ht h.frame ⟨rfl, rfl, rfl⟩ ⟨⟨hb.flat.dir, hb.flat.files⟩,
        hb.file, hb.lt, (Nat.dvd_add_right hb.whole).2 (Nat.dvd_refl _), hle, ?_⟩)
      · exact beq_iff_eq.2 (congrArg Nat.cast List.length_replicate)
      · refine (Function.update_self ..).trans ?_
        rw [show fs.data s.mem.f.toNat = List.replicate pos G133_PATTERN_A from hb.data, chunk]
        exact List.replicate_append_replicate
    · obtain rfl : pos = G133_SIZE := Nat.le_antisymm hb.le (Nat.not_lt.1 hge)
      exact Op.safe_act (h.within ht h.frame ⟨rfl, rfl, rfl⟩ (Filling.holds hb))
  | fsync => exact Op.safe_assert (serve_fsync hb.lt) rfl (h.within ht h.frame ⟨rfl, rfl, rfl⟩ hb)
  | close => exact Op.safe_expectCall rfl rfl (Inv.enter h ht rfl rfl (Nat.zero_le _) hb)
  | openWriter r =>
    obtain ⟨f, hholds⟩ := hb
    have hr := Fs.openFile_flat hholds.flat hholds.file
    exact Op.safe_assertStore (serve_open hr) (not_isErr _ fs) (h.within ht rfl ⟨rfl, rfl, rfl⟩
      ⟨hholds.flat, hholds.file, hholds.lt, hholds.le, hholds.data⟩)
  | openReader r =>
    have hr : fs.openFile (canon G133_FILE) = (s.mem.wf.toNat : Int) := Fs.openFile_flat hb.flat hb.file
    exact Op.safe_assertStore (serve_open hr) (not_isErr _ fs) (h.within ht h.frame ⟨rfl, rfl, rfl⟩
      ⟨Int.toNat_natCast _, hb⟩)
  | readBuf r => exact Op.safe_assert rfl rfl (h.within ht h.frame ⟨rfl, rfl, rfl⟩ hb)
  | start r =>
    refine Op.safe_start rfl rfl (h.spawn ht rfl rfl ⟨rfl, rfl, rfl⟩ ⟨State.spawn_started .., hb.1, ?_, ?_⟩)
    · rw [State.spawn_thread]
      exact Nat.dvd_zero _
    · rw [State.spawn_thread]
      exact hb.2
  | read r pos =>
    refine Op.safe_ite (fun hlt => ?_) fun _ =>
      Op.safe_act (h.within ht h.frame ⟨rfl, rfl, rfl⟩ (Working.goto hb rfl rfl))
    obtain ⟨hpos, hall⟩ := hb.holds.read hlt
    rw [← hb.reader] at hpos hall
    have hlen : (0 : Int) < (fs.read s.mem.rf.toNat pos G133_CHUNK).length := Int.natCast_pos.2 hpos
    refine Op.safe_step rfl serve_read rfl (decide_eq_true hlen) ?_
    show Inv (s.goto (if ((fs.read s.mem.rf.toNat pos G133_CHUNK).length : Int) ≤ 0 then _ else _) _) fs
    rw [if_neg (Int.not_le.2 hlen)]
    exact h.within ht h.frame ⟨rfl, rfl, rfl⟩ ⟨Working.goto hb rfl rfl, hall⟩
  | verify r pos =>
    exact Op.safe_expectOr hb.2 (h.within ht h.frame ⟨rfl, rfl, rfl⟩ (Working.goto hb.1 rfl rfl))
  | join r =>
    refine Op.safe_wait (fun hd => ?_) h
    have hholds := hb.holds
    rw [show s.thread r = .exit from (h.done r hd).2] at hholds
    exact h.joined ht rfl hd ⟨rfl, rfl⟩ hholds
  | expectErr r => exact Op.safe_check (beq_iff_eq.2 h.frame) (h.within ht h.frame ⟨rfl, rfl, rfl⟩ hb)
  | closeReader r => exact Op.safe_expectCall rfl rfl (h.within ht h.frame ⟨rfl, rfl, rfl⟩ hb)
  | closeWriter r => exact Op.safe_expectCall rfl rfl (Inv.enter h ht rfl rfl (h.round _ r ht rfl) hb.again)
  | ret => exact h.leave ht rfl hb

/-- A writer that has not ended may move on to where it has written what its round's program point finds then. -/
theorem Inv.working (h : Inv s fs) (hst : s.started r = true) (hne : s.thread r ≠ .exit) :
    Working r s fs ∧ ∀ v fs', G133_CHUNK ∣ v.progress → Holds r v.progress s.mem.wf fs' →
      ∀ t, s.test = some t → t.runs = some r → Body t (s.move r v s.mem) fs' := by
  obtain ⟨t, ht, hr⟩ := h.moving r hst hne
  have hb : Body t s fs := h.body t ht
  have hmove : Working r s fs → ∀ v fs', G133_CHUNK ∣ v.progress → Holds r v.progress s.mem.wf fs' →
      Working r (s.move r v s.mem) fs' := fun hw v fs' hwhole hholds => by
    refine ⟨hst, hw.reader, ?_, ?_⟩
    · rwa [State.move_thread]
    · rwa [State.move_thread]
  cases t with
  | read q pos | join q =>
    cases hr
    refine ⟨hb, fun v fs' hwhole hholds u hu _ => ?_⟩
    cases ht.symm.trans hu
    exact hmove hb v fs' hwhole hholds
  | verify q pos =>
    cases hr
    refine ⟨hb.1, fun v fs' hwhole hholds u hu _ => ?_⟩
    cases ht.symm.trans hu
    exact ⟨hmove hb.1 v fs' hwhole hholds, hb.2⟩
  | _ => cases hr

theorem thread_safe (h : Inv s fs) (hst : s.started r = true) :
    (writeAll r (s.thread r)).Safe world r x s fs Inv := by
  cases hpoint : s.thread r with
  | kmalloc =>
    have hne : s.thread r ≠ .exit := by simp [hpoint]
    obtain ⟨hw, hbody⟩ := h.working hst hne
    have hholds := hw.holds
    rw [hpoint] at hholds
    exact ThreadOp.safe_call rfl (h.move hst hne (hbody (.write 0) fs (Nat.dvd_zero _) hholds))
  | write pos =>
    have hne : s.thread r ≠ .exit := by simp [hpoint]
    obtain ⟨hw, hbody⟩ := h.working hst hne
    have hwhole := hw.whole
    have hholds := hw.holds
    rw [hpoint] at hwhole hholds
    refine ThreadOp.safe_ite (fun hlt => ?_) fun hge => ?_
    · obtain ⟨fs', hr, hnext⟩ := hholds.next (chunk_fits hwhole hlt)
      exact ThreadOp.safe_call (serve_write.trans (congrArg answer hr)) (h.move hst hne
        (hbody (.write (pos + G133_CHUNK)) fs' ((Nat.dvd_add_right hwhole).2 (Nat.dvd_refl _)) hnext))
    · obtain rfl : pos = G133_SIZE := Nat.le_antisymm hholds.le (Nat.not_lt.1 hge)
      exact h.move hst hne (hbody .complete fs hwhole hholds)
  | complete =>
    have hne : s.thread r ≠ .exit := by simp [hpoint]
    obtain ⟨hw, hbody⟩ := h.working hst hne
    have hwhole := hw.whole
    have hholds := hw.holds
    rw [hpoint] at hwhole hholds
    refine h.signal hst hne fun t ht hr => ?_
    have hb := hbody .exit fs hwhole hholds t ht hr
    cases t with
    | read | join => exact ⟨hb.started, hb.reader, hb.whole, hb.holds⟩
    | verify => exact ⟨⟨hb.1.started, hb.1.reader, hb.1.whole, hb.1.holds⟩, hb.2⟩
    | _ => cases hr
  | exit => exact h

/-- On a conforming file system no schedule fails a check, and when the test function returns the file holds the
pattern of the last round. -/
theorem patterns_kept (hfresh : Fresh G133_ROOT fs) (is : List (Option Nat × Bool)) :
    Passes program fs is ∧ ((exec (program.stepIn world) (program.init, fs) is).1.test = none →
      Finished (exec (program.stepIn world) (program.init, fs) is).2) :=
  Rounds.never_fails (fun _ _ _ _ h ht => test_safe h ht) (fun _ _ _ _ h hst => thread_safe h hst)
    (Rounds.Inv.init rfl rfl hfresh) is

/-- The test function and the writers of the four rounds move in turn. -/
def inTurn : List (Option Nat × Bool) :=
  (List.replicate 5000 [(none, false), (some 0, false), (some 1, false), (some 2, false), (some 3, false)]).flatten

theorem patterns_kept_in_turn : Passes program emptyExport inTurn ∧
    ((exec (program.stepIn world) (program.init, emptyExport) inTurn).1.test = none →
      Finished (exec (program.stepIn world) (program.init, emptyExport) inTurn).2) :=
  patterns_kept (emptyExport_fresh ['g', '1', '3', '3']) inTurn

end NfsPlayground.Races.G133
