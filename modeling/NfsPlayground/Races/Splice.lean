import NfsPlayground.Races.G591

/-!
# Whether the splices come to an end

In generic/591 the bytes that are left to splice, those in the pipe and those the reader has read are the whole file. So
while the reader reads, a full pipe is emptied. A reader that ends before it has read the file leaves the pipe as it is:
the function, which holds the read end itself, then waits for room for good, unless what is left to splice fits.

The sequential variants look at `r.err` after each read; nothing looks at it in the loop of the concurrent ones.
-/

namespace NfsPlayground.Races.G591

open Blocking

variable {v : Variant} {s s' : State}

/-- The function waits for room in the pipe, and nothing can move. -/
def Stuck (v : Variant) (s : State) : Prop := (∃ left, s.test = some (.splice left)) ∧ Blocked (step v) s

/-- The bytes the loop has not spliced yet. -/
def toSplice (v : Variant) : Option Point → Nat
  | some .start => v.size
  | some (.splice left) => left
  | _ => 0

/-- The move refuses the thread or its buffer, or fails its read. -/
def EndsReader (s : State) : Move → Prop
  | .test a => s.test = some .start ∧ a.isErr = true
  | .reader a => (s.reader = some (.reading .kmalloc) ∧ a.ret = 0) ∨
      ∃ left, s.reader = some (.reading (.read left)) ∧ left ≠ 0 ∧ a.ret ≤ 0

instance (s : State) : (i : Move) → Decidable (EndsReader s i)
  | .test _ => inferInstanceAs (Decidable (_ ∧ _))
  | .reader a =>
    match h : s.reader with
    | some (.reading (.read left)) => decidable_of_iff (left ≠ 0 ∧ a.ret ≤ 0) (by simp [EndsReader, h])
    | some (.reading .kmalloc) => decidable_of_iff (a.ret = 0) (by simp [EndsReader, h])
    | some (.reading .finished) | some .exit | none => isFalse (by simp [EndsReader, h])

/-- The thread is not ended unless what is left to splice fits in the pipe. -/
def Friendly (v : Variant) (s : State) (i : Move) : Prop :=
  v.concurrent = true → EndsReader s i → toSplice v s.test ≤ v.capacity - s.mem.pipe.length

instance (v : Variant) (s : State) (i : Move) : Decidable (Friendly v s i) :=
  inferInstanceAs (Decidable (_ → _ → _))

/-! ## The invariant -/

/-- The reader while `left` bytes are to be spliced. -/
def Reads (v : Variant) (left : Nat) (m : Frame) : Option Reader → Prop
  | some (.reading .kmalloc) => left + m.pipe.length = v.size
  | some (.reading (.read n)) => n = left + m.pipe.length
  | some (.reading .finished) => left + m.pipe.length ≤ v.capacity
  | some .exit | none => left + m.pipe.length ≤ v.capacity ∧ 0 < m.done

/-- The thread will have signalled that it is done, or has. -/
def Ends (m : Frame) (u : Option Reader) : Prop := u = some .exit ∨ u = none → 0 < m.done

/-- The sequential read of `n` bytes. -/
def ReadsBack (n : Nat) (m : Frame) : Reading → Prop
  | .kmalloc => m.pipe.length = n ∧ m.size = n
  | .read k => m.pipe.length = k ∧ k ≤ n
  | .finished => m.err ≠ 0 ∨ m.pipe = []

def At (v : Variant) (u : Option Reader) (m : Frame) : Point → Prop
  | .kmalloc | .openFile | .write | .closeShort | .createPipe | .closeNoPipe => u = none ∧ m.pipe = []
  | .start => v.concurrent = true ∧ u = none ∧ m.pipe = [] ∧ m.writer = true
  | .splice left => 0 < left ∧ left ≤ v.size ∧ m.writer = true ∧
      if v.concurrent then Reads v left m u else m.pipe = []
  | .reading left n r => v.concurrent = false ∧ m.writer = true ∧ 0 < n ∧ n ≤ left ∧ left ≤ v.size ∧ ReadsBack n m r
  | .closePipe1 => v.concurrent = true → Ends m u
  | .wait => m.writer = false ∧ Ends m u
  | _ => True

structure Inv (v : Variant) (s : State) : Prop where
  size : v.concurrent = true → s.mem.size = v.size
  seq : v.concurrent = false → s.reader = none
  point : ∀ t, s.test = some t → At v s.reader s.mem t

theorem init_inv (v : Variant) : Inv v (init v) where
  size _ := rfl
  seq _ := rfl
  point t ht := by
    cases ht
    exact ⟨rfl, rfl⟩

/-! ## The measure -/

def Reader.rank (v : Variant) : Option Reader → Nat
  | none | some .exit => 0
  | some (.reading .kmalloc) => v.size + 3
  | some (.reading (.read n)) => n + 2
  | some (.reading .finished) => 1

def Point.rank (v : Variant) : Option Point → Nat
  | none => 0
  | some .unlink => 1
  | some .expectBad => 2
  | some .expectErr => 3
  | some .closeFile => 4
  | some .closePipe0 => 5
  | some .wait => 6
  | some .closePipe1 => 7
  | some (.splice left) => 5 * left + 8
  | some (.reading left _ .kmalloc) => 5 * left + 7
  | some (.reading left n (.read k)) => 5 * (left - n) + k + 10
  | some (.reading left n .finished) => 5 * (left - n) + 9
  | some .start => 6 * v.size + 12
  | some .createPipe => 6 * v.size + 13
  | some .write => 6 * v.size + 14
  | some .openFile => 6 * v.size + 15
  | some .kmalloc => 6 * v.size + 16
  | some .closeNoPipe | some .closeShort => 1

def rank (v : Variant) (s : State) : Nat := Point.rank v s.test + Reader.rank v s.reader

/-! ## What a move does -/

theorem rank_loop (v : Variant) (left : Nat) : Point.rank v (some (loop left)) ≤ 5 * left + 8 := by
  unfold loop
  split
  · show 7 ≤ _
    omega
  · exact Nat.le_refl _

/-- The loop goes on, or is over. -/
theorem at_loop {u : Option Reader} {m : Frame} {left : Nat} (hle : left ≤ v.size) (hwriter : m.writer = true)
    (hreads : v.concurrent = true → Reads v left m u) (hpipe : v.concurrent = false → m.pipe = []) :
    At v u m (loop left) := by
  unfold loop
  by_cases hleft : left = 0
  · rw [if_pos hleft]
    intro hc hu
    have hr := hreads hc
    rcases hu with rfl | rfl
    · exact hr.2
    · exact hr.2
  · rw [if_neg hleft]
    refine ⟨Nat.pos_of_ne_zero hleft, hle, hwriter, ?_⟩
    split
    · exact hreads ‹_›
    · exact hpipe (Bool.eq_false_iff.2 ‹_›)

/-- What a splice moves takes from what is left what it adds to the pipe. -/
theorem Reads.spliced {u : Option Reader} {m : Frame} {left : Nat} {bytes : List UInt8} (h : Reads v left m u)
    (hle : bytes.length ≤ left) : Reads v (left - bytes.length) { m with pipe := m.pipe ++ bytes } u := by
  have hsum : left - bytes.length + (m.pipe ++ bytes).length = left + m.pipe.length := by
    rw [List.length_append]
    omega
  match u, h with
  | some (.reading .kmalloc), h => exact hsum.trans h
  | some (.reading (.read n)), h => exact h.trans hsum.symm
  | some (.reading .finished), h => exact Nat.le_trans (Nat.le_of_eq hsum) h
  | some .exit, h => exact ⟨Nat.le_trans (Nat.le_of_eq hsum) h.1, h.2⟩
  | none, h => exact ⟨Nat.le_trans (Nat.le_of_eq hsum) h.1, h.2⟩

theorem kernelRead_spec {a : Answer} {want : Nat} {m : Frame} {n : Int} (h : kernelRead a want m = some n) :
    n = a.ret ∧ (0 < n → n ≤ min want m.pipe.length) := by
  unfold kernelRead at h
  split at h
  · split at h
    · rename_i hret
      cases h
      exact ⟨rfl, fun hpos => absurd hret.2 (by omega)⟩
    · cases h
  · split at h
    · rename_i hret
      cases h
      exact ⟨rfl, fun hpos => by omega⟩
    · cases h

/-- A pass of the loop of `g591_read_from_pipe()`: it is over, or fails, or takes bytes from the pipe. -/
theorem read_spec {a : Answer} {left : Nat} {m : Frame} {x : Reading × Frame}
    (h : readFromPipe a (.read left) m = some x) : (left = 0 ∧ x = (.finished, m)) ∨
      (left ≠ 0 ∧ a.ret ≤ 0 ∧ ∃ err, err ≠ 0 ∧ x = (.finished, { m with err := err })) ∨
      ∃ k bad, 0 < k ∧ k ≤ left ∧ k ≤ m.pipe.length ∧
        x = (.read (left - k), { m with pipe := m.pipe.drop k, bad := bad }) := by
  rw [readFromPipe] at h
  split at h
  · cases h
    exact Or.inl ⟨‹_›, rfl⟩
  · rename_i hleft
    obtain ⟨n, hn, rfl⟩ := Option.map_eq_some_iff.1 h
    obtain ⟨hret, hle⟩ := kernelRead_spec hn
    by_cases hpos : n ≤ 0
    · rw [if_pos hpos]
      refine Or.inr (Or.inl ⟨hleft, hret ▸ hpos, _, ?_, rfl⟩)
      by_cases hn0 : n ≠ 0
      · rwa [if_pos hn0]
      · rw [if_neg hn0]
        decide
    · have hmin := hle (by omega)
      rw [if_neg hpos]
      exact Or.inr (Or.inr ⟨n.toNat, _, by omega, by omega, by omega, rfl⟩)

theorem test_spec {a : Answer} (h : step v s (.test a) = some s') : ∃ t r, s.test = some t ∧ code v a t s.mem = some r ∧
    s' = { test := r.test
           reader := if t = .start ∧ !a.isErr then some (.reading .kmalloc) else s.reader
           mem := r.mem
           failed := s.failed || r.failed } := by
  obtain ⟨t, ht, h⟩ := Option.bind_eq_some_iff.1 h
  obtain ⟨r, hr, heq⟩ := Option.map_eq_some_iff.1 h
  exact ⟨t, r, ht, hr, heq.symm⟩

/-- A splice, and what follows it. -/
theorem splice_keeps {a : Answer} {u : Option Reader} {m : Frame} {left : Nat} {r : Next}
    (hat : At v u m (.splice left)) (hr : splice v a left m = some r) : (v.concurrent = true → r.mem.size = m.size) ∧
      (∀ t', r.test = some t' → At v u r.mem t') ∧ Point.rank v r.test < Point.rank v (some (.splice left)) := by
  obtain ⟨hpos, hle, hwriter, hreads⟩ := hat
  unfold splice at hr
  split at hr
  · cases hr
  · split at hr
    · cases hr
      refine ⟨fun _ => rfl, fun t' ht' => ?_, ?_⟩
      · cases ht'
        intro hc hu
        rw [if_pos hc] at hreads
        rcases hu with rfl | rfl
        · exact hreads.2
        · exact hreads.2
      · show 7 < 5 * left + 8
        omega
    · split at hr
      · rename_i hret hmoved
        have hbytes : 0 < a.bytes.length ∧ a.bytes.length ≤ left := by omega
        cases hc : v.concurrent with
        | true =>
          rw [if_pos hc] at hr hreads
          cases hr
          refine ⟨fun _ => rfl, fun t' ht' => ?_, ?_⟩
          · cases ht'
            refine at_loop (by omega) hwriter (fun _ => hreads.spliced hbytes.2) fun hseq => ?_
            rw [hc] at hseq
            cases hseq
          · refine Nat.lt_of_le_of_lt (rank_loop ..) ?_
            show _ < 5 * left + 8
            omega
        | false =>
          rw [if_neg (Bool.eq_false_iff.1 hc)] at hr hreads
          cases hr
          refine ⟨fun hcon => ?_, fun t' ht' => ?_, ?_⟩
          · cases hcon
          · cases ht'
            refine ⟨hc, hwriter, hbytes.1, hbytes.2, hle, ?_, rfl⟩
            rw [hreads, List.nil_append]
          · show 5 * left + 7 < 5 * left + 8
            omega
      · cases hr

/-- A pass of the sequential read. -/
theorem readsBack_keeps {a : Answer} {m : Frame} {left n : Nat} {r : Reading} {x : Reading × Frame} (hpos : 0 < n)
    (hle : n ≤ left) (hreads : ReadsBack n m r) (hr : readFromPipe a r m = some x) : ReadsBack n x.2 x.1 ∧
      x.2.writer = m.writer ∧
      Point.rank v (some (.reading left n x.1)) < Point.rank v (some (.reading left n r)) := by
  cases r with
  | kmalloc =>
    obtain ⟨hlen, hsize⟩ := hreads
    cases hr
    by_cases hret : a.ret = 0
    · rw [if_pos hret]
      refine ⟨Or.inl (show -ENOMEM ≠ 0 by decide), rfl, ?_⟩
      show 5 * (left - n) + 9 < 5 * left + 7
      omega
    · rw [if_neg hret]
      refine ⟨⟨hlen.trans hsize.symm, Nat.le_of_eq hsize⟩, rfl, ?_⟩
      show 5 * (left - n) + m.size + 10 < 5 * left + 7
      omega
  | read k =>
    obtain ⟨hlen, hk⟩ := hreads
    rcases read_spec hr with ⟨hk0, rfl⟩ | ⟨hk0, -, err, herr, rfl⟩ | ⟨j, bad, hj, hjk, hjlen, rfl⟩
    · refine ⟨Or.inr (List.length_eq_zero_iff.1 (hlen.trans hk0)), rfl, ?_⟩
      show 5 * (left - n) + 9 < 5 * (left - n) + k + 10
      omega
    · refine ⟨Or.inl herr, rfl, ?_⟩
      show 5 * (left - n) + 9 < 5 * (left - n) + k + 10
      omega
    · refine ⟨⟨?_, by omega⟩, rfl, ?_⟩
      · show (m.pipe.drop j).length = k - j
        rw [List.length_drop, hlen]
      · show 5 * (left - n) + (k - j) + 10 < 5 * (left - n) + k + 10
        omega
  | finished => cases hr

theorem code_keeps {a : Answer} {u : Option Reader} {m : Frame} {t : Point} {r : Next} (hstart : t ≠ .start)
    (hat : At v u m t) (hr : code v a t m = some r) : (v.concurrent = true → r.mem.size = m.size) ∧
      (∀ t', r.test = some t' → At v u r.mem t') ∧ Point.rank v r.test < Point.rank v (some t) := by
  cases t with
  | kmalloc | openFile =>
    cases hr
    split
    · exact ⟨fun _ => rfl, nofun, Nat.succ_pos _⟩
    · refine ⟨fun _ => rfl, fun t' ht' => ?_, Nat.lt_succ_self _⟩
      cases ht'
      exact hat
  | write =>
    cases hr
    refine ⟨fun _ => rfl, fun t' ht' => ?_, ?_⟩
    · cases ht'
      split
      · exact hat
      · exact hat
    · show Point.rank v (some (if _ then _ else _)) < 6 * v.size + 14
      split
      · show 1 < _
        omega
      · exact Nat.lt_succ_self _
  | createPipe =>
    obtain ⟨hu, hpipe⟩ := hat
    cases hr
    split
    · refine ⟨fun _ => rfl, fun t' ht' => ?_, ?_⟩
      · cases ht'
        exact ⟨hu, hpipe⟩
      · show 1 < 6 * v.size + 13
        omega
    · refine ⟨fun _ => rfl, fun t' ht' => ?_, ?_⟩
      · cases ht'
        split
        · exact ⟨‹_›, hu, hpipe, rfl⟩
        · exact at_loop (Nat.le_refl _) rfl (fun hc => absurd hc ‹_›) fun _ => hpipe
      · show Point.rank v (some (if _ then _ else _)) < 6 * v.size + 13
        split
        · exact Nat.lt_succ_self _
        · exact Nat.lt_of_le_of_lt (rank_loop ..) (by omega)
  | closeShort | closeNoPipe =>
    cases hr
    exact ⟨fun _ => rfl, nofun, Nat.one_pos⟩
  | start => exact absurd rfl hstart
  | splice left => exact splice_keeps hat hr
  | reading left n q =>
    obtain ⟨hseq, hwriter, hpos, hle, hsize, hreads⟩ := hat
    by_cases hq : q = .finished
    · subst hq
      cases hr
      refine ⟨fun _ => rfl, fun t' ht' => ?_, ?_⟩
      · cases ht'
        split
        · intro hc
          rw [hseq] at hc
          cases hc
        · refine at_loop (by omega) hwriter (fun hc => ?_) fun _ => hreads.resolve_left ‹_›
          rw [hseq] at hc
          cases hc
      · show Point.rank v (some (if _ then _ else _)) < 5 * (left - n) + 9
        split
        · show 7 < _
          omega
        · exact Nat.lt_of_le_of_lt (rank_loop ..) (by omega)
    · have hr : ((readFromPipe a q m).map fun x => (⟨some (.reading left n x.1), x.2, false⟩ : Next)) = some r := by
        cases q with
        | kmalloc => exact hr
        | read => exact hr
        | finished => exact absurd rfl hq
      obtain ⟨x, hx, rfl⟩ := Option.map_eq_some_iff.1 hr
      obtain ⟨hreads', hwriter', hrank⟩ := readsBack_keeps (v := v) hpos hle hreads hx
      refine ⟨fun hc => ?_, fun t' ht' => ?_, hrank⟩
      · rw [hseq] at hc
        cases hc
      · cases ht'
        exact ⟨hseq, hwriter'.trans hwriter, hpos, hle, hsize, hreads'⟩
  | closePipe1 =>
    cases hr
    refine ⟨fun _ => rfl, fun t' ht' => ?_, ?_⟩
    · cases ht'
      split
      · exact ⟨rfl, hat ‹_›⟩
      · trivial
    · show Point.rank v (some (if _ then _ else _)) < 7
      split
      · exact Nat.lt_succ_self _
      · show 5 < 7
        omega
  | wait =>
    rw [code] at hr
    split at hr
    · cases hr
    · cases hr
      exact ⟨fun _ => rfl, fun t' ht' => by cases ht'; trivial, Nat.lt_succ_self _⟩
  | closePipe0 | closeFile | expectErr | expectBad =>
    cases hr
    exact ⟨fun _ => rfl, fun t' ht' => by cases ht'; trivial, Nat.lt_succ_self _⟩
  | unlink =>
    cases hr
    exact ⟨fun _ => rfl, nofun, Nat.one_pos⟩

theorem test_keeps {a : Answer} (hinv : Inv v s) (hf : Friendly v s (.test a)) (h : step v s (.test a) = some s') :
    Inv v s' ∧ rank v s' < rank v s := by
  obtain ⟨t, r, ht, hr, rfl⟩ := test_spec h
  have hat := hinv.point t ht
  by_cases hstart : t = .start
  · subst hstart
    obtain ⟨hc, hu, hpipe, hwriter⟩ := hat
    have hloop := rank_loop v v.size
    cases hr
    refine ⟨⟨fun hc => ?_, fun hseq => ?_, fun t' ht' => ?_⟩, ?_⟩
    · refine Eq.trans ?_ (hinv.size hc)
      dsimp only
      split <;> rfl
    · rw [hc] at hseq
      cases hseq
    · cases ht'
      refine at_loop (Nat.le_refl _) ?_ (fun _ => ?_) fun hseq => ?_
      · dsimp only
        split <;> exact hwriter
      · cases herr : a.isErr with
        | true =>
          -- the thread is refused, and all that is to be spliced fits in the pipe
          have hfits := hf hc ⟨ht, herr⟩
          rw [ht, hpipe] at hfits
          show Reads v v.size _ s.reader
          rw [hu]
          refine ⟨?_, Nat.succ_pos _⟩
          show v.size + s.mem.pipe.length ≤ v.capacity
          rw [hpipe]
          exact hfits
        | false =>
          show v.size + s.mem.pipe.length = v.size
          rw [hpipe]
          rfl
      · rw [hc] at hseq
        cases hseq
    · unfold rank
      rw [ht, hu]
      have hreader : Reader.rank v (if Point.start = .start ∧ !a.isErr then some (.reading .kmalloc) else none) ≤
          v.size + 3 := by
        split
        · exact Nat.le_refl _
        · exact Nat.zero_le _
      refine Nat.lt_of_le_of_lt (Nat.add_le_add hloop hreader) ?_
      show 5 * v.size + 8 + (v.size + 3) < 6 * v.size + 12
      omega
  · rw [if_neg fun hs => hstart hs.1]
    obtain ⟨hsize, hnext, hrank⟩ := code_keeps hstart hat hr
    refine ⟨⟨fun hc => (hsize hc).trans (hinv.size hc), hinv.seq, hnext⟩, ?_⟩
    unfold rank
    rw [ht]
    exact Nat.add_lt_add_right hrank _

theorem reader_spec {a : Answer} (h : step v s (.reader a) = some s') : ∃ u r, s.reader = some u ∧
    readerThread a u s.mem = some r ∧ s' = { s with reader := some r.1, mem := r.2 } := by
  obtain ⟨u, hu, h⟩ := Option.bind_eq_some_iff.1 h
  obtain ⟨r, hr, heq⟩ := Option.map_eq_some_iff.1 h
  exact ⟨u, r, hu, hr, heq.symm⟩

/-- The reader moves, and a point of the function that allows it where it was allows it where it is. -/
theorem at_of_reader {u u' : Reader} {m m' : Frame} {t : Point} (hat : At v (some u) m t) (hc : v.concurrent = true)
    (hwriter : m'.writer = m.writer) (hends : Ends m' (some u'))
    (hreads : ∀ left, t = .splice left → 0 < left → Reads v left m (some u) → Reads v left m' (some u')) :
    At v (some u') m' t := by
  cases t with
  | kmalloc | openFile | write | closeShort | createPipe | closeNoPipe => cases hat.1
  | start => cases hat.2.1
  | splice left =>
    obtain ⟨hpos, hle, hw, hr⟩ := hat
    rw [if_pos hc] at hr
    refine ⟨hpos, hle, hwriter.trans hw, ?_⟩
    rw [if_pos hc]
    exact hreads left rfl hpos hr
  | reading left n r =>
    rw [hat.1] at hc
    cases hc
  | closePipe1 => exact fun _ => hends
  | wait => exact ⟨hwriter.trans hat.1, hends⟩
  | closePipe0 | closeFile | expectErr | expectBad | unlink => trivial

theorem ends_reading {m : Frame} (r : Reading) : Ends m (some (.reading r)) := by
  rintro (h | h) <;> cases h

/-- A move of the reader, at any point of the function. -/
theorem reader_at {a : Answer} {u : Reader} {m : Frame} {r : Reader × Frame} {t : Point} (hat : At v (some u) m t)
    (hc : v.concurrent = true) (hsize : m.size = v.size)
    (hf : (u = .reading .kmalloc ∧ a.ret = 0) ∨ (∃ n, u = .reading (.read n) ∧ n ≠ 0 ∧ a.ret ≤ 0) →
      toSplice v (some t) ≤ v.capacity - m.pipe.length)
    (hr : readerThread a u m = some r) : At v (some r.1) r.2 t ∧ r.2.size = m.size ∧
      Reader.rank v (some r.1) < Reader.rank v (some u) := by
  -- a reader that ends early leaves no more to splice than fits in the pipe
  have hearly : ∀ (m' : Frame), m'.pipe = m.pipe → toSplice v (some t) ≤ v.capacity - m.pipe.length →
      ∀ left, t = .splice left → 0 < left → Reads v left m' (some (.reading .finished)) := by
    rintro m' hpipe hfits left rfl hpos
    show left + m'.pipe.length ≤ v.capacity
    have hfits : left ≤ v.capacity - m.pipe.length := hfits
    rw [hpipe]
    omega
  cases u with
  | exit => cases hr
  | reading q =>
    cases q with
    | kmalloc =>
      cases hr
      by_cases hret : a.ret = 0
      · rw [if_pos hret]
        refine ⟨at_of_reader hat hc rfl (ends_reading _) fun left ht hpos _ => ?_, rfl, ?_⟩
        · exact hearly _ rfl (hf (Or.inl ⟨rfl, hret⟩)) left ht hpos
        · show 1 < v.size + 3
          omega
      · rw [if_neg hret]
        refine ⟨at_of_reader hat hc rfl (ends_reading _) fun left ht hpos hreads => ?_, rfl, ?_⟩
        · exact hsize.trans (Eq.symm hreads)
        · show m.size + 2 < v.size + 3
          omega
    | read n =>
      obtain ⟨x, hx, rfl⟩ := Option.map_eq_some_iff.1 hr
      rcases read_spec hx with ⟨hn, rfl⟩ | ⟨hn, hret, err, -, rfl⟩ | ⟨k, bad, hk, hkn, hklen, rfl⟩
      · refine ⟨at_of_reader hat hc rfl (ends_reading _) fun left ht hpos hreads => ?_, rfl, ?_⟩
        · have hreads : n = left + m.pipe.length := hreads
          omega
        · show 1 < n + 2
          omega
      · refine ⟨at_of_reader hat hc rfl (ends_reading _) fun left ht hpos _ => ?_, rfl, ?_⟩
        · exact hearly _ rfl (hf (Or.inr ⟨n, rfl, hn, hret⟩)) left ht hpos
        · show 1 < n + 2
          omega
      · refine ⟨at_of_reader hat hc rfl (ends_reading _) fun left ht hpos hreads => ?_, rfl, ?_⟩
        · have hreads : n = left + m.pipe.length := hreads
          show n - k = left + (m.pipe.drop k).length
          rw [List.length_drop]
          omega
        · show n - k + 2 < n + 2
          omega
    | finished =>
      cases hr
      refine ⟨at_of_reader hat hc rfl (fun _ => Nat.succ_pos _) fun left ht hpos hreads => ?_, rfl, Nat.one_pos⟩
      exact ⟨hreads, Nat.succ_pos _⟩

theorem reader_keeps {a : Answer} (hinv : Inv v s) (hf : Friendly v s (.reader a))
    (h : step v s (.reader a) = some s') :
    Inv v s' ∧ rank v s' < rank v s := by
  obtain ⟨u, r, hu, hr, rfl⟩ := reader_spec h
  have hc : v.concurrent = true := by
    cases hseq : v.concurrent with
    | true => rfl
    | false => cases hu.symm.trans (hinv.seq hseq)
  have hearly : (u = .reading .kmalloc ∧ a.ret = 0) ∨ (∃ n, u = .reading (.read n) ∧ n ≠ 0 ∧ a.ret ≤ 0) →
      toSplice v s.test ≤ v.capacity - s.mem.pipe.length := by
    rintro (⟨rfl, hret⟩ | ⟨n, rfl, hn, hret⟩)
    · exact hf hc (Or.inl ⟨hu, hret⟩)
    · exact hf hc (Or.inr ⟨n, hu, hn, hret⟩)
  -- once the function is left, any point past the pipe speaks for it
  obtain ⟨hsize, hrank⟩ : r.2.size = s.mem.size ∧ Reader.rank v (some r.1) < Reader.rank v (some u) :=
    (reader_at (t := .closePipe0) trivial hc (hinv.size hc) (fun _ => Nat.zero_le _) hr).2
  refine ⟨⟨fun hc => hsize.trans (hinv.size hc), fun hseq => ?_, fun t ht => ?_⟩, ?_⟩
  · rw [hc] at hseq
    cases hseq
  · have hat := hinv.point t ht
    rw [hu] at hat
    exact (reader_at hat hc (hinv.size hc) (ht ▸ hearly) hr).1
  · unfold rank
    rw [hu]
    exact Nat.add_lt_add_left hrank _

theorem step_keeps (s : State) (i : Move) (s' : State) (hinv : Inv v s) (hf : Friendly v s i)
    (h : step v s i = some s') :
    Inv v s' ∧ rank v s' < rank v s := by
  cases i with
  | test a => exact test_keeps hinv hf h
  | reader a => exact reader_keeps hinv hf h

/-! ## A move can be made -/

/-- Some friendly move can be made. -/
def CanMove (v : Variant) (s : State) : Prop := ∃ i, Friendly v s i ∧ (step v s i).isSome = true

theorem test_moves {a : Answer} {t : Point} (ht : s.test = some t) (hr : (code v a t s.mem).isSome = true)
    (hf : ¬ (t = .start ∧ a.isErr = true)) : CanMove v s := by
  refine ⟨.test a, ?_, by simp [step, ht, hr]⟩
  rintro - ⟨hstart, herr⟩
  exact absurd ⟨Option.some.inj (ht.symm.trans hstart), herr⟩ hf

theorem reader_moves {a : Answer} {q : Reading} (hu : s.reader = some (.reading q))
    (hr : (readerThread a (.reading q) s.mem).isSome = true)
    (hf : q = .finished ∨ 0 < a.ret ∨ toSplice v s.test = 0 ∨ q = .read 0) : CanMove v s := by
  refine ⟨.reader a, ?_, by simp [step, hu, hr]⟩
  rintro - hends
  rcases hf with rfl | hret | hdone | rfl
  · rcases hends with ⟨h, -⟩ | ⟨n, h, -⟩
    · cases hu.symm.trans h
    · cases hu.symm.trans h
  · rcases hends with ⟨-, h⟩ | ⟨n, -, -, h⟩ <;> omega
  · rw [hdone]
    exact Nat.zero_le _
  · rcases hends with ⟨h, -⟩ | ⟨n, h, hn, -⟩
    · cases hu.symm.trans h
    · cases hu.symm.trans h
      exact absurd rfl hn

theorem isSome_readFromPipe {a : Answer} {n : Nat} {m : Frame}
    (h : n = 0 ∨ (kernelRead a (min n PAGE_SIZE) m).isSome = true) :
    (readFromPipe a (.read n) m).isSome = true := by
  rw [readFromPipe]
  split
  · rfl
  · rename_i hn
    rw [Option.isSome_map]
    exact h.resolve_left hn

/-- One byte can be read where there is one. -/
theorem one_byte {n : Nat} {m : Frame} (hn : n ≠ 0) (hpipe : m.pipe ≠ []) :
    (kernelRead ⟨1, []⟩ (min n PAGE_SIZE) m).isSome = true := by
  have hlen : 0 < m.pipe.length := List.length_pos_iff.2 hpipe
  have hpage : PAGE_SIZE = 4096 := rfl
  have hle : (1 : Int) ≤ ((min (min n PAGE_SIZE) m.pipe.length : Nat) : Int) := by omega
  rw [kernelRead, if_neg hpipe, if_pos (Or.inr ⟨by decide, hle⟩)]
  rfl

/-- The reader can move while there are bytes in the pipe, or it is closed, unless it is done. -/
theorem reading_moves {q : Reading} (hu : s.reader = some (.reading q))
    (hpipe : s.mem.pipe = [] → s.mem.writer = false ∧ toSplice v s.test = 0) : CanMove v s := by
  cases q with
  | kmalloc => exact reader_moves (a := ⟨1, []⟩) hu rfl (Or.inr (Or.inl (by decide)))
  | read n =>
    have hread : ∀ a, (readerThread a (.reading (.read n)) s.mem).isSome = (readFromPipe a (.read n) s.mem).isSome :=
      fun _ => Option.isSome_map ..
    by_cases hn : n = 0
    · subst hn
      exact reader_moves (a := ⟨1, []⟩) hu rfl (Or.inr (Or.inr (Or.inr rfl)))
    · by_cases hempty : s.mem.pipe = []
      · obtain ⟨hwriter, hdone⟩ := hpipe hempty
        refine reader_moves (a := ⟨0, []⟩) hu ?_ (Or.inr (Or.inr (Or.inl hdone)))
        rw [hread]
        refine isSome_readFromPipe (Or.inr ?_)
        rw [kernelRead, if_pos hempty, if_pos ⟨hwriter, Int.le_refl 0⟩]
        rfl
      · refine reader_moves (a := ⟨1, []⟩) hu ?_ (Or.inr (Or.inl (by decide)))
        rw [hread]
        exact isSome_readFromPipe (Or.inr (one_byte hn hempty))
  | finished => exact reader_moves (a := ⟨0, []⟩) hu rfl (Or.inl rfl)

/-- Wherever the function has not been left, some move can be made. -/
theorem can_move {t : Point} (hinv : Inv v s) (ht : s.test = some t) : CanMove v s := by
  have hat := hinv.point t ht
  cases t with
  | splice left =>
    obtain ⟨hpos, hle, hwriter, hreads⟩ := hat
    have hroom := v.room
    by_cases hfull : v.capacity ≤ s.mem.pipe.length
    · -- the reader still has all of the pipe to read
      have hpipe : s.mem.pipe ≠ [] := List.length_pos_iff.1 (by omega)
      cases hc : v.concurrent with
      | false =>
        rw [if_neg (Bool.eq_false_iff.1 hc)] at hreads
        exact absurd hreads hpipe
      | true =>
        rw [if_pos hc] at hreads
        match hu : s.reader, hreads with
        | some (.reading q), _ => exact reading_moves hu fun hempty => absurd hempty hpipe
        | some .exit, hreads =>
          have hfits := hreads.1
          omega
        | none, hreads =>
          have hfits := hreads.1
          omega
    · refine test_moves (a := ⟨1, [0x78]⟩) ht ?_ fun h => by cases h.1
      have hfits : [(0x78 : UInt8)].length ≤ min left (v.capacity - s.mem.pipe.length) := by
        rw [List.length_singleton]
        omega
      rw [code, splice, if_neg hfull, if_neg (by decide), if_pos ⟨rfl, hfits⟩]
      split <;> rfl
  | reading left n r =>
    obtain ⟨hseq, hwriter, hpos, hle, hsize, hreads⟩ := hat
    refine test_moves (a := ⟨1, []⟩) ht ?_ fun h => by cases h.1
    cases r with
    | kmalloc | finished => rfl
    | read k =>
      rw [code, Option.isSome_map]
      · refine isSome_readFromPipe ?_
        by_cases hk : k = 0
        · exact Or.inl hk
        · refine Or.inr (one_byte hk (List.length_pos_iff.1 ?_))
          have hlen := hreads.1
          omega
      · nofun
  | wait =>
    obtain ⟨hwriter, hends⟩ := hat
    by_cases hdone : s.mem.done = 0
    · match hu : s.reader, hends with
      | some (.reading q), _ => exact reading_moves hu fun _ => ⟨hwriter, by rw [ht]; rfl⟩
      | some .exit, hends => exact absurd (hends (Or.inl rfl)) (by omega)
      | none, hends => exact absurd (hends (Or.inr rfl)) (by omega)
    · refine test_moves (a := ⟨0, []⟩) ht ?_ fun h => by cases h.1
      rw [code, if_neg hdone]
      rfl
  | _ => exact test_moves (a := ⟨0, []⟩) ht rfl fun h => absurd h.2 (by decide)

/-! ## Runs -/

/-- In a run that does not end the reader while more than the free room is left to splice, the function never waits for
room for good, makes a bounded number of moves, and comes to its end. -/
theorem splice_runs_end {is : List Move} (h : Run (step v) (Friendly v) (init v) is s) :
    ¬ Stuck v s ∧ is.length ≤ rank v (init v) ∧
      ∃ js s', Run (step v) (Friendly v) s js s' ∧ s'.test = none := by
  have hinv := h.inv (fun s i s' hs hf hstep => (step_keeps s i s' hs hf hstep).1) (init_inv v)
  refine ⟨?_, ?_, ?_⟩
  · rintro ⟨⟨left, ht⟩, hblocked⟩
    obtain ⟨i, -, hmove⟩ := can_move hinv ht
    rw [hblocked i] at hmove
    cases hmove
  · have hle := h.length_le step_keeps (init_inv v)
    omega
  · refine exists_run_to step_keeps (fun s hs hend => ?_) hinv
    obtain ⟨t, ht⟩ := Option.ne_none_iff_exists'.1 hend
    obtain ⟨i, hf, hmove⟩ := can_move hs ht
    obtain ⟨s', hstep⟩ := Option.isSome_iff_exists.1 hmove
    exact ⟨i, s', hf, hstep⟩

/-- A pipe of 16 bytes, and a file of 150. -/
def small (concurrent : Bool) : Variant := ⟨concurrent, 1, 16, by decide⟩

/-- A pipe of 100 bytes. -/
def wide : Variant := ⟨true, 1, 100, by decide⟩

/-- The file is written and the pipe made. -/
def setup : List Move := [.test ⟨1, []⟩, .test ⟨3, []⟩, .test ⟨150, []⟩, .test ⟨0, []⟩]

/-- The reader empties the pipe once and fails when it holds 20 bytes and the 30 that are left fit. -/
def lateEnd : List Move :=
  setup ++ [.test ⟨1, []⟩, .test ⟨100, List.replicate 100 0x78⟩, .reader ⟨1, []⟩, .reader ⟨100, []⟩,
    .test ⟨20, List.replicate 20 0x78⟩, .reader ⟨-5, []⟩, .reader ⟨0, []⟩, .test ⟨30, List.replicate 30 0x78⟩]

theorem splice_runs_end_late : ∃ s, Run (step wide) (Friendly wide) (init wide) lateEnd s ∧
    s.test = some .closePipe1 ∧ ¬ Stuck wide s ∧ lateEnd.length ≤ rank wide (init wide) ∧
      ∃ js s', Run (step wide) (Friendly wide) s js s' ∧ s'.test = none := by
  have hexec : exec (step wide) (Friendly wide) (init wide) lateEnd =
      some ⟨some .closePipe1, some .exit, ⟨List.replicate 50 0x78, true, 150, -5, 0, 1⟩, false⟩ := by decide +kernel
  exact ⟨_, run_exec hexec, rfl, splice_runs_end (run_exec hexec)⟩

/-! ## A reader that is gone -/

/-- With the reader gone and more to splice than there is room, the pipe can be filled for good. -/
theorem stuck_without_reader {left : Nat} (ht : s.test = some (.splice left)) (hc : v.concurrent = true)
    (hgone : s.reader = none ∨ s.reader = some .exit) (hmore : v.capacity - s.mem.pipe.length < left) :
    ∃ js s', Run (step v) (fun _ _ => True) s js s' ∧ Stuck v s' := by
  have hblocked : ∀ {s : State} {left : Nat}, s.test = some (.splice left) → v.capacity ≤ s.mem.pipe.length →
      (s.reader = none ∨ s.reader = some .exit) → Stuck v s := by
    intro s left ht hfull hgone
    refine ⟨⟨left, ht⟩, fun i => ?_⟩
    cases i with
    | test a =>
      unfold step
      dsimp only
      rw [ht, Option.bind_some, code, splice, if_pos hfull]
      rfl
    | reader a =>
      unfold step
      dsimp only
      rcases hgone with h | h <;> rw [h] <;> rfl
  by_cases hfull : v.capacity ≤ s.mem.pipe.length
  · exact ⟨[], s, .nil s, hblocked ht hfull hgone⟩
  · obtain ⟨n, hn⟩ : ∃ n, v.capacity - s.mem.pipe.length = n + 1 := ⟨_, (Nat.succ_pred (by omega)).symm⟩
    have hlen : (List.replicate (n + 1) (0x78 : UInt8)).length = n + 1 := List.length_replicate
    have hmoved : code v ⟨n + 1, List.replicate (n + 1) 0x78⟩ (.splice left) s.mem = some
        ⟨some (loop (left - (n + 1))), { s.mem with pipe := s.mem.pipe ++ List.replicate (n + 1) 0x78 }, false⟩ := by
      have hret : ¬ ((n : Int) + 1 ≤ 0) := by omega
      have hbytes : ((List.replicate (n + 1) (0x78 : UInt8)).length : Int) = (n : Int) + 1 ∧
          (List.replicate (n + 1) (0x78 : UInt8)).length ≤ min left (v.capacity - s.mem.pipe.length) := by
        rw [hlen]
        omega
      rw [code, splice, if_neg hfull, if_neg hret, if_pos hbytes, if_pos hc, hlen]
    have hstep : step v s (.test ⟨n + 1, List.replicate (n + 1) 0x78⟩) = some ⟨some (loop (left - (n + 1))), s.reader,
        { s.mem with pipe := s.mem.pipe ++ List.replicate (n + 1) 0x78 }, s.failed⟩ := by
      unfold step
      dsimp only
      rw [ht, Option.bind_some, hmoved]
      simp
    have hleft : ¬ left - (n + 1) = 0 := by omega
    refine ⟨_, _, .cons trivial hstep (.nil _), @hblocked _ (left - (n + 1)) ?_ ?_ hgone⟩
    · show some (loop _) = _
      rw [loop, if_neg hleft]
    · show v.capacity ≤ (s.mem.pipe ++ _).length
      rw [List.length_append, hlen]
      omega

/-- The thread is refused: the first splice fills the pipe, and the second waits for ever. -/
theorem refused_reader_sticks : ∃ is s, Run (step (small true)) (fun _ _ => True) (init (small true)) is s ∧
    Stuck (small true) s := by
  have hrun : exec (step (small true)) (fun _ _ => True) (init (small true)) (setup ++ [.test ⟨-11, []⟩]) =
      some ⟨some (.splice 150), none, ⟨[], true, 150, -11, 0, 1⟩, false⟩ := by decide
  obtain ⟨js, s', hjs, hstuck⟩ := stuck_without_reader (v := small true)
    (s := ⟨some (.splice 150), none, ⟨[], true, 150, -11, 0, 1⟩, false⟩) rfl rfl (Or.inl rfl) (by decide)
  exact ⟨_, s', (run_exec hrun).append hjs, hstuck⟩

end NfsPlayground.Races.G591
