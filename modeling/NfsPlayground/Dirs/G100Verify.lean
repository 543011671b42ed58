import NfsPlayground.Dirs.G100Tree
import Mathlib.Data.List.Nodup
import Mathlib.Data.List.Perm.Subperm

/-!
# generic/100: what the comparison accepts

`g100_verify()` reports no failure exactly when the destination looks like the tree (`verify_judged`): the directories
are there and what is counted in them is right, and each file begins with its bytes. `looks_iff` says this without the
recursion.
-/

namespace NfsPlayground.Dirs.G100

open Lines Posix Readdir Races PyText

/-! ## What is counted in a directory -/

/-- The letter and a digit, as `%d` writes the number. -/
theorem numbered_iff {letter : Char} {count : Nat} (hcount : count ≤ 10) (n : Text) :
    numbered letter count n = true ↔ ∃ i < count, n = letter :: decimal i := by
  have hdec : ∀ i < count, decimal i = [Nat.digitChar i] := fun i hi =>
    Nat.toDigits_of_lt_base (Nat.lt_of_lt_of_le hi hcount)
  have hchar : ∀ i < 10, (Nat.digitChar i).toNat = '0'.toNat + i := by decide
  unfold numbered
  split
  · rename_i a c
    rw [decide_eq_true_iff]
    constructor
    · rintro ⟨rfl, hlow, hhigh⟩
      refine ⟨c.toNat - '0'.toNat, by omega, ?_⟩
      rw [hdec _ (by omega)]
      have hc : c = Nat.digitChar (c.toNat - '0'.toNat) := by
        refine Char.ext (UInt32.toNat.inj ?_)
        exact (show c.toNat = '0'.toNat + (c.toNat - '0'.toNat) by omega).trans (hchar _ (by omega)).symm
      rw [← hc]
    · rintro ⟨i, hi, heq⟩
      rw [hdec i hi] at heq
      obtain ⟨rfl, htail⟩ := List.cons.inj heq
      rw [(List.cons.inj htail).1, hchar i (by omega)]
      exact ⟨rfl, by omega, by omega⟩
  · rename_i hshape
    refine iff_of_false Bool.false_ne_true ?_
    rintro ⟨i, hi, rfl⟩
    rw [hdec i hi] at hshape
    exact hshape _ _ rfl

/-- A name the actor does not expect. -/
def Alien (n : Text) : Prop := ¬ IsDot n ∧ numbered 'd' G100_DIRS n = false ∧ numbered 'f' G100_FILES n = false

instance : DecidablePred Alien := fun _ => inferInstanceAs (Decidable (_ ∧ _))

theorem not_dot_of_numbered {letter : Char} (hl : letter ≠ '.') {count : Nat} {n : Text}
    (h : numbered letter count n = true) : ¬ IsDot n := by
  rintro (rfl | rfl)
  · cases h
  · simp [numbered, Ne.symm hl] at h

/-- The actor counts a list of names. -/
structure Counted (l : List Text) (it : Dirents) : Prop where
  dirs : it.dirs = cint (l.countP (numbered 'd' G100_DIRS))
  files : it.files = cint (l.countP (numbered 'f' G100_FILES))
  alien : it.alien = cint (l.countP Alien)

/-- What the actor does with a name: it takes it, and counts it as one of four kinds. -/
theorem after_actor (it : Dirents) (n : Text) : (g100_actor it n).1 = true ∧ after g100_actor it n =
    ⟨if numbered 'd' G100_DIRS n then incr it.dirs else it.dirs,
      if numbered 'f' G100_FILES n then incr it.files else it.files,
      if Alien n then incr it.alien else it.alien, incr it.total⟩ := by
  unfold after g100_actor
  by_cases hdot : IsDot n
  · have hd : numbered 'd' G100_DIRS n = false :=
      Bool.eq_false_iff.2 fun h => not_dot_of_numbered (by decide) h hdot
    have hf : numbered 'f' G100_FILES n = false :=
      Bool.eq_false_iff.2 fun h => not_dot_of_numbered (by decide) h hdot
    simp [Alien, hdot, hd, hf]
  · cases hd : numbered 'd' G100_DIRS n with
    | true =>
      have hf : numbered 'f' G100_FILES n = false := by
        refine Bool.eq_false_iff.2 fun h => ?_
        obtain ⟨i, -, hi⟩ := (numbered_iff (by decide) n).1 h
        obtain ⟨j, -, hj⟩ := (numbered_iff (by decide) n).1 hd
        exact fname_ne_dname i j (hi.symm.trans hj)
      simp [Alien, hdot, hd, hf]
    | false =>
      cases hf : numbered 'f' G100_FILES n <;> simp [Alien, hdot, hd, hf]

theorem counted (l : List Text) : Counted l (l.foldl (after g100_actor) ⟨0, 0, 0, 0⟩) := by
  induction l using List.reverseRecOn with
  | nil => exact ⟨rfl, rfl, rfl⟩
  | append_singleton l n ih =>
    rw [List.foldl_append, List.foldl_cons, List.foldl_nil, (after_actor _ n).2]
    refine ⟨?_, ?_, ?_⟩
    · rw [countP_concat, ih.dirs]
      by_cases hn : numbered 'd' G100_DIRS n = true <;> simp [hn, incr_cint]
    · rw [countP_concat, ih.files]
      by_cases hn : numbered 'f' G100_FILES n = true <;> simp [hn, incr_cint]
    · rw [countP_concat, ih.alien]
      by_cases hn : Alien n <;> simp [hn, incr_cint]

/-- The names that the walk over a directory reads. -/
def readNames (rd : Reader) (q : Path) : List Text :=
  (rd.names q).take (reach (rd.size q) (rd.names q).length)

/-- The counts over a directory are those of one with `dirs` directories, as far as an `int` tells. -/
def Listed (rd : Reader) (q : Path) (dirs : Nat) : Prop :=
  cint ((readNames rd q).countP (numbered 'f' G100_FILES)) = G100_FILES ∧
    cint ((readNames rd q).countP (numbered 'd' G100_DIRS)) = dirs ∧ cint ((readNames rd q).countP Alien) = 0

/-- What `g100_verify_dir()` asks of a directory. -/
def DirLooks (fs : Fs Text) (rd : Reader) (q : Path) (dirs : Nat) : Prop := fs.view q = some .dir ∧ Listed rd q dirs

variable {fs : Fs Text} {rd : Reader} {q : Path}

theorem actor_total (it : Dirents) (n : Text) : (after g100_actor it n).total = incr it.total := by
  rw [(after_actor it n).2]

/-- The directory is opened, and its counts decide the expectations. -/
theorem verify_dir_ok (rd : Reader) (hup : fs.Up) (hq : Proper q) (depth : Nat) (hdir : fs.view q = some .dir) :
    ∃ failed, g100_verify_dir fs rd (joined q) depth = .ok failed ∧
      (failed = false ↔ Listed rd q (if depth = 0 then 0 else G100_DIRS)) := by
  have hget := Fs.view_dir.1 hdir
  have habove : fs.above q = none := by
    rcases List.eq_nil_or_concat q with rfl | ⟨d, n, rfl⟩
    · unfold Fs.above
      rw [List.findSome?_eq_none_iff]
      intro p hp
      rw [List.mem_singleton.1 hp, hget]
    · rw [List.concat_eq_append] at *
      exact Fs.above_of_dir (hup.dir (hup hget)) n
  have hwalk : walk g100_actor Dirents.total (rd.names q) (rd.size q) ((rd.names q).length + 1) 0 0 ⟨0, 0, 0, 0⟩ =
      some ((readNames rd q).foldl (after g100_actor) ⟨0, 0, 0, 0⟩) :=
    walk_spec (fun it n => (after_actor it n).1) rfl actor_total (Nat.lt_succ_self (rd.names q).length)
  have hcount := counted (readNames rd q)
  unfold g100_verify_dir
  rw [components_joined hq]
  dsimp only
  rw [if_pos ⟨habove, hget⟩, hwalk]
  refine ⟨_, rfl, ?_⟩
  unfold Listed
  rw [show (readNames rd q).foldl (after g100_actor) ⟨0, 0, 0, 0⟩ = _ from rfl] at hcount
  rw [← hcount.files, ← hcount.dirs, ← hcount.alien]
  unfold readNames
  by_cases hdepth : depth = 0 <;> simp [hdepth, Bool.or_eq_false_iff, and_assoc]

theorem verify_dir_error (hq : Proper q) (depth : Nat) (hdir : fs.view q ≠ some .dir) (failed : Bool) :
    g100_verify_dir fs rd (joined q) depth ≠ .ok failed := by
  unfold g100_verify_dir
  rw [components_joined hq]
  dsimp only
  rw [if_neg fun h => hdir (Fs.view_dir.2 h.2)]
  nofun

/-! ## What is read of a file -/

/-- The file begins with the bytes of its number. -/
def FileLooks (fs : Fs Text) (q : Path) (seed : UInt32) : Prop := ∃ t, fs.view q = some (.file (g100_fill seed ++ t))

theorem getD_fill (seed : UInt32) {j : Nat} (hj : j < G100_FILESZ) : (g100_fill seed).getD j 0 = g100_byte seed j := by
  rw [g100_fill, List.getD_eq_getElem?_getD, List.getElem?_map, List.getElem?_range hj]
  rfl

theorem differs_iff {b : List UInt8} (hb : b.length = G100_FILESZ) (seed : UInt32) :
    ((List.range G100_FILESZ).any fun j => b.getD j 0 ≠ g100_byte seed j) = false ↔ b = g100_fill seed := by
  rw [List.any_eq_false]
  constructor
  · intro h
    refine List.ext_getElem (hb.trans (length_fill seed).symm) fun j hj hj' => ?_
    have hsame : b.getD j 0 = (g100_fill seed).getD j 0 := by
      rw [getD_fill seed (hb ▸ hj)]
      simpa using h j (List.mem_range.2 (hb ▸ hj))
    rwa [List.getD_eq_getElem?_getD, List.getD_eq_getElem?_getD, List.getElem?_eq_getElem hj,
      List.getElem?_eq_getElem hj'] at hsame
  · intro heq j hj
    rw [heq, getD_fill seed (List.mem_range.1 hj)]
    simp

/-- Without a file of the right length the read comes back short. -/
theorem read_range_short (hup : fs.Up) (hq : Proper q) (i : Nat)
    (h : ∀ b, fs.view (q ++ [fname i]) = some (.file b) → b.length < G100_FILESZ) :
    (xfs_read_range fs (joined (q ++ [fname i])) G100_FILESZ 0).1 ≠ G100_FILESZ := by
  by_cases hfile : ∃ b, fs.view (q ++ [fname i]) = some (.file b)
  · obtain ⟨b, hview⟩ := hfile
    obtain ⟨k, hget, -⟩ := Fs.get_of_view hview
    have hlt := h b hview
    rw [read_range_file hq i (hup.dir (hup hget)) hview, List.take_of_length_le (Nat.le_of_lt hlt)]
    exact fun heq => absurd (Int.natCast_inj.1 heq) (Nat.ne_of_lt hlt)
  · have hneg : fs.openFile (q ++ [fname i]) < 0 := Fs.openFile_neg fun k hk => hfile ⟨_, Fs.view_of_get hk⟩
    unfold xfs_read_range
    rw [components_joined (hq.file i)]
    dsimp only
    rw [if_pos hneg]
    exact Int.ne_of_lt (Int.lt_of_lt_of_le hneg (Int.natCast_nonneg _))

/-! ## Judging -/

/-- A run is judged: if `P` holds it ends in `s` without a failure, and otherwise not without one. -/
structure Judged (P : Prop) (s : Verify) (x : Except Failed Verify) : Prop where
  good : P → x = .ok s
  bad : ¬ P → ∀ s', x = .ok s' → s'.failed = true

/-- A failure is not forgotten. -/
def Sticky (f : Verify → Except Failed Verify) : Prop := ∀ s s', s.failed = true → f s = .ok s' → s'.failed = true

theorem Sticky.bind {f g : Verify → Except Failed Verify} (hf : Sticky f) (hg : Sticky g) :
    Sticky fun s => f s >>= g := by
  intro s s' hs hrun
  obtain ⟨t, hmid, hrest⟩ := Ends.of_bind_ok hrun
  exact hg t s' (hf s t hs hmid) hrest

theorem Sticky.loop {f : Verify → Nat → Except Failed Verify} (hf : ∀ i, Sticky (f · i)) :
    ∀ l : List Nat, Sticky fun s => l.foldlM f s
  | [] => fun s s' hs hrun => by
    rw [← Except.ok.inj hrun]
    exact hs
  | i :: l => (hf i).bind (Sticky.loop hf l)

theorem Judged.bind {P Q : Prop} {s t : Verify} {x : Except Failed Verify} {f : Verify → Except Failed Verify}
    (hx : Judged P s x) (hf : Judged Q t (f s)) (hsticky : Sticky f) : Judged (P ∧ Q) t (x >>= f) := by
  constructor
  · rintro ⟨hp, hq⟩
    rw [hx.good hp]
    exact hf.good hq
  · intro hnot s' hrun
    by_cases hp : P
    · rw [hx.good hp] at hrun
      exact hf.bad (fun hq => hnot ⟨hp, hq⟩) s' hrun
    · obtain ⟨s₁, hmid, hrest⟩ := Ends.of_bind_ok hrun
      exact hsticky s₁ s' (hx.bad hp s₁ hmid) hrest

theorem Judged.congr {P Q : Prop} {s : Verify} {x : Except Failed Verify} (h : Judged P s x) (hpq : P ↔ Q) :
    Judged Q s x :=
  ⟨fun hq => h.good (hpq.2 hq), fun hnot => h.bad (mt hpq.1 hnot)⟩

/-- A loop is judged by its passes. -/
theorem Judged.loop {f : Verify → Nat → Except Failed Verify} {C : Nat → Prop} {t : Nat → Verify}
    (hf : ∀ i, Sticky (f · i)) : ∀ (n : Nat), (∀ i < n, Judged (C i) (t (i + 1)) (f (t i) i)) →
      Judged (∀ i < n, C i) (t n) ((List.range n).foldlM f (t 0))
  | 0, _ => ⟨fun _ => rfl, fun hnot => absurd (fun i hi => absurd hi (Nat.not_lt_zero i)) hnot⟩
  | n + 1, h => by
    have ih := Judged.loop hf n fun i hi => h i (Nat.lt_succ_of_lt hi)
    rw [List.range_succ, List.foldlM_append]
    refine (ih.bind (Q := C n) (t := t (n + 1)) ?_ (Sticky.loop hf [n])).congr ?_
    · rw [List.foldlM_cons]
      have hn := h n (Nat.lt_succ_self n)
      constructor
      · intro hc
        rw [hn.good hc]
        rfl
      · intro hnot s' hrun
        obtain ⟨t, hmid, hrest⟩ := Ends.of_bind_ok hrun
        rw [← Except.ok.inj hrest]
        exact hn.bad hnot t hmid
    · rw [Nat.forall_lt_succ_right]

/-! ## The comparison -/

theorem verifyFile_sticky (len i : Nat) : Sticky (verifyFile fs len · i) := by
  intro s s' hs hrun
  unfold verifyFile at hrun
  dsimp only at hrun
  split at hrun
  · rw [← Except.ok.inj hrun]
    exact Bool.or_eq_true_iff.2 (Or.inl hs)
  · cases hrun

theorem verifyDir_sticky {verify : Verify → Except Failed Verify} (h : Sticky verify) (len i : Nat) :
    Sticky (verifyDir verify len · i) := by
  intro s s' hs hrun
  obtain ⟨t, hmid, rfl⟩ := Ends.of_map_ok hrun
  exact h { s with path := extend s.path len 'd' i } t hs hmid

theorem verify_sticky : ∀ depth, Sticky (g100_verify fs rd depth)
  | 0 => by
    intro s s' hs hrun
    obtain ⟨failed, -, hrest⟩ := Ends.of_bind_ok hrun
    exact Sticky.loop (verifyFile_sticky _) _ _ s' (Bool.or_eq_true_iff.2 (Or.inl hs)) hrest
  | depth + 1 => by
    intro s s' hs hrun
    obtain ⟨failed, -, hrest⟩ := Ends.of_bind_ok hrun
    obtain ⟨t, hfiles, hdirs⟩ := Ends.of_bind_ok hrest
    have ht := Sticky.loop (verifyFile_sticky _) _ _ t (Bool.or_eq_true_iff.2 (Or.inl hs)) hfiles
    exact Sticky.loop (verifyDir_sticky (verify_sticky depth) _) _ t s' ht hdirs

/-- The state before the file `i`. -/
def fileState (q : Path) (seed : UInt32) (i : Nat) : Verify := ⟨joined q, seed + UInt32.ofNat i, false⟩

theorem verifyFile_judged (hup : fs.Up) (hq : Proper q) (seed : UInt32) (i : Nat) :
    Judged (FileLooks fs (q ++ [fname i]) (seed + UInt32.ofNat i + 1)) (fileState q seed (i + 1))
      (verifyFile fs (joined q).length (fileState q seed i) i) := by
  have hnext : fileState q seed (i + 1) = ⟨joined q, seed + UInt32.ofNat i + 1, false⟩ := by
    rw [fileState, UInt32.ofNat_add, ← UInt32.add_assoc]
    rfl
  rw [hnext]
  unfold verifyFile fileState
  rw [extend_file]
  dsimp only
  by_cases hfile : ∃ b, fs.view (q ++ [fname i]) = some (.file b) ∧ G100_FILESZ ≤ b.length
  · obtain ⟨b, hview, hlen⟩ := hfile
    obtain ⟨k, hget, -⟩ := Fs.get_of_view hview
    have htake : (b.take G100_FILESZ).length = G100_FILESZ := by rw [List.length_take, Nat.min_eq_left hlen]
    have hlooks : FileLooks fs (q ++ [fname i]) (seed + UInt32.ofNat i + 1) ↔
        b.take G100_FILESZ = g100_fill (seed + UInt32.ofNat i + 1) := by
      unfold FileLooks
      rw [hview]
      constructor
      · rintro ⟨t, ht⟩
        rw [Item.file.inj (Option.some.inj ht), ← length_fill (seed + UInt32.ofNat i + 1), List.take_left]
      · intro ht
        exact ⟨b.drop G100_FILESZ, by rw [← ht, List.take_append_drop]⟩
    rw [read_range_file hq i (hup.dir (hup hget)) hview, htake, if_pos rfl, take_joined, hlooks,
      ← differs_iff htake, Bool.false_or]
    generalize (List.range G100_FILESZ).any _ = differs
    refine ⟨fun hsame => by rw [hsame], fun hdiff s' hrun => ?_⟩
    rw [← Except.ok.inj hrun]
    exact Bool.of_not_eq_false hdiff
  · have hshort := read_range_short hup hq i fun b hb => Nat.lt_of_not_le fun hle => hfile ⟨b, hb, hle⟩
    rw [if_neg hshort]
    refine ⟨fun hlooks => ?_, fun _ s' hrun => by cases hrun⟩
    obtain ⟨t, ht⟩ := hlooks
    refine absurd ⟨_, ht, ?_⟩ hfile
    rw [List.length_append, length_fill]
    exact Nat.le_add_right G100_FILESZ t.length

/-- What `g100_verify()` asks of a tree. -/
def Looks (fs : Fs Text) (rd : Reader) : Nat → UInt32 → Path → Prop
  | 0, seed, q => DirLooks fs rd q 0 ∧ ∀ i < G100_FILES, FileLooks fs (q ++ [fname i]) (seed + UInt32.ofNat i + 1)
  | depth + 1, seed, q => DirLooks fs rd q G100_DIRS ∧
    (∀ i < G100_FILES, FileLooks fs (q ++ [fname i]) (seed + UInt32.ofNat i + 1)) ∧
    ∀ j < G100_DIRS, Looks fs rd depth (seed + 3 + UInt32.ofNat j * seeds depth) (q ++ [dname j])

/-- The beginning of a call: the directory, and then the rest. -/
theorem verify_dir_judged (rd : Reader) (hup : fs.Up) (hq : Proper q) (depth : Nat) {P : Prop} {t : Verify}
    {seed : UInt32}
    {f : Verify → Except Failed Verify} (hf : Judged P t (f ⟨joined q, seed, false⟩)) (hsticky : Sticky f) :
    Judged (DirLooks fs rd q (if depth = 0 then 0 else G100_DIRS) ∧ P) t
      (g100_verify_dir fs rd (joined q) depth >>= fun failed => f ⟨joined q, seed, false || failed⟩) := by
  by_cases hdir : fs.view q = some .dir
  · obtain ⟨failed, hrun, hfailed⟩ := verify_dir_ok rd hup hq depth hdir
    rw [hrun, Ends.ok_bind]
    constructor
    · rintro ⟨hlooks, hp⟩
      rw [hfailed.2 hlooks.2]
      exact hf.good hp
    · intro hnot s' hrest
      cases failed with
      | false => exact hf.bad (fun hp => hnot ⟨⟨hdir, hfailed.1 rfl⟩, hp⟩) s' hrest
      | true => exact hsticky _ s' rfl hrest
  · refine ⟨fun h => absurd h.1.1 hdir, fun _ s' hrun => ?_⟩
    obtain ⟨failed, hopen, -⟩ := Ends.of_bind_ok hrun
    exact absurd hopen (verify_dir_error hq depth hdir failed)

theorem verify_judged (hup : fs.Up) : ∀ (depth : Nat) {q : Path} (seed : UInt32), Proper q →
    Judged (Looks fs rd depth seed q) ⟨joined q, seed + seeds depth, false⟩
      (g100_verify fs rd depth ⟨joined q, seed, false⟩)
  | 0, q, seed, hq => by
    have hfiles := Judged.loop (f := verifyFile fs (joined q).length) (verifyFile_sticky _) G100_FILES
      fun i _ => verifyFile_judged hup hq seed i
    rw [show fileState q seed 0 = ⟨joined q, seed, false⟩ by simp [fileState]] at hfiles
    exact verify_dir_judged rd hup hq 0 hfiles (Sticky.loop (verifyFile_sticky _) _)
  | depth + 1, q, seed, hq => by
    have hfiles := Judged.loop (f := verifyFile fs (joined q).length) (verifyFile_sticky _) G100_FILES
      fun i _ => verifyFile_judged hup hq seed i
    rw [show fileState q seed 0 = ⟨joined q, seed, false⟩ by simp [fileState]] at hfiles
    have hsticky : ∀ j, Sticky (verifyDir (g100_verify fs rd depth) (joined q).length · j) := fun j =>
      verifyDir_sticky (verify_sticky depth) _ j
    have hdirs := Judged.loop (C := fun j => Looks fs rd depth (seed + 3 + UInt32.ofNat j * seeds depth)
      (q ++ [dname j]))
      (t := fun j => ⟨joined q, seed + 3 + UInt32.ofNat j * seeds depth, false⟩) hsticky G100_DIRS fun j _ => by
        have ih := verify_judged hup depth (seed + 3 + UInt32.ofNat j * seeds depth) (hq.dir j)
        unfold verifyDir
        rw [extend_dir]
        dsimp only
        refine ⟨fun hlooks => ?_, fun hnot s' hrun => ?_⟩
        · rw [ih.good hlooks, seed_succ]
          exact congrArg Except.ok (congrArg (Verify.mk · _ _) (take_joined q _))
        · obtain ⟨t, hmid, rfl⟩ := Ends.of_map_ok hrun
          exact ih.bad hnot t hmid
    have hthree : fileState q seed G100_FILES = ⟨joined q, seed + 3 + UInt32.ofNat 0 * seeds depth, false⟩ := by
      simp [fileState]
      rfl
    rw [← hthree] at hdirs
    have hall := verify_dir_judged rd hup hq (depth + 1) (hfiles.bind hdirs (Sticky.loop hsticky _))
      ((Sticky.loop (verifyFile_sticky _) _).bind (Sticky.loop hsticky _))
    rw [seeds_succ]
    exact hall

/-! ## Without the recursion -/

/-- The destination looks like a tree: where the tree has a directory there is one whose names are counted right, and
where it has a file there is one that begins with its bytes. -/
def Alike (fs : Fs Text) (rd : Reader) (depth : Nat) (m : Path → Option Item) (q : Path) : Prop := ∀ rel,
  match m rel with
  | some .dir => DirLooks fs rd (q ++ rel) (if rel.length < depth then G100_DIRS else 0)
  | some (.file b) => ∃ t, fs.view (q ++ rel) = some (.file (b ++ t))
  | none => True

theorem looks_iff : ∀ (depth : Nat) (seed : UInt32) (q : Path),
    Looks fs rd depth seed q ↔ Alike fs rd depth (made depth seed) q
  | 0, seed, q => by
    constructor
    · rintro ⟨hdir, hfiles⟩ rel
      cases rel with
      | nil => simpa [made, level_nil] using hdir
      | cons n rel =>
        rcases level_cases G100_FILES 0 n with ⟨i, hi, rfl⟩ | ⟨j, hj, -⟩ | ⟨hf, hd⟩
        · rw [made, level_file hi]
          cases rel with
          | nil => exact hfiles i hi
          | cons m rel => trivial
        · exact absurd hj (Nat.not_lt_zero j)
        · rw [made, level_none hf hd]
          trivial
    · intro h
      refine ⟨?_, fun i hi => ?_⟩
      · simpa [made, level_nil] using h []
      · have hi' := h [fname i]
        rw [made, level_file hi, if_pos rfl] at hi'
        exact hi'
  | depth + 1, seed, q => by
    constructor
    · rintro ⟨hdir, hfiles, hdirs⟩ rel
      cases rel with
      | nil => simpa [made, level_nil] using hdir
      | cons n rel =>
        rcases level_cases G100_FILES G100_DIRS n with ⟨i, hi, rfl⟩ | ⟨j, hj, rfl⟩ | ⟨hf, hd⟩
        · rw [made, level_file hi]
          cases rel with
          | nil => exact hfiles i hi
          | cons m rel => trivial
        · have hsub := (looks_iff depth _ _).1 (hdirs j hj) rel
          rw [made, level_dir hj]
          simpa [List.append_assoc] using hsub
        · rw [made, level_none hf hd]
          trivial
    · intro h
      refine ⟨?_, fun i hi => ?_, fun j hj => (looks_iff depth _ _).2 fun rel => ?_⟩
      · simpa [made, level_nil] using h []
      · have hi' := h [fname i]
        rw [made, level_file hi, if_pos rfl] at hi'
        exact hi'
      · have hj' := h (dname j :: rel)
        rw [made, level_dir hj] at hj'
        simpa [List.append_assoc] using hj'

end NfsPlayground.Dirs.G100
