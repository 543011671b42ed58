import NfsPlayground.Races.Tree707
import NfsPlayground.Races.World

/-!
# generic/707 on a file system where calls are atomic

While the directory moves, the creator of the turn may have read where it was at any time before. Its call makes a file
in the one directory there is, or finds no parent and fails with `-ENOENT`; so the files that are there are those it has
counted (`Made`). What holds at each point of the test function is `Body`.
-/

namespace NfsPlayground.Races.G707

open Lines Posix Threads

def serve : Call → Fs Text → Int × Fs Text
  | .mounted, fs => (1, fs)
  | .addAction, fs => (0, fs)
  | .kthreadRun, fs => (1, fs)
  | .mkdir p, fs => fs.mkdir p
  | .rename p q, fs => fs.rename p q
  | .create p, fs => fs.create p
  | .filpClose _, fs => (0, fs)
  | .exists p, fs => (if fs.resolves p then 1 else 0, fs)
  | .unlink p, fs => fs.unlink p
  | .rmdir p, fs => fs.rmdir p

def world : World Unit Call Int (Fs Text) := ⟨fun _ => serve, 0⟩

abbrev Config : Type := State Point Creating Frame

/-- The export is mounted, and has nothing at the root of the test. -/
structure Mounted (fs : Fs Text) : Prop where
  tidy : fs.Tidy
  mnt : fs.get XFS_MNT = some .dir
  free : fs.get G707_ROOT = none

/-! ## What the creator has made -/

/-- The numbers of the files tried are below this. -/
def Creating.bound : Creating → Nat
  | .head i | .read i | .create i _ => i
  | .close i _ | .tally i _ => i + 1
  | .complete | .exit => G707_FILES

/-- The files made and not counted yet. -/
def Creating.pending : Creating → Nat
  | .close _ _ => 1
  | .tally _ err => if err = 0 then 1 else 0
  | _ => 0

def Creating.Within : Creating → Finset Nat → Prop
  | .head i, _ => i ≤ G707_FILES
  | .read i, _ | .create i _, _ => i < G707_FILES
  | .close i _, files => i < G707_FILES ∧ i ∈ files
  | .tally i err, _ => i < G707_FILES ∧ (err = 0 ∨ err = -ENOENT)
  | .complete, _ | .exit, _ => True

structure Made (u : Creating) (files : Finset Nat) (c : Creator) : Prop where
  lt : ∀ x ∈ files, x < u.bound
  count : c.created + u.pending = files.card
  within : u.Within files

/-! ## The invariant -/

/-- The directory is in the parent `k`, with the files that the creator of the turn has made. -/
def Racing (l k : Nat) (s : Config) (fs : Fs Text) : Prop :=
  ∃ files, Grown (G707_MOVES + 1) (some k) files fs ∧ Made (s.thread l) files (s.mem.creator l)

/-- Of the names below `i` those that are there have been counted. -/
def Counted (l i : Nat) (s : Config) (fs : Fs Text) : Prop :=
  ∃ files, Grown (G707_MOVES + 1) (some G707_MOVES) files fs ∧ Made (s.thread l) files (s.mem.creator l) ∧
    s.mem.found = ((Finset.range i).filter (· ∈ files)).card

/-- The names below `i` are gone. -/
def Cleaned (i : Nat) (fs : Fs Text) : Prop :=
  ∃ files, Grown (G707_MOVES + 1) (some G707_MOVES) files fs ∧ ∀ x ∈ files, i ≤ x ∧ x < G707_FILES

/-- What holds at a program point. -/
def Body : Point → Config → Fs Text → Prop
  | .mounted, _, fs | .mkdir, _, fs => Mounted fs
  | .addAction, _, fs => Grown 0 none ∅ fs
  | .dirs i, _, fs => i ≤ G707_MOVES + 1 ∧ Grown i none ∅ fs
  | .mkdirDir i, _, fs => i ≤ G707_MOVES ∧ Grown i none ∅ fs
  | .loop _, _, fs | .setPlace _, _, fs | .mkdirMoving _, _, fs => Grown (G707_MOVES + 1) none ∅ fs
  | .start _, _, fs => Grown (G707_MOVES + 1) (some 0) ∅ fs
  | .moves l i, s, fs => i ≤ G707_MOVES ∧ Racing l i s fs
  | .rename l i, s, fs => i < G707_MOVES ∧ Racing l i s fs
  | .publish l i, s, fs => i < G707_MOVES ∧ Racing l (i + 1) s fs
  | .join l, s, fs => Racing l G707_MOVES s fs
  | .expectErr l, s, fs | .setFound l, s, fs => s.done l = true ∧ Racing l G707_MOVES s fs
  | .count l i, s, fs => s.done l = true ∧ i ≤ G707_FILES ∧ Counted l i s fs
  | .present l i, s, fs => s.done l = true ∧ i < G707_FILES ∧ Counted l i s fs
  | .expectCreated l, s, fs =>
    s.done l = true ∧ Racing l G707_MOVES s fs ∧ s.mem.found = (s.mem.creator l).created
  | .clean l i, s, fs => s.done l = true ∧ i ≤ G707_FILES ∧ Cleaned i fs
  | .unlink l i, s, fs => s.done l = true ∧ i < G707_FILES ∧ Cleaned i fs
  | .rmdir l _, s, fs => s.done l = true ∧ Grown (G707_MOVES + 1) (some G707_MOVES) ∅ fs
  | .assertRmdir l, s, fs => s.done l = true ∧ Grown (G707_MOVES + 1) none ∅ fs ∧ s.mem.err = 0
  | .ret, _, _ => True

/-- The turn whose creator has been started last. -/
def turn : Point → Option Nat
  | .moves l _ | .rename l _ | .publish l _ | .join l | .expectErr l | .setFound l | .count l _ | .present l _
  | .expectCreated l | .clean l _ | .unlink l _ | .rmdir l _ | .assertRmdir l => some l
  | _ => none

/-- How many creators have been started. -/
def turns : Point → Option Nat
  | .mounted | .mkdir | .addAction | .dirs _ | .mkdirDir _ => some 0
  | .loop l | .setPlace l | .mkdirMoving l | .start l => some l
  | .ret => none
  | t => (turn t).map (· + 1)

structure Inv (s : Config) (fs : Fs Text) : Prop where
  exit : ∀ l, s.done l = true → s.thread l = .exit
  err : ∀ l, (s.mem.creator l).err = 0
  fresh : ∀ l, s.started l = false → s.done l = false ∧ (s.mem.creator l).created = 0
  ahead : ∀ t n, s.test = some t → turns t = some n → ∀ l, n ≤ l → s.started l = false
  latest : ∀ l, s.started l = true → s.done l = false → ∃ t, s.test = some t ∧ turn t = some l
  body : ∀ t, s.test = some t → Body t s fs

variable {s : Config} {fs fs' : Fs Text} {t t' : Point} {m : Frame} {l i k : Nat}

/-! ## Steps of the test function -/

/-- A step that starts no creator; where it leaves a turn the creator of the turn is done. -/
theorem Inv.goto (h : Inv s fs) (ht : s.test = some t) (hcreator : m.creator = s.mem.creator)
    (hturns : ∀ n, turns t' = some n → turns t = some n)
    (hturn : ∀ l, turn t = some l → turn t' = some l ∨ s.done l = true)
    (hbody : Body t' (s.goto t' m) fs') : Inv (s.goto t' m) fs' := by
  refine ⟨h.exit, fun l => ?_, fun l hl => ?_, fun u n hu hn => ?_, fun l hl hd => ?_, fun u hu => ?_⟩
  · rw [← h.err l]
    exact congrArg (fun c => (c l).err) hcreator
  · obtain ⟨hd, hcreated⟩ := h.fresh l hl
    exact ⟨hd, (congrArg (fun c => (c l).created) hcreator).trans hcreated⟩
  · cases hu
    exact h.ahead t n ht (hturns n hn)
  · obtain ⟨u, hu, hul⟩ := h.latest l hl hd
    cases ht.symm.trans hu
    refine ⟨t', rfl, (hturn l hul).resolve_right fun hdone => ?_⟩
    cases hdone.symm.trans hd
  · cases hu
    exact hbody

/-- A step within a turn, or between turns. -/
theorem Inv.goto_same (h : Inv s fs) (ht : s.test = some t) (hcreator : m.creator = s.mem.creator)
    (hturns : turns t' = turns t) (hturn : turn t' = turn t) (hbody : Body t' (s.goto t' m) fs') :
    Inv (s.goto t' m) fs' :=
  h.goto ht hcreator (fun _ hn => hturns ▸ hn) (fun _ hl => Or.inl (hturn.trans hl)) hbody

theorem Inv.start (h : Inv s fs) (ht : s.test = some (.start l)) : Inv (s.spawn l (.head 0) (.moves l 0)) fs := by
  have hnot := h.ahead _ l ht rfl
  refine ⟨fun k hd => ?_, h.err, fun k hk => h.fresh k (State.not_started_of_spawn hk), fun u n hu hn k hk => ?_,
    fun k hk hd => ?_, fun u hu => ?_⟩
  · have hne : k ≠ l := by
      rintro rfl
      have hdone := (h.fresh k (hnot k (Nat.le_refl k))).1
      cases hdone.symm.trans hd
    exact (Function.update_of_ne hne ..).trans (h.exit k hd)
  · cases hu
    cases hn
    exact (Function.update_of_ne (Nat.ne_of_gt hk) ..).trans (hnot k (Nat.le_of_succ_le hk))
  · rcases State.of_spawn_started hk with rfl | hk
    · exact ⟨_, rfl, rfl⟩
    · obtain ⟨u, hu, hul⟩ := h.latest k hk hd
      cases ht.symm.trans hu
      cases hul
  · cases hu
    refine ⟨Nat.zero_le _, ∅, h.body _ ht, ?_⟩
    rw [State.spawn_thread]
    refine ⟨nofun, ?_, Nat.zero_le _⟩
    exact (h.fresh l (hnot l (Nat.le_refl l))).2

/-- The creator of a turn that is done. -/
theorem Inv.made (h : Inv s fs) (hd : s.done l = true) {files : Finset Nat}
    (hmade : Made (s.thread l) files (s.mem.creator l)) :
    (∀ x ∈ files, x < G707_FILES) ∧ (s.mem.creator l).created = files.card := by
  rw [h.exit l hd] at hmade
  exact ⟨hmade.lt, hmade.count⟩

theorem card_filter_succ (files : Finset Nat) (i : Nat) : ((Finset.range (i + 1)).filter (· ∈ files)).card =
    if i ∈ files then ((Finset.range i).filter (· ∈ files)).card + 1 else
      ((Finset.range i).filter (· ∈ files)).card := by
  rw [Finset.range_add_one, Finset.filter_insert]
  split
  · exact Finset.card_insert_of_notMem (by simp)
  · rfl

/-- The names counted are not more than the files, and are all of them at the end. -/
theorem card_filter_range {files : Finset Nat} (hlt : ∀ x ∈ files, x < G707_FILES) :
    ((Finset.range G707_FILES).filter (· ∈ files)).card = files.card := by
  congr 1
  ext x
  rw [Finset.mem_filter, Finset.mem_range]
  exact and_iff_right_of_imp (hlt x)

theorem card_filter_le (files : Finset Nat) (i : Nat) : ((Finset.range i).filter (· ∈ files)).card ≤ files.card :=
  Finset.card_le_card fun _ hx => (Finset.mem_filter.1 hx).2

theorem test_safe {x : Unit} (h : Inv s fs) (ht : s.test = some t) : (code t).Safe world program x s fs Inv := by
  have hb := h.body t ht
  cases t with
  | mounted => exact Op.safe_assert rfl rfl (h.goto_same ht rfl rfl rfl hb)
  | mkdir =>
    obtain ⟨fs', hr, hgrown⟩ := Grown.of_mkdir hb.tidy hb.mnt hb.free
    exact Op.safe_assert hr rfl (h.goto_same ht rfl rfl rfl hgrown)
  | addAction => exact Op.safe_assert rfl rfl (h.goto_same ht rfl rfl rfl ⟨Nat.zero_le _, hb⟩)
  | dirs i =>
    refine Op.safe_branch ?_
    split
    · exact h.goto_same ht rfl rfl rfl ⟨‹_›, hb.2⟩
    · have hi : i = G707_MOVES + 1 := Nat.le_antisymm hb.1 (Nat.lt_of_not_le ‹_›)
      refine h.goto_same ht rfl rfl rfl ?_
      rw [hi] at hb
      exact hb.2
  | mkdirDir i =>
    obtain ⟨fs', hr, hgrown⟩ := hb.2.mkdir_parent
    exact Op.safe_assert hr rfl (h.goto_same ht rfl rfl rfl ⟨Nat.succ_le_succ hb.1, hgrown⟩)
  | loop l =>
    refine Op.safe_branch ?_
    split
    · exact h.goto_same ht rfl rfl rfl hb
    · exact h.goto ht rfl nofun nofun trivial
  | setPlace l => exact Op.safe_act (h.goto_same ht rfl rfl rfl hb)
  | mkdirMoving l =>
    obtain ⟨fs', hr, hgrown⟩ := hb.mkdir_moving (Nat.succ_pos _)
    exact Op.safe_assert hr rfl (h.goto_same ht rfl rfl rfl hgrown)
  | start l => exact Op.safe_start rfl rfl (h.start ht)
  | moves l i =>
    refine Op.safe_branch ?_
    split
    · exact h.goto_same ht rfl rfl rfl ⟨‹_›, hb.2⟩
    · have hi : i = G707_MOVES := Nat.le_antisymm hb.1 (Nat.le_of_not_lt ‹_›)
      refine h.goto_same ht rfl rfl rfl ?_
      rw [hi] at hb
      exact hb.2
  | rename l i =>
    obtain ⟨hi, files, hgrown, hmade⟩ := hb
    obtain ⟨fs', hr, hgrown'⟩ := hgrown.rename (Nat.succ_lt_succ hi)
    exact Op.safe_assert hr rfl (h.goto_same ht rfl rfl rfl ⟨hi, files, hgrown', hmade⟩)
  | publish l i => exact Op.safe_act (h.goto_same ht rfl rfl rfl ⟨hb.1, hb.2⟩)
  | join l => exact Op.safe_wait (fun hd => h.goto_same ht rfl rfl rfl ⟨hd, hb⟩) h
  | expectErr l => exact Op.safe_check (beq_iff_eq.2 (h.err l)) (h.goto_same ht rfl rfl rfl hb)
  | setFound l =>
    obtain ⟨hd, files, hgrown, hmade⟩ := hb
    exact Op.safe_act (h.goto_same ht rfl rfl rfl ⟨hd, Nat.zero_le _, files, hgrown, hmade, rfl⟩)
  | count l i =>
    obtain ⟨hd, hi, files, hgrown, hmade, hfound⟩ := hb
    obtain ⟨hlt, hcreated⟩ := h.made hd hmade
    refine Op.safe_branch ?_
    split
    · rename_i hgo
      exact h.goto_same ht rfl rfl rfl ⟨hd, hgo.1, files, hgrown, hmade, hfound⟩
    · rename_i hstop
      refine h.goto_same ht rfl rfl rfl ⟨hd, ⟨files, hgrown, hmade⟩, ?_⟩
      have hle := card_filter_le files i
      rcases Nat.lt_or_ge i G707_FILES with hi' | hi'
      · have hge : (s.mem.creator l).created ≤ s.mem.found := Nat.le_of_not_lt fun hlt' => hstop ⟨hi', hlt'⟩
        have hle' : s.mem.found ≤ (s.mem.creator l).created := by rw [hfound, hcreated]; exact hle
        exact Nat.le_antisymm hle' hge
      · have hend : i = G707_FILES := Nat.le_antisymm hi hi'
        rw [hend, card_filter_range hlt] at hfound
        exact hfound.trans hcreated.symm
  | present l i =>
    obtain ⟨hd, hi, files, hgrown, hmade, hfound⟩ := hb
    have hcard := card_filter_succ files i
    by_cases hmem : i ∈ files
    · have hserve : world.serve x (.exists (filePath G707_MOVES i)) fs = (1, fs) := by
        show (if fs.resolves (filePath G707_MOVES i) then 1 else 0, fs) = (1, fs)
        rw [if_pos ((hgrown.resolves_iff i).2 hmem)]
      rw [if_pos hmem, ← hfound] at hcard
      exact Op.safe_step rfl hserve rfl rfl (h.goto_same ht rfl rfl rfl ⟨hd, hi, files, hgrown, hmade, hcard.symm⟩)
    · have hserve : world.serve x (.exists (filePath G707_MOVES i)) fs = (0, fs) := by
        show (if fs.resolves (filePath G707_MOVES i) then 1 else 0, fs) = (0, fs)
        rw [if_neg fun hres => hmem ((hgrown.resolves_iff i).1 hres)]
      rw [if_neg hmem, ← hfound] at hcard
      exact Op.safe_step rfl hserve rfl rfl (h.goto_same ht rfl rfl rfl ⟨hd, hi, files, hgrown, hmade, hcard.symm⟩)
  | expectCreated l =>
    obtain ⟨hd, ⟨files, hgrown, hmade⟩, hfound⟩ := hb
    refine Op.safe_check (beq_iff_eq.2 hfound) (h.goto_same ht rfl rfl rfl ?_)
    exact ⟨hd, Nat.zero_le _, files, hgrown, fun x hx => ⟨Nat.zero_le x, (h.made hd hmade).1 x hx⟩⟩
  | clean l i =>
    obtain ⟨hd, hi, files, hgrown, hrest⟩ := hb
    refine Op.safe_branch ?_
    split
    · exact h.goto_same ht rfl rfl rfl ⟨hd, ‹_›, files, hgrown, hrest⟩
    · refine h.goto_same ht rfl rfl rfl ⟨hd, ?_⟩
      have hnone : files = ∅ := Finset.eq_empty_of_forall_notMem fun x hx => by
        have hx' := hrest x hx
        omega
      exact hnone ▸ hgrown
  | unlink l i =>
    obtain ⟨hd, hi, files, hgrown, hrest⟩ := hb
    refine Op.safe_expectCall rfl rfl (h.goto_same ht rfl rfl rfl ⟨hd, hi, files.erase i, hgrown.unlink i,
      fun x hx => ?_⟩)
    obtain ⟨hne, hmem⟩ := Finset.mem_erase.1 hx
    have hx' := hrest x hmem
    omega
  | rmdir l tries =>
    obtain ⟨fs', hr, hgrown⟩ := hb.2.rmdir
    have hserve : world.serve x (.rmdir (dirpath G707_MOVES)) fs = (0, fs') := hr
    refine Op.safe_step rfl hserve rfl rfl ?_
    dsimp only
    rw [if_neg fun hagain => absurd hagain.2 (by decide)]
    exact h.goto_same ht rfl rfl rfl ⟨hb.1, hgrown, rfl⟩
  | assertRmdir l =>
    refine Op.safe_check (beq_iff_eq.2 hb.2.2) (h.goto ht rfl (fun _ hn => hn) (fun k hk => ?_) hb.2.1)
    cases hk
    exact Or.inr hb.1
  | ret =>
    refine ⟨h.exit, h.err, h.fresh, nofun, fun l hl hd => ?_, nofun⟩
    obtain ⟨u, hu, hul⟩ := h.latest l hl hd
    cases ht.symm.trans hu
    cases hul

/-! ## Steps of a creator -/

/-- While a creator runs the directory is in some parent, and that is all the test function's point says. -/
theorem Body.racing (hb : Body t s fs) (ht : turn t = some l) (hd : s.done l = false) :
    ∃ k, Racing l k s fs ∧ ∀ {s' fs'}, Racing l k s' fs' → Body t s' fs' := by
  cases t with
  | moves | rename | publish =>
    cases ht
    exact ⟨_, hb.2, fun hr => ⟨hb.1, hr⟩⟩
  | join =>
    cases ht
    exact ⟨_, hb, fun hr => hr⟩
  | expectErr | setFound | count | present | expectCreated | clean | unlink | rmdir | assertRmdir =>
    cases ht
    cases hd.symm.trans hb.1
  | _ => cases ht

theorem Inv.move (h : Inv s fs) (hst : s.started l = true) (hd : s.done l = false) {u : Creating}
    (hother : ∀ j, j ≠ l → m.creator j = s.mem.creator j) (herr : (m.creator l).err = 0)
    (hbody : ∀ t, s.test = some t → Body t (s.move l u m) fs') : Inv (s.move l u m) fs' := by
  refine ⟨fun j hj => ?_, fun j => ?_, fun j hj => ?_, h.ahead, h.latest, hbody⟩
  · have hne : j ≠ l := by
      rintro rfl
      cases hd.symm.trans hj
    exact (State.move_thread_ne hne u m).trans (h.exit j hj)
  · by_cases hj : j = l
    · exact hj ▸ herr
    · exact (congrArg Creator.err (hother j hj)).trans (h.err j)
  · have hne : j ≠ l := by
      rintro rfl
      cases hst.symm.trans hj
    exact ⟨(h.fresh j hj).1, (congrArg Creator.created (hother j hne)).trans (h.fresh j hj).2⟩

theorem creator_safe {x : Unit} (h : Inv s fs) (hst : s.started l = true) (hd : s.done l = false) :
    (createFiles l (s.thread l)).Safe world l x s fs Inv := by
  obtain ⟨t, ht, hturn⟩ := h.latest l hst hd
  obtain ⟨k, ⟨files, hgrown, hmade⟩, hback⟩ := (h.body t ht).racing hturn hd
  -- a step that leaves the frame
  have hgo : ∀ {u files' fs'}, Grown (G707_MOVES + 1) (some k) files' fs' → Made u files' (s.mem.creator l) →
      Inv (s.move l u s.mem) fs' := by
    intro u files' fs' hgrown' hmade'
    refine h.move hst hd (fun _ _ => rfl) (h.err l) fun t' ht' => ?_
    cases ht.symm.trans ht'
    exact hback ⟨files', hgrown', (State.move_thread l u s.mem).symm ▸ hmade'⟩
  cases hu : s.thread l with
  | head i =>
    rw [hu] at hmade
    show Inv (s.move l (if i < G707_FILES then .read i else .complete) s.mem) fs
    split
    · exact hgo hgrown ⟨hmade.lt, hmade.count, ‹_›⟩
    · exact hgo hgrown ⟨fun x hx => Nat.lt_of_lt_of_le (hmade.lt x hx) hmade.within, hmade.count, trivial⟩
  | read i =>
    rw [hu] at hmade
    exact hgo hgrown ⟨hmade.lt, hmade.count, hmade.within⟩
  | create i a =>
    rw [hu] at hmade
    by_cases hak : a = k
    · subst hak
      have hi : i ∉ files := fun hi => Nat.lt_irrefl i (hmade.lt i hi)
      obtain ⟨f, fs', hr, hgrown'⟩ := hgrown.create hi
      refine ThreadOp.safe_call hr ?_
      rw [if_neg (Int.not_lt.2 (Int.natCast_nonneg f))]
      refine hgo hgrown' ⟨fun y hy => ?_, ?_, hmade.within, Finset.mem_insert_self i files⟩
      · rcases Finset.mem_insert.1 hy with rfl | hy
        · exact Nat.lt_succ_self y
        · exact Nat.lt_succ_of_lt (hmade.lt y hy)
      · rw [Finset.card_insert_of_notMem hi, ← hmade.count]
        rfl
    · have hr := hgrown.create_stale (fun heq => hak (Option.some.inj heq).symm) i
      refine ThreadOp.safe_call hr ?_
      rw [if_pos (by decide : (-ENOENT : Int) < 0)]
      exact hgo hgrown ⟨fun y hy => Nat.lt_succ_of_lt (hmade.lt y hy), hmade.count, hmade.within, Or.inr rfl⟩
  | close i f =>
    rw [hu] at hmade
    exact hgo hgrown ⟨hmade.lt, hmade.count, hmade.within.1, Or.inl rfl⟩
  | tally i err =>
    rw [hu] at hmade
    have hupdate : ∀ c, (s.mem.setCreator l c).creator l = c := fun c => Function.update_self (f := s.mem.creator) ..
    have htally : ((s.mem.creator l).tally err).err = 0 ∧
        ((s.mem.creator l).tally err).created = (s.mem.creator l).created + (Creating.tally i err).pending := by
      rcases hmade.within.2 with rfl | rfl
      · exact ⟨h.err l, rfl⟩
      · exact ⟨h.err l, rfl⟩
    refine h.move hst hd (fun j hj => Function.update_of_ne hj ..) ?_ fun t' ht' => ?_
    · rw [hupdate]
      exact htally.1
    · cases ht.symm.trans ht'
      refine hback ⟨files, hgrown, ?_⟩
      rw [State.move_thread]
      refine ⟨hmade.lt, ?_, hmade.within.1⟩
      rw [← hmade.count, ← htally.2]
      exact congrArg Creator.created (hupdate _)
  | complete =>
    rw [hu] at hmade
    refine ⟨fun j hj => ?_, h.err, fun j hj => ?_, h.ahead, fun j hj hnd => ?_, fun t' ht' => ?_⟩
    · by_cases hjl : j = l
      · subst hjl
        exact State.signal_thread j Creating.exit
      · exact (State.signal_thread_ne hjl _).trans (h.exit j ((State.signal_done_ne hjl _).symm.trans hj))
    · have hjl : j ≠ l := by
        rintro rfl
        cases hst.symm.trans hj
      exact ⟨(State.signal_done_ne hjl _).trans (h.fresh j hj).1, (h.fresh j hj).2⟩
    · have hjl : j ≠ l := by
        rintro rfl
        cases (State.signal_done j Creating.exit).symm.trans hnd
      exact h.latest j hj ((State.signal_done_ne hjl _).symm.trans hnd)
    · cases ht.symm.trans ht'
      refine hback ⟨files, hgrown, ?_⟩
      rw [State.signal_thread]
      exact ⟨hmade.lt, hmade.count, trivial⟩
  | exit => exact h

theorem thread_safe {x : Unit} (h : Inv s fs) (hst : s.started l = true) :
    (program.work l (s.thread l)).Safe world l x s fs Inv := by
  cases hd : s.done l with
  | false => exact creator_safe h hst hd
  | true =>
    rw [h.exit l hd]
    exact h

/-! ## Runs -/

theorem Inv.init (h : Mounted fs) : Inv program.init fs := by
  refine ⟨nofun, fun _ => rfl, fun _ _ => ⟨rfl, rfl⟩, fun _ _ _ _ _ _ => rfl, nofun, fun t ht => ?_⟩
  cases ht
  exact h

/-- The names that are in the last parent. -/
def presentNames (fs : Fs Text) : Finset Nat :=
  (Finset.range G707_FILES).filter fun i => fs.resolves (filePath G707_MOVES i) = true

/-- The turn whose creator is done, before its files are removed. -/
def joined : Point → Option Nat
  | .expectErr l | .setFound l | .count l _ | .present l _ | .expectCreated l => some l
  | _ => none

theorem Body.joined (hb : Body t s fs) (ht : joined t = some l) : s.done l = true ∧ Racing l G707_MOVES s fs := by
  cases t with
  | expectErr | setFound =>
    cases ht
    exact hb
  | count | present =>
    cases ht
    obtain ⟨hd, -, files, hgrown, hmade, -⟩ := hb
    exact ⟨hd, files, hgrown, hmade⟩
  | expectCreated =>
    cases ht
    exact ⟨hb.1, hb.2.1⟩
  | _ => cases ht

theorem Inv.card_present (h : Inv s fs) (hd : s.done l = true) (hr : Racing l G707_MOVES s fs) :
    (presentNames fs).card = (s.mem.creator l).created := by
  obtain ⟨files, hgrown, hmade⟩ := hr
  obtain ⟨hlt, hcreated⟩ := h.made hd hmade
  rw [hcreated, ← card_filter_range hlt]
  unfold presentNames
  simp only [hgrown.resolves_iff]

/-- In every state of every run, for every order of the steps: no check has failed; no creator has an error; a file that
a creator has just made is in the one directory that moves; after the join as many of the names are in the last parent
as the creator has counted, and as the test function counts; and the directory has been removed once it was emptied. -/
theorem moving_directory_count_exact (h : Mounted fs) (is : List (Option Nat × Unit)) {y : Config × Fs Text}
    (hy : Runs.exec (program.stepIn world) (program.init, fs) is = y) :
    y.1.failed = false ∧ (∀ l, (y.1.mem.creator l).err = 0) ∧
      (∀ l i f, y.1.started l = true → y.1.thread l = .close i f →
        ∃ k, (∀ a, y.2.get (dirpath a) = some .dir ↔ a = k) ∧ y.2.resolves (filePath k i) = true) ∧
      (∀ t l, y.1.test = some t → joined t = some l → (presentNames y.2).card = (y.1.mem.creator l).created) ∧
      (∀ l, y.1.test = some (.expectCreated l) → y.1.mem.found = (y.1.mem.creator l).created) ∧
      ∀ l, y.1.test = some (.assertRmdir l) → y.1.mem.err = 0 ∧ y.2.get (dirpath G707_MOVES) = none := by
  obtain ⟨hinv, hfailed⟩ := always_safe (fun _ _ _ _ hinv ht => test_safe hinv ht)
    (fun _ _ _ _ hinv hst => thread_safe hinv hst) (Inv.init h) is
  rw [hy] at hinv hfailed
  refine ⟨hfailed, hinv.err, fun l i f hst hclose => ?_, fun t l ht hl => ?_, fun l ht => (hinv.body _ ht).2.2,
    fun l ht => ?_⟩
  · have hd : y.1.done l = false := Bool.eq_false_iff.2 fun hd => by cases hclose.symm.trans (hinv.exit l hd)
    obtain ⟨t, ht, hturn⟩ := hinv.latest l hst hd
    obtain ⟨k, ⟨files, hgrown, hmade⟩, -⟩ := (hinv.body t ht).racing hturn hd
    rw [hclose] at hmade
    refine ⟨k, fun a => ?_, (hgrown.resolves_iff i).2 hmade.within.2⟩
    rw [hgrown.places]
    split
    · exact iff_of_true rfl (Option.some.inj ‹_›).symm
    · exact iff_of_false nofun fun heq => ‹¬ _› (congrArg some heq.symm)
  · obtain ⟨hd, hr⟩ := (hinv.body t ht).joined hl
    exact hinv.card_present hd hr
  · obtain ⟨-, hgrown, herr⟩ := hinv.body _ ht
    exact ⟨herr, hgrown.absent nofun⟩

theorem mountedFs_mounted : Mounted mountedFs := ⟨mountedFs_tidy_get.1, mountedFs_mnt, mountedFs_free _⟩

/-- The first creator reads where the directory is, and makes a file, before and after the first move. -/
def grown : List (Option Nat × Unit) :=
  List.replicate 50 (none, ()) ++ List.replicate 5 (some 0, ()) ++ List.replicate 3 (none, ()) ++
    List.replicate 3 (some 0, ())

theorem moving_directory_count_exact_grown : ∃ y : Config × Fs Text,
    Runs.exec (program.stepIn world) (program.init, mountedFs) grown = y ∧ y.1.thread 0 = .close 1 1 ∧
    ∃ k, (∀ a, y.2.get (dirpath a) = some .dir ↔ a = k) ∧ y.2.resolves (filePath k 1) = true := by
  refine ⟨_, rfl, by decide +kernel, ?_⟩
  exact (moving_directory_count_exact mountedFs_mounted grown rfl).2.2.1 0 1 1 (by decide +kernel) (by decide +kernel)

end NfsPlayground.Races.G707
