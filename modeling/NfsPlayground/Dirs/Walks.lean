import NfsPlayground.Lib.Kstrto
import NfsPlayground.Lib.Readdir
import Mathlib.Data.List.Nodup
import Mathlib.Data.List.Perm.Subperm
import Mathlib.Data.List.ProdSigma

/-!
# The walks of generic/471 and generic/310

Both read a directory with `iterate_dir()` until a call adds nothing. The counter that tells is an `int`: with fewer
than `2 ^ 31` entries each walk ends and has called its actor on every entry once, so that what it counts is what the
directory holds (`walks_see_everything_once`).
-/

namespace NfsPlayground.Dirs

open Lines Readdir

/-- `.` and `..` -/
def IsDot (name : Text) : Prop := name = ['.'] ∨ name = ['.', '.']

instance : DecidablePred IsDot := fun _ => inferInstanceAs (Decidable (_ ∨ _))

/-- The number behind the `e`, below `count`, as the actors of generic/257 and generic/471 read it. -/
def entryIndex (count : Nat) (name : Text) : Option Nat :=
  if name.length < 2 ∨ 16 ≤ name.length ∨ name.head? ≠ some 'e' then none
  else
    match Kstrto.kstrtoint name.tail with
    | none => none
    | some idx => if idx < 0 ∨ (count : Int) ≤ idx then none else some idx.toNat

namespace G471

def G471_FIRST : Nat := 8
def G471_ADDED : Nat := 8
def G471_TOTAL : Nat := G471_FIRST + G471_ADDED

/-- `struct g471_iter` -/
structure Iter where
  seen : Nat → UInt8
  alien : Int
  total : Int

def g471_actor (it : Iter) (name : Text) : Bool × Iter :=
  let it := { it with total := incr it.total }
  if IsDot name then (true, it)
  else
    match entryIndex G471_TOTAL name with
    | none => (true, { it with alien := incr it.alien })
    | some idx => (true, { it with seen := Function.update it.seen idx (it.seen idx + 1) })

/-- What `g471_enumerate()` leaves in the iterator, and whether its expectation is met. -/
def g471_enumerate (l : List Text) (size : Nat → Nat) (fuel : Nat) (it : Iter) : Option (Iter × Bool) :=
  (walk g471_actor Iter.total l size fuel 0 0 { it with seen := fun _ => 0, alien := 0, total := 0 }).map
    fun it => (it, it.alien = 0)

end G471

namespace G310

def G310_ENTRIES : Nat := 32
def G310_ROUNDS : Nat := 40

/-- `struct g310_walk` -/
structure Walk where
  entries : Int
  alien : Int
  total : Int

def g310_actor (w : Walk) (name : Text) : Bool × Walk :=
  let w := { w with total := incr w.total }
  if IsDot name then (true, w)
  else if name.length < 2 ∨ name.head? ≠ some 'e' then (true, { w with alien := incr w.alien })
  else (true, { w with entries := incr w.entries })

/-- A round of `reads_racing_readdir_on_one_fd()`, after the seek to 0, with its two expectations. -/
def round (l : List Text) (size : Nat → Nat) (fuel : Nat) : Option (Walk × Bool) :=
  (walk g310_actor Walk.total l size fuel 0 0 ⟨0, 0, 0⟩).map fun w => (w, w.entries = G310_ENTRIES ∧ w.alien = 0)

/-- The rounds, each with batches of its own. -/
def rounds (l : List Text) (size : Nat → Nat → Nat) (fuel : Nat) : Option (List (Walk × Bool)) :=
  (List.range G310_ROUNDS).mapM fun i => round l (size i) fuel

end G310

/-! ## What a fold of the actors counts -/

/-- A count over a list with one more entry. -/
theorem countP_concat {p : Text → Bool} (l : List Text) (n : Text) :
    (l ++ [n]).countP p = if p n then l.countP p + 1 else l.countP p := by
  rw [List.countP_append, List.countP_singleton]
  split <;> rfl

section

variable {p : Text → Prop} [DecidablePred p] {l : List Text} {name : Text} {c : Int}

/-- A counter that is incremented at a name it counts counts one more entry. -/
theorem cint_hit (h : c = cint (l.countP p)) (hp : p name) : incr c = cint ((l ++ [name]).countP p) := by
  rw [countP_concat, if_pos (decide_eq_true hp), h, incr_cint]

/-- At another name it stays. -/
theorem cint_miss (h : c = cint (l.countP p)) (hp : ¬ p name) : c = cint ((l ++ [name]).countP p) := by
  rw [countP_concat, if_neg (by simpa using hp), h]

end

theorem incr_length {l : List Text} {c : Int} (h : c = cint l.length) (name : Text) :
    incr c = cint (l ++ [name]).length := by
  rw [h, incr_cint, List.length_append]
  rfl

namespace G471

/-- A name the actor does not expect. -/
def Alien (name : Text) : Prop := ¬ IsDot name ∧ entryIndex G471_TOTAL name = none

instance : DecidablePred Alien := fun _ => inferInstanceAs (Decidable (_ ∧ _))

/-- A name of the entry `i`. -/
def Names (i : Nat) (name : Text) : Prop := ¬ IsDot name ∧ entryIndex G471_TOTAL name = some i

instance (i : Nat) : DecidablePred (Names i) := fun _ => inferInstanceAs (Decidable (_ ∧ _))

/-- The iterator counts a list of names. -/
structure Counted (l : List Text) (it : Iter) : Prop where
  total : it.total = cint l.length
  alien : it.alien = cint (l.countP Alien)
  seen : ∀ i, it.seen i = UInt8.ofNat (l.countP (Names i))

/-- What the actor does with a name: it takes it, and counts it as one of three kinds. -/
theorem actor_cases (it : Iter) (name : Text) :
    (IsDot name ∧ g471_actor it name = (true, { it with total := incr it.total })) ∨
      (Alien name ∧ g471_actor it name = (true, { it with total := incr it.total, alien := incr it.alien })) ∨
      ∃ i, Names i name ∧ g471_actor it name =
        (true, { it with total := incr it.total, seen := Function.update it.seen i (it.seen i + 1) }) := by
  unfold g471_actor
  by_cases hdot : IsDot name
  · exact Or.inl ⟨hdot, if_pos hdot⟩
  · rw [if_neg hdot]
    cases hidx : entryIndex G471_TOTAL name with
    | none => exact Or.inr (Or.inl ⟨⟨hdot, hidx⟩, rfl⟩)
    | some i => exact Or.inr (Or.inr ⟨i, ⟨hdot, hidx⟩, rfl⟩)

theorem actor_takes (it : Iter) (name : Text) : (g471_actor it name).1 = true := by
  obtain ⟨-, h⟩ | ⟨-, h⟩ | ⟨i, -, h⟩ := actor_cases it name <;> rw [h]

theorem actor_total (it : Iter) (name : Text) : (after g471_actor it name).total = incr it.total := by
  unfold after
  obtain ⟨-, h⟩ | ⟨-, h⟩ | ⟨i, -, h⟩ := actor_cases it name <;> rw [h]

theorem Counted.step {l : List Text} {it : Iter} (h : Counted l it) (name : Text) :
    Counted (l ++ [name]) (after g471_actor it name) := by
  unfold after
  obtain ⟨hdot, heq⟩ | ⟨halien, heq⟩ | ⟨k, hk, heq⟩ := actor_cases it name <;> rw [heq]
  · refine ⟨incr_length h.total name, cint_miss h.alien fun ha => ha.1 hdot, fun i => ?_⟩
    rw [countP_concat, if_neg (by simp [Names, hdot]), h.seen]
  · refine ⟨incr_length h.total name, cint_hit h.alien halien, fun i => ?_⟩
    rw [countP_concat, if_neg (by simp [Names, halien.2]), h.seen]
  · refine ⟨incr_length h.total name, cint_miss h.alien (by simp [Alien, hk.2]), fun i => ?_⟩
    rw [countP_concat]
    by_cases hik : i = k
    · subst hik
      rw [if_pos (by simpa using hk)]
      dsimp only
      rw [Function.update_self, h.seen, UInt8.ofNat_add]
      rfl
    · rw [if_neg (by simp [Names, hk.2, Ne.symm hik])]
      exact (Function.update_of_ne hik _ _).trans (h.seen i)

theorem counted (l : List Text) : Counted l (l.foldl (after g471_actor) ⟨fun _ => 0, 0, 0⟩) := by
  induction l using List.reverseRecOn with
  | nil => exact ⟨rfl, rfl, fun _ => rfl⟩
  | append_singleton l name ih =>
    rw [List.foldl_append]
    exact ih.step name

/-- A name of an entry is an `e` before one of the ways to write its number. -/
theorem Names.spec {i : Nat} {name : Text} (h : Names i name) :
    name = 'e' :: name.tail ∧ name.length < 16 ∧ Kstrto.kstrtoint name.tail = some (i : Int) := by
  have hidx := h.2
  unfold entryIndex at hidx
  split at hidx
  · cases hidx
  · rename_i hname
    simp only [not_or, Nat.not_lt, Nat.not_le, not_not] at hname
    obtain ⟨-, hlen, hhead⟩ := hname
    split at hidx
    · cases hidx
    · rename_i v hv
      split at hidx
      · cases hidx
      · rename_i hrange
        rw [not_or, Int.not_lt, Int.not_le] at hrange
        refine ⟨?_, hlen, ?_⟩
        · cases name with
          | nil => cases hhead
          | cons c t =>
            rw [Option.some.inj hhead]
            rfl
        · rw [hv, ← Option.some.inj hidx, Int.toNat_of_nonneg hrange.1]

/-- An entry has fewer than 256 names. -/
theorem countP_names_lt {l : List Text} (hl : l.Nodup) (i : Nat) : l.countP (Names i) < 256 := by
  rw [List.countP_eq_length_filter]
  have hnd : ((l.filter (Names i)).map fun n => Kstrto.shape n.tail).Nodup := by
    refine List.Nodup.map_on (fun a ha b hb hab => ?_) (hl.filter _)
    obtain ⟨ha1, -, ha2⟩ := Names.spec (of_decide_eq_true (List.mem_filter.1 ha).2)
    obtain ⟨hb1, -, hb2⟩ := Names.spec (of_decide_eq_true (List.mem_filter.1 hb).2)
    rw [ha1, hb1, Kstrto.kstrtoint_inj ha2 hb2 hab]
  have hsub : ((l.filter (Names i)).map fun n => Kstrto.shape n.tail) ⊆
      [none, some '+', some '-'] ×ˢ ([true, false] ×ˢ List.range 16) := by
    intro x hx
    obtain ⟨n, hn, rfl⟩ := List.mem_map.1 hx
    obtain ⟨-, hlen, hread⟩ := Names.spec (of_decide_eq_true (List.mem_filter.1 hn).2)
    obtain ⟨sgn, ds, nl, htail, hsgn, hne, hdig, hnl, -⟩ := Kstrto.kstrtoint_spec hread
    have hshort : n.tail.length < 16 := Nat.lt_of_le_of_lt (by simp) hlen
    rw [htail] at hshort ⊢
    rw [Kstrto.shape_of hsgn hne hdig hnl]
    simp only [List.length_append] at hshort
    refine List.mem_product.2 ⟨?_, List.mem_product.2 ⟨?_, List.mem_range.2 (by omega)⟩⟩
    · rcases hsgn with rfl | rfl | rfl <;> simp
    · rcases hnl with rfl | rfl <;> simp
  have hle := (List.subperm_of_subset hnd hsub).length_le
  rw [List.length_map] at hle
  exact Nat.lt_of_le_of_lt hle (by simp)

end G471

namespace G310

/-- A name the actor does not expect, and one it takes for an entry. -/
def Alien (name : Text) : Prop := ¬ IsDot name ∧ (name.length < 2 ∨ name.head? ≠ some 'e')

instance : DecidablePred Alien := fun _ => inferInstanceAs (Decidable (_ ∧ _))

def Entry (name : Text) : Prop := ¬ IsDot name ∧ ¬ (name.length < 2 ∨ name.head? ≠ some 'e')

instance : DecidablePred Entry := fun _ => inferInstanceAs (Decidable (_ ∧ _))

/-- The walk counts a list of names. -/
structure Counted (l : List Text) (w : Walk) : Prop where
  total : w.total = cint l.length
  alien : w.alien = cint (l.countP Alien)
  entries : w.entries = cint (l.countP Entry)

/-- What the actor does with a name: it takes it, and counts it as one of three kinds. -/
theorem actor_cases (w : Walk) (name : Text) :
    (IsDot name ∧ g310_actor w name = (true, { w with total := incr w.total })) ∨
      (Alien name ∧ g310_actor w name = (true, { w with total := incr w.total, alien := incr w.alien })) ∨
      (Entry name ∧ g310_actor w name = (true, { w with total := incr w.total, entries := incr w.entries })) := by
  unfold g310_actor
  by_cases hdot : IsDot name
  · exact Or.inl ⟨hdot, if_pos hdot⟩
  · rw [if_neg hdot]
    by_cases hbad : name.length < 2 ∨ name.head? ≠ some 'e'
    · exact Or.inr (Or.inl ⟨⟨hdot, hbad⟩, if_pos hbad⟩)
    · exact Or.inr (Or.inr ⟨⟨hdot, hbad⟩, if_neg hbad⟩)

theorem actor_takes (w : Walk) (name : Text) : (g310_actor w name).1 = true := by
  obtain ⟨-, h⟩ | ⟨-, h⟩ | ⟨-, h⟩ := actor_cases w name <;> rw [h]

theorem actor_total (w : Walk) (name : Text) : (after g310_actor w name).total = incr w.total := by
  unfold after
  obtain ⟨-, h⟩ | ⟨-, h⟩ | ⟨-, h⟩ := actor_cases w name <;> rw [h]

theorem Counted.step {l : List Text} {w : Walk} (h : Counted l w) (name : Text) :
    Counted (l ++ [name]) (after g310_actor w name) := by
  unfold after
  obtain ⟨hdot, heq⟩ | ⟨halien, heq⟩ | ⟨hentry, heq⟩ := actor_cases w name <;> rw [heq]
  · exact ⟨incr_length h.total name, cint_miss h.alien fun ha => ha.1 hdot, cint_miss h.entries fun he => he.1 hdot⟩
  · exact ⟨incr_length h.total name, cint_hit h.alien halien, cint_miss h.entries fun he => he.2 halien.2⟩
  · exact ⟨incr_length h.total name, cint_miss h.alien fun ha => hentry.2 ha.2, cint_hit h.entries hentry⟩

theorem counted (l : List Text) : Counted l (l.foldl (after g310_actor) ⟨0, 0, 0⟩) := by
  induction l using List.reverseRecOn with
  | nil => exact ⟨rfl, rfl, rfl⟩
  | append_singleton l name ih =>
    rw [List.foldl_append]
    exact ih.step name

end G310

/-! ## The walks -/

/-- Each walk ends; its actor has been called on every entry of the directory once, and what it counts is what the
directory holds. -/
theorem walks_see_everything_once {l : List Text} (hl : l.Nodup) (hlen : l.length < 2 ^ 31) (size : Nat → Nat)
    (sizes : Nat → Nat → Nat) (it : G471.Iter) {fuel : Nat} (hfuel : l.length < fuel) :
    (∃ it', G471.g471_enumerate l size fuel it = some (it', decide (it'.alien = 0)) ∧
      it' = l.foldl (after G471.g471_actor) ⟨fun _ => 0, 0, 0⟩ ∧
      it'.total = l.length ∧ it'.alien = l.countP G471.Alien ∧ ∀ i, (it'.seen i).toNat = l.countP (G471.Names i)) ∧
    ∃ w : G310.Walk, G310.rounds l sizes fuel =
        some (List.replicate G310.G310_ROUNDS (w, decide (w.entries = G310.G310_ENTRIES ∧ w.alien = 0))) ∧
      w = l.foldl (after G310.g310_actor) ⟨0, 0, 0⟩ ∧
      w.total = l.length ∧ w.alien = l.countP G310.Alien ∧ w.entries = l.countP G310.Entry := by
  have hcint : ∀ p : Text → Bool, cint (l.countP p) = l.countP p := fun p =>
    cint_eq (Nat.lt_of_le_of_lt List.countP_le_length hlen)
  have htake : ∀ size, l.take (reach size l.length) = l := fun size => by rw [reach_eq size hlen, List.take_length]
  constructor
  · have hcount := G471.counted l
    refine ⟨_, ?_, rfl, ?_, ?_, fun i => ?_⟩
    · unfold G471.g471_enumerate
      rw [walk_spec G471.actor_takes rfl G471.actor_total hfuel, htake]
      rfl
    · rw [hcount.total, cint_eq hlen]
    · rw [hcount.alien, hcint]
    · rw [hcount.seen]
      exact UInt8.toNat_ofNat_of_lt (G471.countP_names_lt hl i)
  · have hcount := G310.counted l
    obtain ⟨w, hw⟩ : ∃ w, w = l.foldl (after G310.g310_actor) ⟨0, 0, 0⟩ := ⟨_, rfl⟩
    rw [← hw] at hcount
    refine ⟨w, ?_, hw, ?_, ?_, ?_⟩
    · have hround : ∀ i, G310.round l (sizes i) fuel =
          some (w, decide (w.entries = G310.G310_ENTRIES ∧ w.alien = 0)) := by
        intro i
        unfold G310.round
        rw [walk_spec G310.actor_takes rfl G310.actor_total hfuel, htake, ← hw]
        rfl
      unfold G310.rounds
      rw [funext hround]
      exact (List.mapM_pure ..).trans (congrArg some (List.map_const' ..))
    · rw [hcount.total, cint_eq hlen]
    · rw [hcount.alien, hcint]
    · rw [hcount.entries, hcint]

/-- `.`, `..` and two entries, one a call. -/
theorem walks_see_everything_once_four :
    (∃ it', G471.g471_enumerate [['.'], ['.', '.'], ['e', '0'], ['e', '1']] (fun _ => 0) 5 ⟨fun _ => 3, 1, 2⟩ =
        some (it', decide (it'.alien = 0)) ∧ it'.total = 4 ∧ it'.alien = 0 ∧ it'.seen 1 = 1) ∧
      ∃ w : G310.Walk, G310.rounds [['.'], ['.', '.'], ['e', '0'], ['e', '1']] (fun _ _ => 0) 5 =
        some (List.replicate G310.G310_ROUNDS (w, decide (w.entries = G310.G310_ENTRIES ∧ w.alien = 0))) ∧
          w.total = 4 ∧ w.entries = 2 := by
  obtain ⟨⟨it', hrun, -, htotal, halien, hseen⟩, w, hrounds, -, hwtotal, -, hentries⟩ :=
    walks_see_everything_once (l := [['.'], ['.', '.'], ['e', '0'], ['e', '1']]) (by decide) (by decide) (fun _ => 0)
      (fun _ _ => 0) ⟨fun _ => 3, 1, 2⟩ (show 4 < 5 by decide)
  exact ⟨⟨it', hrun, htotal, halien.trans (by decide), UInt8.toNat.inj ((hseen 1).trans (by decide))⟩, w, hrounds,
    hwtotal, hentries.trans (by decide)⟩

/-- One name more than an `int` can count. -/
def crowd : List Text := (List.range (2 ^ 31 + 1)).map fun i => 'e' :: Nat.toDigits 10 i

theorem crowd_nodup : crowd.Nodup := by
  refine List.Nodup.map (fun m n hmn => ?_) List.nodup_range
  rw [← Nat.ofDigitChars_ten_toDigits (n := m), (List.cons.inj hmn).2, Nat.ofDigitChars_ten_toDigits]

theorem length_crowd : crowd.length = 2 ^ 31 + 1 := by
  unfold crowd
  rw [List.length_map, List.length_range]

/-- After a first batch of `2 ^ 31` names the counter is negative, and the last name is not read. -/
theorem crowd_not_read : crowd.Nodup ∧ ¬ ∃ it', G471.g471_enumerate crowd (fun _ => 2 ^ 31 - 1) (2 ^ 31 + 2)
    ⟨fun _ => 0, 0, 0⟩ = some (it', decide (it'.alien = 0)) ∧
        it' = crowd.foldl (after G471.g471_actor) ⟨fun _ => 0, 0, 0⟩ := by
  refine ⟨crowd_nodup, ?_⟩
  rintro ⟨it', hrun, hfold⟩
  have hreach : reach (fun _ => 2 ^ 31 - 1) crowd.length = 2 ^ 31 := by
    have hzero : Nat.find (exists_still (fun _ => 2 ^ 31 - 1) crowd.length) = 0 := by
      refine (Nat.find_eq_zero _).2 ?_
      rw [length_crowd]
      decide
    unfold reach
    rw [hzero, length_crowd]
    rfl
  unfold G471.g471_enumerate at hrun
  rw [walk_spec G471.actor_takes rfl G471.actor_total (by rw [length_crowd]; omega), hreach] at hrun
  have hit := (Prod.mk.inj (Option.some.inj hrun)).1
  have htotal := (G471.counted (crowd.take (2 ^ 31))).total
  have htotal' := (G471.counted crowd).total
  rw [hit, hfold, htotal', length_crowd, List.length_take, length_crowd] at htotal
  exact absurd htotal (by decide)

end NfsPlayground.Dirs
