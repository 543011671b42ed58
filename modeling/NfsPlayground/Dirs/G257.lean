import NfsPlayground.Dirs.Walks
import NfsPlayground.Races.Calls

/-!
# generic/257: batches that resume at a cookie

`g257_enumerate()` opens the directory for each batch, resumes where the last one ended and stops taking after seven
entries. It takes a batch without an entry for the end of the directory; `.` and `..` are none, so a batch of these
alone ends it wherever it comes (`enumerates_iff`).
-/

namespace NfsPlayground.Dirs.G257

open Lines Readdir Races

def G257_ENTRIES : Nat := 168
def G257_BATCH : Nat := 7

/-- The counters of `struct g257_iter`, and `g257_seen`. -/
structure Iter where
  seen : Nat → UInt8
  taken : Int
  dup : Int
  alien : Int

def g257_actor (it : Iter) (name : Text) : Bool × Iter :=
  -- the current entry is not consumed
  if G257_BATCH ≤ it.taken then (false, it)
  else if IsDot name then (true, it)
  else
    match entryIndex G257_ENTRIES name with
    | none => (true, { it with alien := incr it.alien })
    | some idx =>
      (true, { it with
        dup := if it.seen idx ≠ 0 then incr it.dup else it.dup
        seen := Function.update it.seen idx (it.seen idx + 1)
        taken := incr it.taken })

/-- The assertions of `g257_enumerate()`. -/
inductive Failed
  | dup (rounds : Nat)
  | alien (rounds : Nat)
  | neverEof
  deriving DecidableEq

/-- The loop, with the number of rounds that may still be made. A seek goes to the position asked for. -/
def loop (order : List Text) (size : Nat → Nat) : Nat → Nat → Nat → (Nat → UInt8) → Except Failed (Nat × (Nat → UInt8))
  | 0, rounds, _, seen => .ok (rounds, seen)
  | n + 1, rounds, pos, seen =>
    let r := iterateDir g257_actor order (size rounds + 1) pos ⟨seen, 0, 0, 0⟩
    if r.2.dup ≠ 0 then .error (.dup rounds)
    else if r.2.alien ≠ 0 then .error (.alien rounds)
    else if r.2.taken = 0 then .ok (rounds, r.2.seen)
    else loop order size n (rounds + 1) r.1 r.2.seen

/-- `g257_enumerate()` on a directory that returns its names in this order. -/
def g257_enumerate (order : List Text) (size : Nat → Nat) : Except Failed (Nat → UInt8) :=
  (loop order size 200 0 0 fun _ => 0).bind fun r => if r.1 < 200 then .ok r.2 else .error .neverEof

/-- `"e%d"` -/
def entryName (i : Nat) : Text := 'e' :: decimal i

/-- What is in `G257_ROOT`. -/
def names : List Text := ['.'] :: ['.', '.'] :: (List.range G257_ENTRIES).map entryName

/-! ## Where the calls start -/

/-- The entries up to the `n`-th that is neither `.` nor `..`. -/
def upto : Nat → List Text → Nat
  | 0, _ => 0
  | _ + 1, [] => 0
  | n + 1, e :: es => if IsDot e then upto (n + 1) es + 1 else upto n es + 1

/-- Where the call of a round starts: the actor has refused what came after the seventh entry of a batch. -/
def start (order : List Text) (size : Nat → Nat) : Nat → Nat
  | 0 => 0
  | k + 1 => start order size k + upto G257_BATCH ((order.drop (start order size k)).take (size k + 1))

/-- What the call of a round is offered. -/
def offered (order : List Text) (size : Nat → Nat) (k : Nat) : List Text :=
  (order.drop (start order size k)).take (size k + 1)

theorem upto_le : ∀ (n : Nat) (l : List Text), upto n l ≤ l.length
  | 0, _ => by
    rw [upto]
    exact Nat.zero_le _
  | _ + 1, [] => Nat.le_refl _
  | n + 1, e :: es => by
    rw [upto, List.length_cons]
    split
    · exact Nat.succ_le_succ (upto_le (n + 1) es)
    · exact Nat.succ_le_succ (upto_le n es)

/-- Nothing but dots is taken exactly from a batch of dots, which is taken whole. -/
theorem dots_iff (n : Nat) : ∀ l : List Text,
    (l.take (upto (n + 1) l)).countP (¬ IsDot ·) = 0 ↔ ∀ e ∈ l, IsDot e
  | [] => by simp [upto]
  | e :: es => by
    rw [upto, List.forall_mem_cons]
    by_cases he : IsDot e
    · rw [if_pos he, List.take_succ_cons, List.countP_cons_of_neg (by simpa using he), dots_iff n es, and_iff_right he]
    · rw [if_neg he, List.take_succ_cons, List.countP_cons_of_pos (by simpa using he)]
      exact iff_of_false (Nat.succ_ne_zero _) fun h => he h.1

section

variable (order : List Text) (size : Nat → Nat)

theorem start_mono {j k : Nat} (h : j ≤ k) : start order size j ≤ start order size k := by
  induction h with
  | refl => exact Nat.le_refl _
  | step _ ih => exact Nat.le_trans ih (Nat.le_add_right _ _)

/-- Each call takes something until the directory is exhausted. -/
theorem start_ge : ∀ k, min k order.length ≤ start order size k
  | 0 => by
    rw [Nat.zero_min]
    exact Nat.zero_le _
  | k + 1 => by
    have ih := start_ge k
    rw [start]
    cases hdrop : order.drop (start order size k) with
    | nil =>
      have hlen := List.drop_eq_nil_iff.1 hdrop
      omega
    | cons e es =>
      have hpos : 1 ≤ upto G257_BATCH (e :: es.take (size k)) := by
        unfold G257_BATCH
        rw [upto]
        split <;> exact Nat.le_add_left 1 _
      rw [List.take_succ_cons]
      omega

theorem offered_end : offered order size order.length = [] := by
  have hge := start_ge order size order.length
  rw [Nat.min_self] at hge
  rw [offered, List.drop_eq_nil_of_le hge, List.take_nil]

/-- Some call is offered nothing but dots, at the latest that after the last entry. -/
theorem exists_dots : ∃ k, ∀ e ∈ offered order size k, IsDot e :=
  ⟨order.length, by rw [offered_end]; simp⟩

/-- What the calls up to one take, and what it takes. -/
theorem take_start_succ (k : Nat) : order.take (start order size (k + 1)) =
    order.take (start order size k) ++ (offered order size k).take (upto G257_BATCH (offered order size k)) := by
  have hupto : upto G257_BATCH (offered order size k) ≤ size k + 1 :=
    Nat.le_trans (upto_le _ _) (List.length_take_le ..)
  unfold offered at hupto ⊢
  rw [List.take_take, Nat.min_eq_left hupto, ← List.take_add, start]

end

/-! ## What the calls see -/

/-- Every entry is seen once. -/
def Enumerates (order : List Text) (size : Nat → Nat) : Prop :=
  ∃ seen, g257_enumerate order size = .ok seen ∧ ∀ i < G257_ENTRIES, seen i = 1

/-- No call is offered nothing but dots while an entry is still to come. -/
def NeverOnlyDots (order : List Text) (size : Nat → Nat) : Prop :=
  ∀ k, (∃ e ∈ order.drop (start order size k), ¬ IsDot e) → ∃ e ∈ offered order size k, ¬ IsDot e

/-- `g257_seen` when a list of names has been taken. -/
def seenOf (l : List Text) (i : Nat) : UInt8 := if i < G257_ENTRIES ∧ entryName i ∈ l then 1 else 0

theorem entryIndex_entryName {i : Nat} (h : i < G257_ENTRIES) : entryIndex G257_ENTRIES (entryName i) = some i := by
  have hlt : i < 168 := h
  have hlen : (decimal i).length ≤ 3 := (Nat.length_toDigits_le_iff (by decide) (by decide)).2 (by omega)
  have hpos : 0 < (decimal i).length := List.length_pos_iff.2 Nat.toDigits_ne_nil
  have hname : ¬ ((entryName i).length < 2 ∨ 16 ≤ (entryName i).length ∨ (entryName i).head? ≠ some 'e') := by
    rw [entryName, List.length_cons]
    rintro (h | h | h)
    · omega
    · omega
    · exact h rfl
  rw [entryIndex, if_neg hname, entryName, List.tail_cons, show decimal i = Nat.toDigits 10 i from rfl,
    Kstrto.kstrtoint_toDigits (by omega)]
  exact (if_neg (by unfold G257_ENTRIES; omega)).trans (congrArg some (Int.toNat_natCast i))

theorem not_isDot_entryName (i : Nat) : ¬ IsDot (entryName i) := by
  rintro (h | h) <;> exact absurd (List.cons.inj h).1 (by decide)

theorem entryName_inj {i j : Nat} (h : entryName i = entryName j) : i = j := decimal_inj (List.cons.inj h).2

theorem mem_names {n : Text} (h : n ∈ names) : IsDot n ∨ ∃ i < G257_ENTRIES, n = entryName i := by
  rcases List.mem_cons.1 h with rfl | h
  · exact Or.inl (Or.inl rfl)
  · rcases List.mem_cons.1 h with rfl | h
    · exact Or.inl (Or.inr rfl)
    · obtain ⟨i, hi, rfl⟩ := List.mem_map.1 h
      exact Or.inr ⟨i, List.mem_range.1 hi, rfl⟩

theorem names_nodup : names.Nodup := by
  have hentries : ((List.range G257_ENTRIES).map entryName).Nodup :=
    List.nodup_range.map fun _ _ => entryName_inj
  have hdot : ∀ n, IsDot n → n ∉ (List.range G257_ENTRIES).map entryName := by
    intro n hn hmem
    obtain ⟨i, -, rfl⟩ := List.mem_map.1 hmem
    exact not_isDot_entryName i hn
  refine List.nodup_cons.2 ⟨?_, List.nodup_cons.2 ⟨hdot _ (Or.inr rfl), hentries⟩⟩
  rw [List.mem_cons, not_or]
  exact ⟨by decide, hdot _ (Or.inl rfl)⟩

theorem seenOf_dot {e : Text} (he : IsDot e) (pre : List Text) : seenOf (pre ++ [e]) = seenOf pre := by
  funext i
  have hne : entryName i ≠ e := by
    rintro rfl
    exact not_isDot_entryName i he
  unfold seenOf
  simp [hne]

theorem seenOf_entry {i : Nat} (hi : i < G257_ENTRIES) {pre : List Text} (hnew : entryName i ∉ pre) :
    Function.update (seenOf pre) i (seenOf pre i + 1) = seenOf (pre ++ [entryName i]) := by
  funext j
  by_cases hj : j = i
  · subst hj
    rw [Function.update_self]
    simp [seenOf, hi, hnew]
  · have hne : entryName j ≠ entryName i := fun h => hj (entryName_inj h)
    rw [Function.update_of_ne hj]
    simp [seenOf, hne]

/-- The actor before the seventh entry. -/
theorem actor_takes {e : Text} {pre : List Text} {n : Nat} (hn : n < G257_BATCH) (he : e ∈ names) (hnew : e ∉ pre) :
    g257_actor ⟨seenOf pre, n, 0, 0⟩ e =
      (true, ⟨seenOf (pre ++ [e]), if IsDot e then n else (n + 1 : Nat), 0, 0⟩) := by
  have hincr : incr (n : Int) = (n + 1 : Nat) := by
    have hlt : n < 7 := hn
    rw [← cint_eq (n := n) (by omega), incr_cint, cint_eq (by omega)]
  unfold g257_actor
  rw [if_neg (by simpa using hn)]
  rcases mem_names he with hdot | ⟨i, hi, rfl⟩
  · rw [if_pos hdot, if_pos hdot, seenOf_dot hdot]
  · have hzero : seenOf pre i = 0 := if_neg fun h => hnew h.2
    rw [if_neg (not_isDot_entryName i), if_neg (not_isDot_entryName i), entryIndex_entryName hi,
      ← seenOf_entry hi hnew, ← hincr]
    simp [hzero]

/-- The calls of the actor on a part of the directory that comes after `pre`, when `n` more entries may be taken. -/
theorem feed_spec : ∀ (l pre : List Text) (n : Nat), n ≤ G257_BATCH → (pre ++ l).Nodup → (∀ e ∈ l, e ∈ names) →
    feed g257_actor l ⟨seenOf pre, (G257_BATCH - n : Nat), 0, 0⟩ =
      (upto n l, ⟨seenOf (pre ++ l.take (upto n l)),
        (G257_BATCH - n + (l.take (upto n l)).countP (¬ IsDot ·) : Nat), 0, 0⟩) := by
  intro l
  induction l with
  | nil =>
    intro pre n _ _ _
    cases n <;> simp [feed, upto]
  | cons e es ih =>
    intro pre n hn hnd hmem
    have hnew : e ∉ pre := fun h => (List.disjoint_of_nodup_append hnd) h List.mem_cons_self
    have hnd' : (pre ++ [e] ++ es).Nodup := by simpa using hnd
    have hmem' : ∀ e' ∈ es, e' ∈ names := fun e' h => hmem e' (List.mem_cons_of_mem _ h)
    cases n with
    | zero =>
      rw [feed, if_neg (by simp [g257_actor]), upto]
      simp [g257_actor]
    | succ n =>
      have hlt : G257_BATCH - (n + 1) < G257_BATCH := Nat.sub_lt (by decide) (Nat.succ_pos n)
      have hact := actor_takes hlt (hmem e List.mem_cons_self) hnew
      rw [feed, hact, if_pos rfl, upto]
      by_cases he : IsDot e
      · rw [if_pos he, if_pos he, ih _ _ hn hnd' hmem', List.take_succ_cons,
          List.countP_cons_of_neg (by simpa using he)]
        simp
      · rw [if_neg he, if_neg he, show G257_BATCH - (n + 1) + 1 = G257_BATCH - n by omega,
          ih _ _ (Nat.le_of_succ_le hn) hnd' hmem', List.take_succ_cons, List.countP_cons_of_pos (by simpa using he)]
        simp
        omega

/-! ## The rounds -/

variable {order : List Text}

/-- A round takes what is offered up to the seventh entry. -/
theorem round_spec (horder : order.Perm names) (size : Nat → Nat) (k : Nat) :
    iterateDir g257_actor order (size k + 1) (start order size k) ⟨seenOf (order.take (start order size k)), 0, 0, 0⟩ =
      (start order size (k + 1), ⟨seenOf (order.take (start order size (k + 1))),
        (((offered order size k).take (upto G257_BATCH (offered order size k))).countP (¬ IsDot ·) : Nat), 0, 0⟩) := by
  have hpart : order.take (start order size k) ++ offered order size k =
      order.take (start order size k + (size k + 1)) := (List.take_add ..).symm
  have hnd : (order.take (start order size k) ++ offered order size k).Nodup := by
    rw [hpart]
    exact (horder.nodup_iff.2 names_nodup).sublist (List.take_sublist ..)
  have hmem : ∀ e ∈ offered order size k, e ∈ names := fun e he =>
    horder.subset (List.mem_of_mem_drop (List.mem_of_mem_take he))
  have hfeed := feed_spec _ _ G257_BATCH (Nat.le_refl _) hnd hmem
  rw [Nat.sub_self, Nat.zero_add, ← take_start_succ, Int.natCast_zero] at hfeed
  change feed g257_actor ((order.drop (start order size k)).take (size k + 1)) _ = _ at hfeed
  rw [iterateDir, hfeed]
  rfl

/-- The rounds end with the first call that is offered nothing but dots. -/
theorem loop_spec (horder : order.Perm names) (size : Nat → Nat) : ∀ (n k : Nat),
    k ≤ Nat.find (exists_dots order size) → Nat.find (exists_dots order size) < k + n →
      loop order size n k (start order size k) (seenOf (order.take (start order size k))) =
        .ok (Nat.find (exists_dots order size),
          seenOf (order.take (start order size (Nat.find (exists_dots order size) + 1)))) := by
  intro n
  induction n with
  | zero => exact fun k hle hlt => absurd hlt (Nat.not_lt.2 hle)
  | succ n ih =>
    intro k hle hlt
    have hdots := dots_iff 6 (offered order size k)
    rw [loop, round_spec horder size k]
    dsimp only
    rw [if_neg (by simp), if_neg (by simp)]
    split
    · rename_i hzero
      have heq : k = Nat.find (exists_dots order size) :=
        Nat.le_antisymm hle (Nat.find_min' _ (hdots.1 (Int.natCast_eq_zero.1 hzero)))
      rw [← heq]
    · rename_i hsome
      refine ih (k + 1) (Nat.lt_of_le_of_ne hle ?_) (by omega)
      rintro rfl
      exact hsome (Int.natCast_eq_zero.2 (hdots.2 (Nat.find_spec (exists_dots order size))))

theorem enumerate_eq (horder : order.Perm names) (size : Nat → Nat) : g257_enumerate order size =
    .ok (seenOf (order.take (start order size (Nat.find (exists_dots order size) + 1)))) := by
  have hlen : order.length = 170 := horder.length_eq.trans (by simp [names, G257_ENTRIES])
  have hfind : Nat.find (exists_dots order size) ≤ 170 := by
    rw [← hlen]
    refine Nat.find_min' _ ?_
    rw [offered_end]
    simp
  have hempty : (fun _ => 0) = seenOf (order.take (start order size 0)) := by
    funext i
    simp [seenOf, start]
  unfold g257_enumerate
  rw [hempty, show loop order size 200 0 0 _ = _ from loop_spec horder size 200 0 (Nat.zero_le _) (by omega)]
  exact if_pos (by omega)

/-- The batches enumerate the directory exactly when none of them holds only dots before its last entry. -/
theorem enumerates_iff (horder : order.Perm names) (size : Nat → Nat) :
    Enumerates order size ↔ NeverOnlyDots order size := by
  have hspec := Nat.find_spec (exists_dots order size)
  have hsplit := take_start_succ order size (Nat.find (exists_dots order size))
  have hnd : order.Nodup := horder.nodup_iff.2 names_nodup
  constructor
  · rintro ⟨seen, hrun, hseen⟩ k ⟨e, he, hproper⟩
    rw [enumerate_eq horder size] at hrun
    by_contra hdots
    -- the end was taken for reached at the latest here, and the entry is behind it
    have hle : Nat.find (exists_dots order size) ≤ k := Nat.find_min' _ fun e' he' => by
      by_contra hnot
      exact hdots ⟨e', he', hnot⟩
    have hdrop : e ∈ order.drop (start order size (Nat.find (exists_dots order size))) :=
      List.drop_subset_drop_left _ (start_mono order size hle) he
    obtain ⟨i, hi, rfl⟩ := (mem_names (horder.subset (List.mem_of_mem_drop he))).resolve_left hproper
    have hone := hseen i hi
    rw [← Except.ok.inj hrun, seenOf, hsplit] at hone
    split at hone
    · rename_i htaken
      rcases List.mem_append.1 htaken.2 with htake | hoff
      · rw [← List.take_append_drop (start order size (Nat.find (exists_dots order size))) order] at hnd
        exact List.disjoint_of_nodup_append hnd htake hdrop
      · exact hproper (hspec _ (List.mem_of_mem_take hoff))
    · cases hone
  · intro hnever
    refine ⟨_, enumerate_eq horder size, fun i hi => if_pos ⟨hi, ?_⟩⟩
    have hmem : entryName i ∈ order := by
      refine horder.mem_iff.2 (List.mem_cons_of_mem _ (List.mem_cons_of_mem _ ?_))
      exact List.mem_map.2 ⟨i, List.mem_range.2 hi, rfl⟩
    rw [← List.take_append_drop (start order size (Nat.find (exists_dots order size))) order] at hmem
    rw [hsplit]
    refine List.mem_append_left _ ((List.mem_append.1 hmem).resolve_right fun hdrop => ?_)
    obtain ⟨e, he, hproper⟩ := hnever _ ⟨_, hdrop, not_isDot_entryName i⟩
    exact hproper (hspec e he)

/-- With the whole directory in a batch no entry is left out. -/
theorem enumerates_iff_whole : Enumerates names fun _ => 169 := by
  refine (enumerates_iff (List.Perm.refl _) _).2 fun k hk => ?_
  have hlen : (names.drop (start names (fun _ => 169) k)).length ≤ 169 + 1 := by
    rw [List.length_drop]
    exact Nat.le_trans (Nat.sub_le ..) (by simp [names, G257_ENTRIES])
  rw [offered, List.take_of_length_le hlen]
  exact hk

/-- One entry a call, and `.` comes first: the first call is taken for the end. -/
theorem dot_ends_walk : ¬ Enumerates names fun _ => 0 := by
  rintro ⟨seen, hrun, hseen⟩
  have hnone : seen = fun _ => 0 := (Except.ok.inj hrun).symm
  have hone := hseen 0 (by decide)
  rw [hnone] at hone
  cases hone

end NfsPlayground.Dirs.G257
