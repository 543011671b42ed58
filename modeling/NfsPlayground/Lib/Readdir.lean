import Mathlib.Algebra.Group.Int.Defs
import Mathlib.Algebra.Group.Nat.Defs
import Mathlib.Data.Nat.Find
import Mathlib.Data.List.Basic

/-!
# Reading a directory in batches

A directory hands out its entries in some order. One call gives the next of them to an actor, as many as the call
offers or until the actor refuses one; what was not taken comes again with the next call. How much each call offers is
a parameter, of which only is known that it is something.

- `feed_all`, `iterateDir_all`: an actor that refuses nothing is folded over what a call offers;
- `walk` calls until a counter does not rise, which a C program may keep as an `int`; `reach` is how far it gets;
- `walk_spec`: the walk ends and the actor has been called on the first `reach` entries, each once;
- `reach_eq`: these are all, if there are fewer than `2 ^ 31`.
-/

namespace Readdir

variable {E σ : Type}

/-! ## One call -/

/-- The actor is called on one entry after another until it refuses one; with the number of those it took. -/
def feed (actor : σ → E → Bool × σ) : List E → σ → Nat × σ
  | [], s => (0, s)
  | e :: es, s =>
    if (actor s e).1 then ((feed actor es (actor s e).2).1 + 1, (feed actor es (actor s e).2).2)
    else (0, (actor s e).2)

/-- A call at the position `pos` that offers at most `offer` entries; with the position after it. -/
def iterateDir (actor : σ → E → Bool × σ) (l : List E) (offer pos : Nat) (s : σ) : Nat × σ :=
  (pos + (feed actor ((l.drop pos).take offer) s).1, (feed actor ((l.drop pos).take offer) s).2)

/-- The actor as a step of a fold. -/
def after (actor : σ → E → Bool × σ) (s : σ) (e : E) : σ := (actor s e).2

variable {actor : σ → E → Bool × σ}

theorem feed_all (h : ∀ s e, (actor s e).1 = true) : ∀ (l : List E) (s : σ),
    feed actor l s = (l.length, l.foldl (after actor) s)
  | [], _ => rfl
  | e :: es, s => by
    rw [feed, if_pos (h s e), feed_all h es]
    rfl

theorem iterateDir_all (h : ∀ s e, (actor s e).1 = true) (l : List E) (offer pos : Nat) (s : σ) :
    iterateDir actor l offer pos s =
      (pos + min offer (l.length - pos), ((l.drop pos).take offer).foldl (after actor) s) := by
  unfold iterateDir
  rw [feed_all h, List.length_take, List.length_drop]

/-! ## A counter of type `int` -/

/-- A number as it is stored in an `int`. -/
def cint (n : Nat) : Int := Int.bmod n (2 ^ 32)

/-- An increment of an `int`. -/
def incr (n : Int) : Int := Int.bmod (n + 1) (2 ^ 32)

theorem incr_cint (n : Nat) : incr (cint n) = cint (n + 1) := by
  unfold incr cint
  rw [Int.bmod_add_bmod]
  rfl

theorem cint_eq {n : Nat} (h : n < 2 ^ 31) : cint n = n := by
  unfold cint
  exact Int.bmod_eq_of_le (by omega) (by omega)

/-- A number that does not fit has become smaller. -/
theorem cint_lt {n : Nat} (h : 2 ^ 31 ≤ n) : cint n < n := by
  have hlt : cint n < ((2 ^ 32 : Nat) + 1) / 2 := Int.bmod_lt (by decide)
  omega

/-! ## A walk until nothing is added -/

/-- `do { before = total; iterate_dir(); } while (total > before)`, given up after `fuel` calls. The call number `call`
offers `size call + 1` entries. -/
def walk (actor : σ → E → Bool × σ) (total : σ → Int) (l : List E) (size : Nat → Nat) : Nat → Nat → Nat → σ → Option σ
  | 0, _, _, _ => none
  | fuel + 1, call, pos, s =>
    let r := iterateDir actor l (size call + 1) pos s
    if total s < total r.2 then walk actor total l size fuel (call + 1) r.1 r.2 else some r.2

/-- How many of `n` entries the first calls hand out. -/
def handed (size : Nat → Nat) (n : Nat) : Nat → Nat
  | 0 => 0
  | k + 1 => handed size n k + min (size k + 1) (n - handed size n k)

variable {size : Nat → Nat} {n : Nat}

theorem handed_le (size : Nat → Nat) (n : Nat) : ∀ k, handed size n k ≤ n
  | 0 => Nat.zero_le n
  | k + 1 => by
    have ih := handed_le size n k
    rw [handed]
    omega

theorem handed_ge (size : Nat → Nat) (n : Nat) : ∀ k, min k n ≤ handed size n k
  | 0 => by
    rw [Nat.zero_min]
    exact Nat.zero_le _
  | k + 1 => by
    have ih := handed_ge size n k
    rw [handed]
    omega

/-- Once everything is handed out the counter stays. -/
theorem handed_still (size : Nat → Nat) (n : Nat) : handed size n (n + 1) = handed size n n := by
  have hge := handed_ge size n n
  have hle := handed_le size n n
  rw [handed]
  omega

theorem exists_still (size : Nat → Nat) (n : Nat) : ∃ k, cint (handed size n (k + 1)) ≤ cint (handed size n k) :=
  ⟨n, Int.le_of_eq (congrArg cint (handed_still size n))⟩

theorem find_still_le (size : Nat → Nat) (n : Nat) : Nat.find (exists_still size n) ≤ n :=
  Nat.find_min' _ (Int.le_of_eq (congrArg cint (handed_still size n)))

/-- How many of `n` entries are handed out up to the first call after which their number, as an `int`, has not
risen. -/
def reach (size : Nat → Nat) (n : Nat) : Nat := handed size n (Nat.find (exists_still size n) + 1)

theorem reach_eq (size : Nat → Nat) (h : n < 2 ^ 31) : reach size n = n := by
  have hstill := Nat.find_spec (exists_still size n)
  have hle := handed_le size n (Nat.find (exists_still size n))
  have hle' := handed_le size n (Nat.find (exists_still size n) + 1)
  rw [cint_eq (Nat.lt_of_le_of_lt hle h), cint_eq (Nat.lt_of_le_of_lt hle' h)] at hstill
  unfold reach
  rw [handed] at hstill ⊢
  omega

/-- What a call that is handed the next entries makes of the fold over the first ones. -/
theorem foldl_take_add {f : σ → E → σ} (l : List E) (s : σ) (p k : Nat) :
    ((l.drop p).take k).foldl f ((l.take p).foldl f s) = (l.take (p + min k (l.length - p))).foldl f s := by
  rw [← List.foldl_append]
  congr 1
  rw [← List.take_add, List.take_eq_take_iff]
  omega

/-- The walk ends, at the latest with the call after the last entry, and has called the actor on the first entries. -/
theorem walk_spec {total : σ → Int} {l : List E} {s : σ} (hall : ∀ s e, (actor s e).1 = true) (hs : total s = 0)
    (htotal : ∀ s e, total (after actor s e) = incr (total s)) {fuel : Nat} (hfuel : l.length < fuel) :
    walk actor total l size fuel 0 0 s = some ((l.take (reach size l.length)).foldl (after actor) s) := by
  have hcount : ∀ k ≤ l.length, total ((l.take k).foldl (after actor) s) = cint k := by
    intro k
    induction k with
    | zero => exact fun _ => hs
    | succ k ih =>
      intro hk
      rw [List.take_add_one, List.getElem?_eq_getElem hk, List.foldl_append]
      exact (htotal _ _).trans (by rw [ih (Nat.le_of_succ_le hk), incr_cint])
  have hstep : ∀ (fuel k : Nat), k ≤ Nat.find (exists_still size l.length) →
      Nat.find (exists_still size l.length) < k + fuel →
      walk actor total l size fuel k (handed size l.length k)
        ((l.take (handed size l.length k)).foldl (after actor) s) =
          some ((l.take (reach size l.length)).foldl (after actor) s) := by
    intro fuel
    induction fuel with
    | zero => exact fun k hk hlt => absurd hlt (Nat.not_lt.2 hk)
    | succ fuel ih =>
      intro k hk hlt
      rw [walk, iterateDir_all hall, foldl_take_add, ← handed]
      dsimp only
      rw [hcount _ (handed_le ..), hcount _ (handed_le ..)]
      split
      · rename_i hrise
        refine ih (k + 1) (Nat.lt_of_le_of_ne hk ?_) (by omega)
        rintro rfl
        exact absurd hrise (Int.not_lt.2 (Nat.find_spec (exists_still size l.length)))
      · rename_i hstay
        have heq : k = Nat.find (exists_still size l.length) :=
          Nat.le_antisymm hk (Nat.find_min' _ (Int.not_lt.1 hstay))
        rw [reach, ← heq]
  have hlast := find_still_le size l.length
  exact hstep fuel 0 (Nat.zero_le _) (by omega)

end Readdir
