import NfsPlayground.Lib.Ends
import NfsPlayground.Races.Calls

/-!
# generic/070: an xattr storm against a table of generations

The table counts the sets of a name since it was removed, and a set writes the count. Sets that write one value are
those that a remove separates (`distinct_iff`): within one such stretch a get that is answered with an older value is
noticed, across a remove it need not be (`stale_noticed_iff`).
-/

namespace NfsPlayground.Storms.G070

open Lines Races

def G070_FILES : Nat := 30
def G070_NAMES : Nat := 10
def G070_OPS : Nat := 1500

def ENODATA : Int := 61

/-! ## The storm -/

/-- A file and a name. -/
abbrev Pair := Nat × Nat

/-- `g070_gen`; 0 is absent. -/
abbrev Gens := Pair → UInt16

inductive Kind
  | set
  | get
  | remove
  deriving DecidableEq

def kind (r : UInt32) : Kind :=
  match r.toNat % 4 with
  | 2 => .get
  | 3 => .remove
  | _ => .set

def pair (r : UInt32) : Pair := ((r.toNat >>> 8) % G070_FILES, (r.toNat >>> 16) % G070_NAMES)

/-- `"g%u"` -/
def value (gen : UInt16) : Text := 'g' :: decimal gen.toNat

/-- What `xfs_getxattr()` returns, and what is in the buffer then. -/
structure Got where
  n : Int
  val : Text

/-- What `xfs_listxattr()` returns, and the names in the list. -/
structure Listed where
  n : Int
  names : List Text

/-- What the file system answers in each pass of the loop. -/
structure Answers where
  set : Nat → Int
  get : Nat → Got
  remove : Nat → Int
  list : Nat → Listed

/-- The assertions of the loop. -/
inductive Failed
  | set (op : Nat)
  | absent (op : Nat)
  | length (op : Nat)
  | stale (op : Nat)
  | remove (op : Nat)
  | list (op : Nat)
  deriving DecidableEq

/-- What an operation makes of the table. -/
def advance (g : Gens) (r : UInt32) : Gens :=
  match kind r with
  | .set => Function.update g (pair r) (g (pair r) + 1)
  | .get => g
  | .remove => Function.update g (pair r) 0

/-- The operation of a pass: it fails, or the loop goes on. -/
def check (answers : Answers) (op : Nat) (g : Gens) (r : UInt32) : Except Failed Unit :=
  match kind r with
  | .set => if answers.set op = 0 then .ok () else .error (.set op)
  | .get =>
    let got := answers.get op
    if g (pair r) = 0 then if got.n = - ENODATA then .ok () else .error (.absent op)
    else
      let want := value (g (pair r))
      if got.n = want.length then
        if got.val.take got.n.toNat = want then .ok () else .error (.stale op)
      else .error (.length op)
  | .remove =>
    let err := answers.remove op
    if err = (if g (pair r) = 0 then - ENODATA else 0) then .ok () else .error (.remove op)

/-- The count of the names, after every hundred operations. -/
def checkList (answers : Answers) (op : Nat) (g : Gens) (f : Nat) : Except Failed Unit :=
  if op % 100 = 99 then
    let present := (List.range G070_NAMES).countP fun i => g (f, i) ≠ 0
    let l := answers.list op
    if 0 ≤ l.n ∧ l.names.length = present then .ok () else .error (.list op)
  else .ok ()

/-- The loop, from the pass `op` on. -/
def storm (answers : Answers) : Nat → Gens → List UInt32 → Except Failed Gens
  | _, g, [] => .ok g
  | op, g, r :: rs => do
    check answers op g r
    checkList answers op (advance g r) (pair r).1
    storm answers (op + 1) (advance g r) rs

/-- `xattr_storm_matches_the_model`, after the files are made and the attributes are known to be supported. -/
def xattr_storm (answers : Answers) (draws : List UInt32) : Except Failed Gens := storm answers 0 (fun _ => 0) draws

/-! ## The table -/

def gensAfter (g : Gens) (draws : List UInt32) : Gens := draws.foldl advance g

def Sets (r : UInt32) (p : Pair) : Prop := kind r = .set ∧ pair r = p

def Removes (r : UInt32) (p : Pair) : Prop := kind r = .remove ∧ pair r = p

variable {g : Gens} {p : Pair} {r : UInt32} {draws : List UInt32}

theorem advance_set (h : Sets r p) : advance g r p = g p + 1 := by
  simp [advance, h.1, h.2]

theorem advance_remove (h : Removes r p) : advance g r p = 0 := by
  simp [advance, h.1, h.2]

/-- Other operations leave the entry. -/
theorem advance_other (hset : ¬ Sets r p) (hremove : ¬ Removes r p) : advance g r p = g p := by
  unfold advance
  cases hkind : kind r with
  | set => exact Function.update_of_ne (fun heq => hset ⟨hkind, heq.symm⟩) ..
  | get => rfl
  | remove => exact Function.update_of_ne (fun heq => hremove ⟨hkind, heq.symm⟩) ..

theorem gensAfter_append (g : Gens) (xs ys : List UInt32) : gensAfter g (xs ++ ys) = gensAfter (gensAfter g xs) ys :=
  List.foldl_append

theorem gensAfter_cons (g : Gens) (r : UInt32) (xs : List UInt32) :
    gensAfter g (r :: xs) = gensAfter (advance g r) xs := rfl

/-- An entry rises by one an operation at most. -/
theorem gensAfter_le : ∀ (draws : List UInt32) (g : Gens),
    (gensAfter g draws p).toNat ≤ (g p).toNat + draws.length := by
  intro draws
  induction draws with
  | nil => intro g; simp [gensAfter]
  | cons r draws ih =>
    intro g
    have hstep : (advance g r p).toNat ≤ (g p).toNat + 1 := by
      by_cases hset : Sets r p
      · rw [advance_set hset, UInt16.toNat_add]
        exact Nat.mod_le _ _
      · by_cases hremove : Removes r p
        · rw [advance_remove hremove]
          simp
        · rw [advance_other hset hremove]
          omega
    have hrest := ih (advance g r)
    simp only [gensAfter_cons, List.length_cons]
    omega

/-- Without a remove it does not fall, as long as there are too few operations to wrap it. -/
theorem le_gensAfter : ∀ (draws : List UInt32) (g : Gens), (∀ d ∈ draws, ¬ Removes d p) →
    (g p).toNat + draws.length < 2 ^ 16 → (g p).toNat ≤ (gensAfter g draws p).toNat := by
  intro draws
  induction draws with
  | nil => intro g _ _; exact Nat.le_refl _
  | cons r draws ih =>
    intro g hremove hlen
    rw [List.forall_mem_cons] at hremove
    rw [List.length_cons] at hlen
    have hstep : (g p).toNat ≤ (advance g r p).toNat ∧ (advance g r p).toNat ≤ (g p).toNat + 1 := by
      by_cases hset : Sets r p
      · rw [advance_set hset, UInt16.toNat_add]
        simp only [UInt16.reduceToNat]
        omega
      · rw [advance_other hset hremove.1]
        omega
    have hrest := ih (advance g r) hremove.2 (by omega)
    rw [gensAfter_cons]
    omega

/-- Without a set an absent entry stays so. -/
theorem gensAfter_zero : ∀ (draws : List UInt32) (g : Gens), (∀ d ∈ draws, ¬ Sets d p) → g p = 0 →
    gensAfter g draws p = 0 := by
  intro draws
  induction draws with
  | nil => intro g _ hg; exact hg
  | cons r draws ih =>
    intro g hset hg
    rw [List.forall_mem_cons] at hset
    refine ih (advance g r) hset.2 ?_
    by_cases hremove : Removes r p
    · exact advance_remove hremove
    · rw [advance_other hset.1 hremove, hg]

theorem value_inj {a b : UInt16} (h : value a = value b) : a = b :=
  UInt16.toNat_inj.1 (decimal_inj (List.cons.inj h).2)

/-! ## What the sets write -/

/-- The value that the last of the operations writes. -/
def written (draws : List UInt32) (p : Pair) : Text := value (gensAfter (fun _ => 0) draws p)

/-- No two sets of a name write the same value. -/
def Distinct (draws : List UInt32) : Prop := ∀ p pre r mid s post, draws = pre ++ r :: (mid ++ s :: post) →
  Sets r p → Sets s p → written (pre ++ [r]) p ≠ written (pre ++ r :: (mid ++ [s])) p

/-- A name is set, removed and set again. -/
def Recreated (draws : List UInt32) : Prop := ∃ p pre r mid d mid' s post,
  draws = pre ++ r :: (mid ++ d :: (mid' ++ s :: post)) ∧ Sets r p ∧ Removes d p ∧ Sets s p

/-- A later set of the name counts higher, if no remove comes in between. -/
theorem gens_lt (hlen : draws.length ≤ G070_OPS) {pre mid post : List UInt32} {s : UInt32}
    (heq : draws = pre ++ r :: (mid ++ s :: post)) (hs : Sets s p) (hmid : ∀ d ∈ mid, ¬ Removes d p) :
    (gensAfter (fun _ => 0) (pre ++ [r]) p).toNat < (gensAfter (fun _ => 0) (pre ++ r :: (mid ++ [s])) p).toNat := by
  have hle := gensAfter_le (p := p) (pre ++ [r]) fun _ => 0
  have hle' := gensAfter_le (p := p) (pre ++ r :: mid) fun _ => 0
  have hmono := le_gensAfter mid (gensAfter (fun _ => 0) (pre ++ [r])) hmid
  have hsplit : gensAfter (fun _ => 0) (pre ++ r :: (mid ++ [s])) p =
      gensAfter (fun _ => 0) (pre ++ r :: mid) p + 1 := by
    rw [show pre ++ r :: (mid ++ [s]) = (pre ++ r :: mid) ++ [s] by simp, gensAfter_append, gensAfter_cons]
    exact advance_set hs
  have hjoin : gensAfter (gensAfter (fun _ => 0) (pre ++ [r])) mid p = gensAfter (fun _ => 0) (pre ++ r :: mid) p := by
    rw [← gensAfter_append]
    simp
  have hcount : pre.length + mid.length + 2 ≤ 1500 := by
    have hlength := congrArg List.length heq
    simp only [List.length_append, List.length_cons] at hlength
    simp only [G070_OPS] at hlen
    omega
  simp only [List.length_append, List.length_cons, List.length_nil, UInt16.reduceToNat] at hle hle'
  rw [hjoin] at hmono
  rw [hsplit, UInt16.toNat_add]
  simp only [UInt16.reduceToNat]
  have hmono' := hmono (by omega)
  omega

/-- The first set of an absent name writes the first value. -/
theorem written_first {pre : List UInt32} (hpre : ∀ d ∈ pre, ¬ Sets d p) (hg : g p = 0) (hr : Sets r p) :
    gensAfter g (pre ++ [r]) p = 1 := by
  rw [gensAfter_append, gensAfter_cons]
  show advance (gensAfter g pre) r p = 1
  rw [advance_set hr, gensAfter_zero pre g hpre hg, UInt16.zero_add]

/-- The first element of a list that satisfies a property. -/
theorem exists_first {α : Type} {P : α → Prop} (l : List α) (h : ∃ x ∈ l, P x) :
    ∃ pre x post, l = pre ++ x :: post ∧ P x ∧ ∀ y ∈ pre, ¬ P y := by
  classical
  induction l with
  | nil => simp at h
  | cons a l ih =>
    by_cases ha : P a
    · exact ⟨[], a, l, rfl, ha, by simp⟩
    · have hrest : ∃ x ∈ l, P x := by
        obtain ⟨x, hx, hP⟩ := h
        rcases List.mem_cons.1 hx with rfl | hx
        · exact absurd hP ha
        · exact ⟨x, hx, hP⟩
      obtain ⟨pre, x, post, rfl, hx, hpre⟩ := ih hrest
      exact ⟨a :: pre, x, post, rfl, hx, by simpa [ha] using hpre⟩

/-- The values are distinct unless a remove comes between two sets. -/
theorem distinct_iff (hlen : draws.length ≤ G070_OPS) : Distinct draws ↔ ¬ Recreated draws := by
  constructor
  · rintro hdistinct ⟨p, pre, r, mid, d, mid', s, post, heq, hr, hd, hs⟩
    -- the first set of all and the first after the remove
    obtain ⟨pre₁, r₁, post₁, heq₁, hr₁, hpre₁⟩ := exists_first (P := (Sets · p)) (pre ++ [r]) ⟨r, by simp, hr⟩
    obtain ⟨pre₂, s₂, post₂, heq₂, hs₂, hpre₂⟩ := exists_first (P := (Sets · p)) (mid' ++ [s]) ⟨s, by simp, hs⟩
    refine hdistinct p pre₁ r₁ (post₁ ++ (mid ++ d :: pre₂)) s₂ (post₂ ++ post) ?_ hr₁ hs₂ ?_
    · calc draws = (pre ++ [r]) ++ (mid ++ d :: ((mid' ++ [s]) ++ post)) := by simp [heq]
        _ = pre₁ ++ r₁ :: ((post₁ ++ (mid ++ d :: pre₂)) ++ s₂ :: (post₂ ++ post)) := by simp [heq₁, heq₂]
    · have hsplit : pre₁ ++ r₁ :: ((post₁ ++ (mid ++ d :: pre₂)) ++ [s₂]) =
          (pre₁ ++ r₁ :: (post₁ ++ mid) ++ [d]) ++ (pre₂ ++ [s₂]) := by simp
      have hzero : gensAfter (fun _ => 0) (pre₁ ++ r₁ :: (post₁ ++ mid) ++ [d]) p = 0 := by
        rw [gensAfter_append, gensAfter_cons]
        exact advance_remove hd
      rw [written, written, hsplit, gensAfter_append _ _ (pre₂ ++ [s₂]), written_first hpre₂ hzero hs₂,
        written_first hpre₁ rfl hr₁]
  · intro hnot p pre r mid s post heq hr hs hsame
    have hmid : ∀ d ∈ mid, ¬ Removes d p := by
      intro d hd hremove
      obtain ⟨mid₁, mid₂, rfl⟩ := List.append_of_mem hd
      exact hnot ⟨p, pre, r, mid₁, d, mid₂, s, post, by simp [heq], hr, hremove, hs⟩
    have hlt := gens_lt hlen heq hs hmid
    rw [value_inj hsame] at hlt
    exact Nat.lt_irrefl _ hlt

/-! ## What a get notices -/

/-- A get that is answered with the value of a set that is not the latest one of its name makes the test fail. -/
def StaleNoticed (draws : List UInt32) : Prop := ∀ p pre r mid s mid' q post,
  draws = pre ++ r :: (mid ++ s :: (mid' ++ q :: post)) → Sets r p → Sets s p → kind q = .get → pair q = p →
    ∀ (answers : Answers) (rest : Text),
      answers.get (pre ++ r :: (mid ++ s :: mid')).length =
        ⟨(written (pre ++ [r]) p).length, written (pre ++ [r]) p ++ rest⟩ →
      ∃ e, xattr_storm answers draws = .error e

/-- The loop runs over a first part and then, with the table it makes, over the rest. -/
theorem storm_append (answers : Answers) : ∀ (xs ys : List UInt32) (op : Nat) (g : Gens) {g' : Gens},
    storm answers op g (xs ++ ys) = .ok g' → storm answers (op + xs.length) (gensAfter g xs) ys = .ok g' := by
  intro xs
  induction xs with
  | nil => exact fun ys op g g' h => h
  | cons r xs ih =>
    intro ys op g g' h
    obtain ⟨_, -, hrest⟩ := Ends.of_bind_ok h
    obtain ⟨_, -, hloop⟩ := Ends.of_bind_ok hrest
    have hrun := ih ys (op + 1) (advance g r) hloop
    rwa [Nat.add_assoc, Nat.add_comm 1] at hrun

/-- A get passes with the value of the table only. -/
theorem check_get {answers : Answers} {op : Nat} (hkind : kind r = .get) {v rest : Text}
    (hgot : answers.get op = ⟨v.length, v ++ rest⟩) (h : check answers op g r = .ok ()) :
    g (pair r) ≠ 0 ∧ v = value (g (pair r)) := by
  unfold check at h
  rw [hkind, hgot] at h
  dsimp only at h
  split at h
  · split at h
    · rename_i hn
      simp only [ENODATA] at hn
      omega
    · cases h
  · rename_i hne
    split at h
    · split at h
      · rename_i hval
        rw [Int.toNat_natCast, List.take_left] at hval
        exact ⟨hne, hval⟩
      · cases h
    · cases h

/-- What follows a remove that no set follows is absent. -/
theorem absent_after {pre post : List UInt32} {d : UInt32} (hd : Removes d p) (hpost : ∀ e ∈ post, ¬ Sets e p) :
    gensAfter g (pre ++ d :: post) p = 0 := by
  rw [gensAfter_append, gensAfter_cons]
  exact gensAfter_zero post _ hpost (advance_remove hd)

theorem staleNoticed (hlen : draws.length ≤ G070_OPS) (hnot : ¬ Recreated draws) : StaleNoticed draws := by
  intro p pre r mid s mid' q post heq hr hs hkind hpair answers rest hgot
  by_contra hpass
  obtain ⟨g', hrun⟩ : ∃ g', xattr_storm answers draws = .ok g' := by
    cases hrun : xattr_storm answers draws with
    | ok g' => exact ⟨g', rfl⟩
    | error e => exact absurd ⟨e, hrun⟩ hpass
  have hsplit : draws = (pre ++ r :: (mid ++ s :: mid')) ++ q :: post := by simp [heq]
  rw [xattr_storm, hsplit] at hrun
  obtain ⟨_, hcheck, -⟩ := Ends.of_bind_ok (storm_append answers _ _ 0 _ hrun)
  rw [Nat.zero_add] at hcheck
  obtain ⟨hsome, hsame⟩ := check_get hkind hgot hcheck
  rw [hpair] at hsome hsame
  have hmid : ∀ d ∈ mid, ¬ Removes d p := by
    intro d hd hremove
    obtain ⟨mid₁, mid₂, rfl⟩ := List.append_of_mem hd
    exact hnot ⟨p, pre, r, mid₁, d, mid₂, s, mid' ++ q :: post, by simp [heq], hr, hremove, hs⟩
  have hmid' : ∀ d ∈ mid', ¬ Removes d p := by
    intro d hd hremove
    obtain ⟨mid₁, mid₂, rfl⟩ := List.append_of_mem hd
    by_cases hset : ∃ e ∈ mid₂, Sets e p
    · obtain ⟨e, he, hset⟩ := hset
      obtain ⟨mid₃, mid₄, rfl⟩ := List.append_of_mem he
      exact hnot ⟨p, pre, r, mid ++ s :: mid₁, d, mid₃, e, mid₄ ++ q :: post, by simp [heq], hr, hremove, hset⟩
    · refine hsome ?_
      rw [show pre ++ r :: (mid ++ s :: (mid₁ ++ d :: mid₂)) = (pre ++ r :: (mid ++ s :: mid₁)) ++ d :: mid₂ by simp]
      exact absent_after hremove fun e he hset' => hset ⟨e, he, hset'⟩
  have hlt := gens_lt hlen heq hs hmid
  have hlength := congrArg List.length heq
  have hle := gensAfter_le (p := p) (pre ++ r :: (mid ++ [s])) fun _ => 0
  have hmono := le_gensAfter mid' (gensAfter (fun _ => 0) (pre ++ r :: (mid ++ [s]))) hmid'
  rw [← gensAfter_append, show (pre ++ r :: (mid ++ [s])) ++ mid' = pre ++ r :: (mid ++ s :: mid') by simp,
    ← value_inj hsame] at hmono
  simp only [List.length_append, List.length_cons, List.length_nil, UInt16.reduceToNat, G070_OPS] at hlength hle hlen
  have hmono' := hmono (by omega)
  omega

/-- Values are distinct, and stale ones are noticed, exactly if no name is set again after a remove. -/
theorem stale_noticed_iff (hlen : draws.length ≤ G070_OPS) :
    (Distinct draws ∧ StaleNoticed draws) ↔ ¬ Recreated draws := by
  constructor
  · exact fun h => (distinct_iff hlen).1 h.1
  · exact fun hnot => ⟨(distinct_iff hlen).2 hnot, staleNoticed hlen hnot⟩

/-- A set, a set, a get of the latest value: nothing is removed. -/
theorem stale_noticed_iff_three : Distinct [0, 0, 2] ∧ StaleNoticed [0, 0, 2] := by
  refine (stale_noticed_iff (by decide)).2 ?_
  rintro ⟨p, pre, r, mid, d, mid', s, post, heq, -, hd, -⟩
  have hmem : d ∈ [0, 0, 2] := by simp [heq]
  have hnone : ∀ e ∈ ([0, 0, 2] : List UInt32), kind e ≠ .remove := by simp [kind]
  exact hnone d hmem hd.1

/-- The sets and the remove succeed, and the get is answered with the first value. -/
def firstValue : Answers where
  set _ := 0
  get _ := ⟨2, value 1⟩
  remove _ := 0
  list _ := ⟨0, []⟩

/-- A set, a remove, a set and a get of one name: the first value is what the second set writes, and the get that is
answered with it passes. -/
theorem recreated_not_noticed : ¬ Distinct [0, 3, 0, 2] ∧ ¬ StaleNoticed [0, 3, 0, 2] := by
  have hset : Sets 0 (0, 0) := ⟨rfl, rfl⟩
  constructor
  · intro h
    exact h (0, 0) [] 0 [3] 0 [2] rfl hset hset (by decide)
  · intro h
    have hfirst : written ([] ++ [0]) (0, 0) = value 1 := congrArg value (written_first (by simp) rfl hset)
    have hlength : (value 1).length = 2 := by decide
    obtain ⟨e, he⟩ := h (0, 0) [] 0 [3] 0 [] 2 [] rfl hset hset rfl rfl firstValue [] (by
      rw [hfirst, hlength, List.append_nil]
      rfl)
    have hpass : ∃ g, xattr_storm firstValue [0, 3, 0, 2] = .ok g := ⟨_, rfl⟩
    obtain ⟨g, hg⟩ := hpass
    rw [hg] at he
    cases he

end NfsPlayground.Storms.G070
