import NfsPlayground.Dirs.Walks

/-!
# The one-shot readers of generic/109 and generic/035

`g109_readdir_type()` and `g035_scan_dir()` call `iterate_dir()` once, which is one batch and not the whole directory.
So the one finds an entry exactly when it is in the first batch, and the other sees exactly what is in it
(`one_call_iff`).
-/

namespace NfsPlayground.Dirs

open Lines Readdir

structure DirEntry where
  name : Text
  type : Nat
  deriving DecidableEq

def DT_UNKNOWN : Nat := 0

namespace G109

/-- `struct g109_iter` -/
structure Iter where
  want : Text
  type : Nat
  found : Bool

def g109_actor (it : Iter) (e : DirEntry) : Bool × Iter :=
  if e.name = it.want then (true, { it with type := e.type, found := true }) else (true, it)

/-- `g109_readdir_type()`: the error of the open, or what is stored in `*type` and `*found`. -/
def g109_readdir_type (dir : Except Int (List DirEntry)) (size : Nat → Nat) (name : Text) : Except Int (Nat × Bool) :=
  dir.map fun l =>
    let r := iterateDir g109_actor l (size 0 + 1) 0 ⟨name, DT_UNKNOWN, false⟩
    (r.2.type, r.2.found)

end G109

namespace G035

/-- `struct g035_diriter` -/
structure Iter where
  entries : Int
  saw_silly : Bool

def nfsPrefix : Text := ['.', 'n', 'f', 's']

def g035_actor (it : Iter) (e : DirEntry) : Bool × Iter :=
  if IsDot e.name then (true, it)
  else
    let it := { it with entries := incr it.entries }
    if 4 ≤ e.name.length ∧ e.name.take 4 = nfsPrefix then (true, { it with saw_silly := true }) else (true, it)

/-- `g035_scan_dir()`: the error of the open, or what is stored in `*entries` and `*saw_silly`. -/
def g035_scan_dir (dir : Except Int (List DirEntry)) (size : Nat → Nat) : Except Int (Int × Bool) :=
  dir.map fun l =>
    let r := iterateDir g035_actor l (size 0 + 1) 0 ⟨0, false⟩
    (r.2.entries, r.2.saw_silly)

end G035

/-! ## What one batch shows -/

namespace G109

theorem actor_takes (it : Iter) (e : DirEntry) : (g109_actor it e).1 = true := by
  unfold g109_actor
  split <;> rfl

/-- The iterator holds the last entry with the wanted name. -/
theorem foldl_actor (want : Text) (l : List DirEntry) :
    l.foldl (after g109_actor) ⟨want, DT_UNKNOWN, false⟩ =
      match l.reverse.find? (·.name = want) with
      | some e => ⟨want, e.type, true⟩
      | none => ⟨want, DT_UNKNOWN, false⟩ := by
  induction l using List.reverseRecOn with
  | nil => rfl
  | append_singleton l e ih =>
    rw [List.foldl_append, ih, List.reverse_append, List.reverse_singleton, List.singleton_append, List.find?_cons]
    unfold after g109_actor
    by_cases he : e.name = want
    · cases l.reverse.find? (·.name = want) <;> simp [he]
    · cases l.reverse.find? (·.name = want) <;> simp [he]

theorem readdir_type_eq (l : List DirEntry) (size : Nat → Nat) (name : Text) :
    g109_readdir_type (.ok l) size name =
      match (l.take (size 0 + 1)).reverse.find? (·.name = name) with
      | some e => .ok (e.type, true)
      | none => .ok (DT_UNKNOWN, false) := by
  unfold g109_readdir_type
  simp only [Except.map]
  rw [iterateDir_all actor_takes, List.drop_zero, foldl_actor]
  cases (l.take (size 0 + 1)).reverse.find? (·.name = name) <;> rfl

/-- `*found` says whether the directory holds an entry of the name, and `*type` is its type then. -/
def Finds (l : List DirEntry) (size : Nat → Nat) (name : Text) : Prop :=
  ∃ type found, g109_readdir_type (.ok l) size name = .ok (type, found) ∧
    (found = true ↔ ∃ e ∈ l, e.name = name) ∧ ∀ e ∈ l, e.name = name → type = e.type

theorem finds_iff {l : List DirEntry} (hl : (l.map DirEntry.name).Nodup) (size : Nat → Nat) (name : Text) :
    Finds l size name ↔ ((∃ e ∈ l, e.name = name) → ∃ e ∈ l.take (size 0 + 1), e.name = name) := by
  unfold Finds
  rw [readdir_type_eq]
  cases hfind : (l.take (size 0 + 1)).reverse.find? (·.name = name) with
  | some e =>
    have hmem : e ∈ l.take (size 0 + 1) := List.mem_reverse.1 (List.mem_of_find?_eq_some hfind)
    have hname : e.name = name := by simpa using List.find?_some hfind
    refine iff_of_true ⟨e.type, true, rfl, iff_of_true rfl ⟨e, List.mem_of_mem_take hmem, hname⟩,
      fun e' he' hname' => ?_⟩
      fun _ => ⟨e, hmem, hname⟩
    rw [List.inj_on_of_nodup_map hl he' (List.mem_of_mem_take hmem) (hname'.trans hname.symm)]
  | none =>
    have hnot : ¬ ∃ e ∈ l.take (size 0 + 1), e.name = name := by
      rintro ⟨e, he, hname⟩
      exact absurd hname (by simpa using List.find?_eq_none.1 hfind e (List.mem_reverse.2 he))
    constructor
    · rintro ⟨type, found, hrun, hfound, -⟩ hex
      have := (Prod.mk.inj (Except.ok.inj hrun)).2.trans (hfound.2 hex)
      cases this
    · intro hcond
      have habsent : ¬ ∃ e ∈ l, e.name = name := fun hex => hnot (hcond hex)
      exact ⟨DT_UNKNOWN, false, rfl, iff_of_false Bool.false_ne_true habsent,
        fun e he hname => absurd ⟨e, he, hname⟩ habsent⟩

end G109

namespace G035

/-- An entry that is neither `.` nor `..`, and one that a rename over an open file leaves. -/
def Proper (e : DirEntry) : Prop := ¬ IsDot e.name

def Silly (e : DirEntry) : Prop := ¬ IsDot e.name ∧ nfsPrefix <+: e.name

instance : DecidablePred Proper := fun _ => inferInstanceAs (Decidable (¬ _))
instance : DecidablePred Silly := fun _ => inferInstanceAs (Decidable (_ ∧ _))

theorem actor_takes (it : Iter) (e : DirEntry) : (g035_actor it e).1 = true := by
  unfold g035_actor
  split
  · rfl
  · dsimp only
    split <;> rfl

theorem silly_iff {e : DirEntry} (h : Proper e) : Silly e ↔ 4 ≤ e.name.length ∧ e.name.take 4 = nfsPrefix := by
  rw [Silly, and_iff_right (show ¬ IsDot e.name from h), List.prefix_iff_eq_take]
  refine ⟨fun heq => ⟨?_, heq.symm⟩, fun heq => heq.2.symm⟩
  have hlen := congrArg List.length heq
  rw [List.length_take] at hlen
  have : nfsPrefix.length = 4 := rfl
  omega

/-- What the actor does with an entry. -/
theorem after_actor (it : Iter) (e : DirEntry) : after g035_actor it e =
    ⟨if Proper e then incr it.entries else it.entries, it.saw_silly || Silly e⟩ := by
  unfold after g035_actor
  by_cases hdot : IsDot e.name
  · simp [Proper, Silly, hdot]
  · by_cases hsilly : Silly e
    · simp [Proper, hdot, hsilly, (silly_iff hdot).1 hsilly]
    · rw [if_neg hdot]
      dsimp only
      rw [if_neg (mt (silly_iff hdot).2 hsilly)]
      simp [Proper, hdot, hsilly]

theorem foldl_actor (l : List DirEntry) :
    l.foldl (after g035_actor) ⟨0, false⟩ = ⟨cint (l.countP Proper), l.any Silly⟩ := by
  induction l using List.reverseRecOn with
  | nil => rfl
  | append_singleton l e ih =>
    rw [List.foldl_append, ih, List.countP_append, List.countP_singleton, List.any_append, List.foldl_cons,
      List.foldl_nil, after_actor]
    by_cases hproper : Proper e
    · simp [hproper, incr_cint]
    · simp [hproper]

theorem scan_dir_eq (l : List DirEntry) (size : Nat → Nat) :
    g035_scan_dir (.ok l) size =
      .ok (cint ((l.take (size 0 + 1)).countP Proper), (l.take (size 0 + 1)).any Silly) := by
  unfold g035_scan_dir
  simp only [Except.map]
  rw [iterateDir_all actor_takes, List.drop_zero, foldl_actor]

/-- `*entries` is the number of the entries other than `.` and `..`, and `*saw_silly` whether one of them begins with
`.nfs`. -/
def Scans (l : List DirEntry) (size : Nat → Nat) : Prop :=
  ∃ entries silly, g035_scan_dir (.ok l) size = .ok (entries, silly) ∧ entries = l.countP Proper ∧
    (silly = true ↔ ∃ e ∈ l, Silly e)

theorem scans_iff (l : List DirEntry) (size : Nat → Nat) :
    Scans l size ↔ (∀ e ∈ l.drop (size 0 + 1), IsDot e.name) ∧ l.countP Proper < 2 ^ 31 := by
  unfold Scans
  rw [scan_dir_eq]
  have hsplit : l.countP Proper = (l.take (size 0 + 1)).countP Proper + (l.drop (size 0 + 1)).countP Proper := by
    rw [← List.countP_append, List.take_append_drop]
  have hrest : (l.drop (size 0 + 1)).countP Proper = 0 ↔ ∀ e ∈ l.drop (size 0 + 1), IsDot e.name := by
    rw [List.countP_eq_zero]
    exact forall₂_congr fun e _ => by rw [decide_eq_true_iff, Proper, not_not]
  constructor
  · rintro ⟨entries, silly, hrun, hentries, -⟩
    rw [← (Prod.mk.inj (Except.ok.inj hrun)).1] at hentries
    have hfits : (l.take (size 0 + 1)).countP Proper < 2 ^ 31 := by
      refine Nat.lt_of_not_le fun hle => ?_
      have hlt := cint_lt hle
      omega
    rw [cint_eq hfits] at hentries
    exact ⟨hrest.1 (by omega), by omega⟩
  · rintro ⟨hdots, hfits⟩
    have hzero := hrest.2 hdots
    refine ⟨_, _, rfl, ?_, ?_⟩
    · rw [cint_eq (by omega)]
      omega
    · rw [List.any_eq_true]
      constructor
      · rintro ⟨e, he, hsilly⟩
        exact ⟨e, List.mem_of_mem_take he, of_decide_eq_true hsilly⟩
      · rintro ⟨e, he, hsilly⟩
        rw [← List.take_append_drop (size 0 + 1) l, List.mem_append] at he
        exact ⟨e, he.resolve_right fun hdrop => hsilly.1 (hdots e hdrop), decide_eq_true hsilly⟩

end G035

/-- The two readers are right about a directory exactly when what they look for in it comes with the first call. -/
theorem one_call_iff {l : List DirEntry} (hl : (l.map DirEntry.name).Nodup) (size : Nat → Nat) (name : Text) :
    (G109.Finds l size name ↔ ((∃ e ∈ l, e.name = name) → ∃ e ∈ l.take (size 0 + 1), e.name = name)) ∧
      (G035.Scans l size ↔ (∀ e ∈ l.drop (size 0 + 1), IsDot e.name) ∧ l.countP G035.Proper < 2 ^ 31) :=
  ⟨G109.finds_iff hl size name, G035.scans_iff l size⟩

/-- A directory with two entries. -/
def pair : List DirEntry := [⟨['.'], 4⟩, ⟨['.', '.'], 4⟩, ⟨['f', 'd', '1'], 8⟩, ⟨['.', 'n', 'f', 's', '0'], 8⟩]

/-- Four entries a call are all there are. -/
theorem one_call_iff_pair : G109.Finds pair (fun _ => 3) ['f', 'd', '1'] ∧ G035.Scans pair (fun _ => 3) :=
  ⟨(one_call_iff (by decide) _ _).1.2 fun _ => ⟨⟨['f', 'd', '1'], 8⟩, by decide⟩,
    (one_call_iff (by decide) _ []).2.2 ⟨by decide, by decide⟩⟩

/-- With two entries a call the first shows none of the two. -/
theorem pair_not_seen : ¬ G109.Finds pair (fun _ => 1) ['f', 'd', '1'] ∧ ¬ G035.Scans pair (fun _ => 1) := by
  constructor
  · rintro ⟨type, found, hrun, hfound, -⟩
    have hnot : found = false := (Prod.mk.inj (Except.ok.inj hrun)).2.symm
    rw [hfound.2 ⟨⟨['f', 'd', '1'], 8⟩, by decide⟩] at hnot
    cases hnot
  · rintro ⟨entries, silly, hrun, hentries, -⟩
    rw [← (Prod.mk.inj (Except.ok.inj hrun)).1] at hentries
    exact absurd hentries (by decide)

end NfsPlayground.Dirs
