import NfsPlayground.Lib.Groups
import NfsPlayground.Lib.PyText
import Mathlib.Data.Char
import Mathlib.Data.List.Count
import Mathlib.Data.List.Lex

/-!
# The account of the xfstests cases

`scripts/kunit/xfstests-port-status.py` joins two directory listings, the upstream cases and the sources of the ports,
and writes a document that lists every case as ported, as examined by hand, or under the family its reason makes. The
total it states is computed from the parts, so that the document adds up exactly when every port is of an upstream case
(`accounts_iff`).

The tables of reasons, the regular expressions that search the source of a case and what `\d` matches are parameters.
-/

namespace NfsPlayground.Ports

open Lines Groups

/-- A directory listing: names in any order, each once. -/
structure Listing where
  names : List Text
  nodup : names.Nodup

/-- A pattern and the reason it stands for. -/
structure Rule where
  search : Text → Bool
  why : Text

structure Tables where
  skipRules : List Rule
  skipGroups : List (Text × Text)
  bodyRules : List Rule
  manual : List (Text × Text)
  /-- The `_require` lines of a source, joined. -/
  requires : Text → Text
  groupsOf : Text → List Text

def unclassified : Text := "UNCLASSIFIED -- read this one and add it to MANUAL".toList

/-- The loop over a table of rules: the reason of the first that matches. -/
def firstRule (rules : List Rule) (src : Text) : Text := ((rules.find? (·.search src)).map Rule.why).getD []

/-- The loop over the groups of a case. -/
def firstGroup (table : List (Text × Text)) (groups : List Text) : Text :=
  (groups.findSome? fun g => table.lookup g).getD []

/-- `if not reason: reason = next` -/
def orElse (reason next : Text) : Text := if reason = [] then next else reason

def reasonOf (t : Tables) (num src : Text) : Text :=
  orElse ((t.manual.lookup num).getD []) <|
  orElse (firstRule t.skipRules (t.requires src)) <|
  orElse (firstGroup t.skipGroups (t.groupsOf src)) <|
  orElse (firstRule t.bodyRules src) unclassified

def sorted (l : List Text) : List Text := l.insertionSort (· ≤ ·)

def dotC : Text := ['.', 'c']

section

variable (digit : Char → Bool)

/-- `re.fullmatch(r"\d{3}", n)` -/
def isCase (n : Text) : Bool := n.length = 3 ∧ n.all digit

/-- The upstream cases. -/
def cases (tests : Listing) : List Text := sorted (tests.names.filter (isCase digit))

/-- The ports, by the names of their sources. -/
def ported (portedDir : Listing) : List Text :=
  sorted ((portedDir.names.filter fun p => dotC <:+ p).map fun p => p.take (p.length - 2))

def classify (t : Tables) (load : Text → Text) (tests portedDir : Listing) : List Text × List (Text × Text) :=
  let ported := ported portedDir
  (ported, ((cases digit tests).filter (· ∉ ported)).map fun num => (num, reasonOf t num (load num)))

/-! ## The document -/

structure Family where
  reason : Text
  count : Nat
  lines : List (List Text)

structure Document where
  ports : Nat
  total : Nat
  others : Nat
  families : List Family
  individual : List (Text × Text)
  ported : List (List Text)

/-- `wrap(nums)`: the lines of a block, by their words. -/
def wrap (nums : List Text) : List (List Text) := fill 74 [] 0 (nums.map fun n => "generic/".toList ++ n)

/-- `main()` -/
def document (t : Tables) (load : Text → Text) (tests portedDir : Listing) : Document :=
  let (ported, skipped) := classify digit t load tests portedDir
  let isManual := fun x : Text × Text => (t.manual.lookup x.1).isSome
  let families := groupBy (skipped.filter fun x => !isManual x)
  { ports := ported.length
    total := ported.length + skipped.length
    others := skipped.length
    families := (families.insertionSort fun a b => b.2.length ≤ a.2.length).map fun f =>
      ⟨f.1, f.2.length, wrap (sorted f.2)⟩
    individual := (skipped.filter isManual).insertionSort fun a b => a.1 ≤ b.1
    ported := wrap ported }

end

/-! ## What is listed -/

def generic (n : Text) : Text := "generic/".toList ++ n

/-- Every case the document lists: among the families, in the table, and as ported. -/
def Document.listed (d : Document) : List Text :=
  d.families.flatMap (fun f => f.lines.flatten) ++ d.individual.map (fun x => generic x.1) ++ d.ported.flatten

/-- The document accounts for the upstream cases. -/
structure Accounts (upstream : List Text) (d : Document) : Prop where
  listed_once : ∀ n ∈ upstream, d.listed.count (generic n) = 1
  adds_up : d.ports + d.others = d.total
  total : d.total = upstream.length
  family_count : ∀ f ∈ d.families, f.count = f.lines.flatten.length
  reasons : (∀ f ∈ d.families, f.reason ≠ []) ∧ ∀ x ∈ d.individual, x.2 ≠ []

theorem generic_injective : Function.Injective generic := fun _ _ h => List.append_cancel_left h

theorem flatten_wrap (nums : List Text) : (wrap nums).flatten = nums.map generic := flatten_fill 74 _ [] 0

theorem perm_sorted (l : List Text) : (sorted l).Perm l := List.perm_insertionSort _ l

theorem unclassified_ne_nil : unclassified ≠ [] := fun h => by
  have hhead : (unclassified ++ []).head? = some 'U' := head_lit []
  rw [h] at hhead
  cases hhead

theorem orElse_ne_nil {reason next : Text} (h : next ≠ []) : orElse reason next ≠ [] := by
  unfold orElse
  split
  · exact h
  · assumption

/-- Every case has a reason, at the last the one that says that none was found. -/
theorem reasonOf_ne_nil (t : Tables) (num src : Text) : reasonOf t num src ≠ [] :=
  orElse_ne_nil (orElse_ne_nil (orElse_ne_nil (orElse_ne_nil unclassified_ne_nil)))

theorem mem_ported {portedDir : Listing} {n : Text} : n ∈ ported portedDir ↔ n ++ dotC ∈ portedDir.names := by
  rw [ported, (perm_sorted _).mem_iff, List.mem_map]
  constructor
  · rintro ⟨p, hp, rfl⟩
    obtain ⟨hp, hsuf⟩ := List.mem_filter.1 hp
    obtain ⟨m, rfl⟩ := of_decide_eq_true hsuf
    simpa [dotC] using hp
  · intro h
    exact ⟨n ++ dotC, List.mem_filter.2 ⟨h, decide_eq_true (List.suffix_append n dotC)⟩, by simp [dotC]⟩

theorem nodup_ported (portedDir : Listing) : (ported portedDir).Nodup := by
  rw [ported, (perm_sorted _).nodup_iff]
  refine (portedDir.nodup.filter _).map_on fun p hp q hq heq => ?_
  obtain ⟨m, rfl⟩ := of_decide_eq_true (List.mem_filter.1 hp).2
  obtain ⟨k, rfl⟩ := of_decide_eq_true (List.mem_filter.1 hq).2
  simp only [List.length_append, Nat.add_sub_cancel, dotC, List.length_cons, List.length_nil, List.take_left'] at heq
  rw [heq]

section

variable {digit : Char → Bool} {t : Tables} {load : Text → Text} {tests portedDir : Listing}

theorem nodup_cases : (cases digit tests).Nodup := (perm_sorted _).nodup_iff.2 (tests.nodup.filter _)

/-- The families list what they were given, in another order. -/
theorem perm_families (fs : List (Text × List Text)) :
    (fs.flatMap fun f => (wrap (sorted f.2)).flatten).Perm ((fs.flatMap Prod.snd).map generic) := by
  have hone : ∀ f ∈ fs, ((wrap (sorted f.2)).flatten).Perm (f.2.map generic) := fun f _ => by
    rw [flatten_wrap]
    exact (perm_sorted f.2).map generic
  refine (List.Perm.flatMap_left fs hone).trans ?_
  rw [List.map_flatMap]

/-- The document lists the cases that are not ported and the ports. -/
theorem perm_listed : (document digit t load tests portedDir).listed.Perm
    (((cases digit tests).filter (· ∉ ported portedDir) ++ ported portedDir).map generic) := by
  let skipped := (classify digit t load tests portedDir).2
  let isManual := fun x : Text × Text => (t.manual.lookup x.1).isSome
  have hfamilies : ((document digit t load tests portedDir).families.flatMap fun f => f.lines.flatten).Perm
      ((skipped.filter fun x => !isManual x).map fun x => generic x.1) := by
    show ((List.insertionSort _ (groupBy (skipped.filter fun x => !isManual x))).map _ |>.flatMap _).Perm _
    rw [List.flatMap_map]
    refine (perm_families _).trans ?_
    rw [show (fun x : Text × Text => generic x.1) = generic ∘ Prod.fst from rfl, ← List.map_map]
    exact (((List.perm_insertionSort _ _).flatMap_right _).trans (perm_groupBy _)).map generic
  have hindividual : ((document digit t load tests portedDir).individual.map fun x => generic x.1).Perm
      ((skipped.filter isManual).map fun x => generic x.1) := (List.perm_insertionSort _ _).map _
  have hported : (document digit t load tests portedDir).ported.flatten = (ported portedDir).map generic :=
    flatten_wrap _
  have hskipped : skipped.map (fun x => generic x.1) =
      ((cases digit tests).filter (· ∉ ported portedDir)).map generic := by
    show (List.map _ _).map _ = _
    rw [List.map_map]
    rfl
  rw [Document.listed, hported, List.map_append, ← hskipped]
  refine List.Perm.append_right _ ((hfamilies.append hindividual).trans ?_)
  rw [← List.map_append]
  exact ((List.perm_append_comm).trans (List.filter_append_perm isManual skipped)).map _

end

/-- The document accounts for the upstream cases exactly when every port is of an upstream case. -/
theorem accounts_iff (digit : Char → Bool) (t : Tables) (load : Text → Text) (tests portedDir : Listing) :
    Accounts (tests.names.filter (isCase digit)) (document digit t load tests portedDir) ↔
      ∀ n, n ++ dotC ∈ portedDir.names → n ∈ tests.names ∧ isCase digit n := by
  have hcases : (cases digit tests).Perm (tests.names.filter (isCase digit)) := perm_sorted _
  have hports : (∀ n, n ++ dotC ∈ portedDir.names → n ∈ tests.names ∧ isCase digit n) ↔
      ∀ n ∈ ported portedDir, n ∈ cases digit tests := by
    simp only [mem_ported, hcases.mem_iff, List.mem_filter]
  have htotal : (document digit t load tests portedDir).total =
      (ported portedDir).length + ((cases digit tests).filter (· ∉ ported portedDir)).length :=
    congrArg _ (List.length_map _)
  rw [hports, ← length_add_rest_iff (nodup_ported portedDir) nodup_cases, ← htotal, hcases.length_eq]
  refine ⟨Accounts.total, fun hlen => ⟨fun n hn => ?_, rfl, hlen, fun f hf => ?_, fun f hf => ?_, fun x hx => ?_⟩⟩
  · rw [perm_listed.count_eq, List.count_map_of_injective _ generic generic_injective]
    refine List.count_eq_one_of_mem ?_ ?_
    · refine (nodup_cases.filter _).append (nodup_ported portedDir) fun m hm hm' => ?_
      exact of_decide_eq_true (List.mem_filter.1 hm).2 hm'
    · by_cases hin : n ∈ ported portedDir
      · exact List.mem_append_right _ hin
      · exact List.mem_append_left _ (List.mem_filter.2 ⟨hcases.mem_iff.2 hn, decide_eq_true hin⟩)
  · obtain ⟨g, -, rfl⟩ := List.mem_map.1 hf
    show g.2.length = (wrap (sorted g.2)).flatten.length
    rw [flatten_wrap, List.length_map, (perm_sorted g.2).length_eq]
  · obtain ⟨g, hg, rfl⟩ := List.mem_map.1 hf
    obtain ⟨x, hx, heq⟩ := key_of_mem_groupBy ((List.perm_insertionSort _ _).mem_iff.1 hg)
    obtain ⟨num, -, rfl⟩ := List.mem_map.1 (List.mem_of_mem_filter hx)
    show g.1 ≠ []
    rw [← heq]
    exact reasonOf_ne_nil t num _
  · obtain ⟨num, -, rfl⟩ := List.mem_map.1 (List.mem_of_mem_filter ((List.perm_insertionSort _ _).mem_iff.1 hx))
    exact reasonOf_ne_nil t num _

/-- Two cases and a port of one of them. -/
def twoCases : Listing := ⟨[['0', '0', '1'], ['0', '0', '2'], ['R', 'E', 'A', 'D']], by decide⟩

def onePort : Listing := ⟨[['0', '0', '2'] ++ dotC], by decide⟩

/-- A port of no upstream case. -/
def helperPort : Listing := ⟨[['0', '0', '2'] ++ dotC, ['h'] ++ dotC], by decide⟩

/-- Tables that say nothing, as those of the script do of an empty source. -/
def noTables : Tables := ⟨[], [], [], [], fun _ => [], fun _ => []⟩

example : (document Char.isDigit noTables (fun _ => []) twoCases onePort).total = 2 := by decide

/-- With a port of no upstream case the stated total is three, of two cases. -/
theorem total_counts_helper :
    (document Char.isDigit noTables (fun _ => []) twoCases helperPort).total = 3 ∧
    (twoCases.names.filter (isCase Char.isDigit)).length = 2 ∧
    ¬ Accounts (twoCases.names.filter (isCase Char.isDigit))
      (document Char.isDigit noTables (fun _ => []) twoCases helperPort) := by
  have htotal : (document Char.isDigit noTables (fun _ => []) twoCases helperPort).total = 3 := by decide
  refine ⟨htotal, by decide, fun h => ?_⟩
  have heq := h.total
  rw [htotal] at heq
  revert heq
  decide

end NfsPlayground.Ports
