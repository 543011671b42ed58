import NfsPlayground.Lib.CString
import Mathlib.Data.List.Perm.Subperm

/-!
# generic/337: the names that listxattr returns

The list is walked once for each name of the table, and once more to count. Neither walk leaves the returned length, and
together they accept exactly the lists of the names of the table, in any order (`g337_check_list_iff`).
-/

namespace NfsPlayground.Files.G337

open CString

/-- The table: each name with its value. -/
def g337_xattrs : List (String × String) :=
  [("user.foobar", "123"), ("user.WvG1c1Td", "qwerty"), ("user.J3__T_Km3dVsW_", "hello"), ("user.something", "pizza"),
    ("user.ping", "pong")]

/-- A string of the table, as the walks compare with it. -/
def cstring (s : String) : Ptr := s.toList ++ [NUL]

/-- From the offset on: is the name in the list of `len` bytes? -/
def g337_listed (list : Ptr) (len : Nat) (name : String) (off : Nat) : Option Bool :=
  if off < len then
    (strcmp (list.drop off) (cstring name)).bind fun cmp =>
      if cmp = 0 then some true
      else (strlen (list.drop off)).bind fun n => g337_listed list len name (off + (n + 1))
  else some false
termination_by len - off

/-- The walk that counts, from the offset on. -/
def count (list : Ptr) (len : Nat) (off : Nat) : Option Nat :=
  if off < len then
    (strlen (list.drop off)).bind fun n => (count list len (off + (n + 1))).map (· + 1)
  else some 0
termination_by len - off

/-- The messages of the expectations that fail, for what `xfs_listxattr()` returned and left in the buffer. -/
def g337_check_list (which : String) (len : Int) (list : Ptr) : Option (List String) :=
  if 0 < len then do
    let listed ← g337_xattrs.mapM fun x => (g337_listed list len.toNat x.1 0).map fun found => (x.1, found)
    let n ← count list len.toNat 0
    return (listed.filter (!·.2)).map (fun x => s!"{which}: listxattr omitted {x.1}") ++
      if (n : Int) = g337_xattrs.length then [] else [s!"{which}: listxattr returned {n} names"]
  else some [s!"{which}: listxattr returned {len}"]

/-! ## The two walks -/

/-- The list of names, each with its NUL. -/
def separated (names : List (List Char)) : Ptr := (names.map (· ++ [NUL])).flatten

@[simp] theorem separated_nil : separated [] = [] := rfl

@[simp] theorem separated_cons (name : List Char) (names : List (List Char)) :
    separated (name :: names) = name ++ NUL :: separated names := by
  simp [separated]

variable {names : List (List Char)} {b rest list : Ptr} {len : Nat}

/-- A walk is behind the bytes `b`, and the names are still before it; anything may follow the list. -/
structure At (list : Ptr) (len : Nat) (b : Ptr) (names : List (List Char)) (rest : Ptr) : Prop where
  list_eq : list = b ++ (separated names ++ rest)
  len_eq : len = b.length + (separated names).length

section

variable {n : List Char}

theorem At.not_lt (h : At list len b [] rest) : ¬ b.length < len := by simp [h.len_eq]

theorem At.lt (h : At list len b (n :: names) rest) : b.length < len := by
  rw [h.len_eq, separated_cons, List.length_append, List.length_cons]
  omega

theorem At.drop (h : At list len b (n :: names) rest) :
    list.drop b.length = n ++ NUL :: (separated names ++ rest) := by simp [h.list_eq]

/-- Past a name and its NUL. -/
theorem At.next (h : At list len b (n :: names) rest) : At list len (b ++ (n ++ [NUL])) names rest := by
  constructor
  · simp [h.list_eq]
  · simp [h.len_eq]
    omega

theorem length_next (b : Ptr) (n : List Char) : (b ++ (n ++ [NUL])).length = b.length + (n.length + 1) := by simp

end

theorem g337_listed_spec {name : String} (hname : NUL ∉ name.toList) (hnames : ∀ n ∈ names, NUL ∉ n)
    (h : At list len b names rest) : g337_listed list len name b.length = some (decide (name.toList ∈ names)) := by
  induction names generalizing b with
  | nil =>
    rw [g337_listed, if_neg h.not_lt]
    simp
  | cons n names ih =>
    rw [List.forall_mem_cons] at hnames
    obtain ⟨cmp, hcmp, hzero⟩ := strcmp_string hnames.1 hname (separated names ++ rest) []
    rw [g337_listed, if_pos h.lt, h.drop, cstring, hcmp, Option.bind_some, strlen_string hnames.1]
    by_cases heq : n = name.toList
    · simp [hzero.2 heq, heq]
    · have hnext := ih hnames.2 h.next
      rw [length_next] at hnext
      rw [if_neg (mt hzero.1 heq), Option.bind_some]
      simpa [Ne.symm heq] using hnext

theorem count_spec (hnames : ∀ n ∈ names, NUL ∉ n) (h : At list len b names rest) :
    count list len b.length = some names.length := by
  induction names generalizing b with
  | nil =>
    rw [count, if_neg h.not_lt]
    simp
  | cons n names ih =>
    rw [List.forall_mem_cons] at hnames
    have hnext := ih hnames.2 h.next
    rw [length_next] at hnext
    rw [count, if_pos h.lt, h.drop, strlen_string hnames.1]
    simp [hnext]

/-! ## The check -/

theorem mapM_some {α β : Type} {l : List α} {f : α → Option β} {g : α → β} (h : ∀ x ∈ l, f x = some (g x)) :
    l.mapM f = some (l.map g) := by
  induction l with
  | nil => rfl
  | cons x l ih =>
    rw [List.forall_mem_cons] at h
    simp [List.mapM_cons, h.1, ih h.2]

theorem nul_notMem_table : ∀ x ∈ g337_xattrs, NUL ∉ x.1.toList := by decide

/-- The names of the table. -/
def tableNames : List (List Char) := g337_xattrs.map (·.1.toList)

theorem nodup_tableNames : tableNames.Nodup := by decide

/-- The check, on a list of names that is followed by anything. -/
theorem g337_check_list_eq (which : String) (hnames : ∀ n ∈ names, NUL ∉ n) (hne : names ≠ []) (rest : Ptr) :
    g337_check_list which (separated names).length (separated names ++ rest) =
      some ((g337_xattrs.filter fun x => x.1.toList ∉ names).map (fun x => s!"{which}: listxattr omitted {x.1}") ++
        if (names.length : Int) = g337_xattrs.length then []
        else [s!"{which}: listxattr returned {names.length} names"]) := by
  have hpos : 0 < (separated names).length := by
    cases names with
    | nil => exact absurd rfl hne
    | cons n names =>
      rw [separated_cons, List.length_append, List.length_cons]
      omega
  have hat : At (separated names ++ rest) (separated names).length [] names rest := ⟨rfl, by simp⟩
  have hlisted : ∀ x ∈ g337_xattrs, g337_listed (separated names ++ rest) (separated names).length x.1 0 =
      some (decide (x.1.toList ∈ names)) := fun x hx =>
    g337_listed_spec (nul_notMem_table x hx) hnames hat
  have hcount : count (separated names ++ rest) (separated names).length 0 = some names.length :=
    count_spec hnames hat
  have hmap : g337_xattrs.mapM (fun x => (g337_listed (separated names ++ rest) (separated names).length x.1 0).map
      fun found => (x.1, found)) = some (g337_xattrs.map fun x => (x.1, decide (x.1.toList ∈ names))) :=
    mapM_some fun x hx => by rw [hlisted x hx, Option.map_some]
  rw [g337_check_list, if_pos (by omega), Int.toNat_natCast, hmap, hcount]
  simp only [Option.bind_eq_bind, Option.bind_some, Option.pure_def, List.filter_map, List.map_map]
  congr 2
  simp [Function.comp_def]

/-- Five names with all those of the table among them are those of the table, in some order. -/
theorem perm_tableNames_iff : names.Perm tableNames ↔
    (∀ n ∈ tableNames, n ∈ names) ∧ names.length = tableNames.length := by
  constructor
  · exact fun h => ⟨fun n hn => h.mem_iff.2 hn, h.length_eq⟩
  · rintro ⟨hall, hlen⟩
    exact ((List.subperm_of_subset nodup_tableNames hall).perm_of_length_le (Nat.le_of_eq hlen)).symm

/-- All expectations hold for a list of names if and only if it is a permutation of the table's, whatever follows the
list in the buffer. -/
theorem g337_check_list_iff (which : String) (names : List (List Char)) (hnames : ∀ n ∈ names, NUL ∉ n) (rest : Ptr) :
    g337_check_list which (separated names).length (separated names ++ rest) = some [] ↔ names.Perm tableNames := by
  by_cases hne : names = []
  · subst hne
    have hperm : ¬ [].Perm tableNames := fun h => by simpa [tableNames, g337_xattrs] using h.length_eq
    simp [g337_check_list, hperm]
  · have hlen : g337_xattrs.length = tableNames.length := (List.length_map _).symm
    have homitted : (g337_xattrs.filter fun x => x.1.toList ∉ names) = [] ↔ ∀ n ∈ tableNames, n ∈ names := by
      rw [tableNames, List.forall_mem_map, List.filter_eq_nil_iff]
      simp
    rw [g337_check_list_eq which hnames hne, perm_tableNames_iff, ← homitted, ← hlen, Option.some_inj,
      List.append_eq_nil_iff, List.map_eq_nil_iff, ite_eq_left_iff, Int.ofNat_inj]
    simp

theorem g337_check_list_iff_prefix :
    g337_check_list "client" (separated ["user.foo".toList, "user.foobar".toList]).length
      (separated ["user.foo".toList, "user.foobar".toList] ++ []) = some [] ↔
        ["user.foo".toList, "user.foobar".toList].Perm tableNames :=
  g337_check_list_iff "client" ["user.foo".toList, "user.foobar".toList] (by decide) []

end NfsPlayground.Files.G337
