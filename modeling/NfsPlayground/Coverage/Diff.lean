import NfsPlayground.Coverage.Parse
import Mathlib.Algebra.Order.Ring.Rat
import Mathlib.Data.Char
import Mathlib.Data.List.Sort
import Mathlib.Data.List.Lex
import Mathlib.Data.Rat.Floor

/-!
# The table of changed files

`main()` of `scripts/kunit/coverage-diff.py`: from the counts of two tracefiles, the files whose percentage changed by
`NOISE_FLOOR_PP` or more, sorted once by the change. Percentages are exact.

The comment over the sort asks for two orders, the biggest regressions first and then the biggest improvements. One
ascending order gives the first; it gives the second only where all improvements are equal (`diff_table_iff`).
-/

namespace NfsPlayground.Coverage

open Lines PyText

/-- `{file: (hit, total)}` -/
abbrev Counts := AList fun _ : Text => Nat × Nat

def NOISE_FLOOR_PP : ℚ := 1

def pct (hit total : Nat) : ℚ := if total = 0 then 0 else 100 * hit / total

/-- A tuple of `rows`. -/
structure Row where
  delta : ℚ
  file : Text
  b : Option (Nat × Nat)
  h : Option (Nat × Nat)
  bPct : Option ℚ
  hPct : Option ℚ
  deriving DecidableEq

/-! ## The rows -/

/-- The pass of the loop for the file `f`, before the change is looked at. -/
def rowOf (base head : Counts) (f : Text) : Row :=
  let b := base.lookup f
  let h := head.lookup f
  let bPct := b.map fun c => pct c.1 c.2
  let hPct := h.map fun c => pct c.1 c.2
  ⟨hPct.getD 0 - bPct.getD 0, f, b, h, bPct, hPct⟩

/-- `sorted(set(base) | set(head))` -/
def allFiles (base head : Counts) : List Text := (base.keys ∪ head.keys).mergeSort fun f g => f ≤ g

/-- `rows`, as the loop leaves them. -/
def changedRows (base head : Counts) : List Row :=
  ((allFiles base head).map (rowOf base head)).filter fun r => ¬ |r.delta| < NOISE_FLOOR_PP

/-- `rows.sort(key=lambda r: r[0])` -/
def tableRows (base head : Counts) : List Row := (changedRows base head).mergeSort fun r r' => r.delta ≤ r'.delta

/-! ## The text -/

/-- The tenths of a number, rounded half to even. -/
def tenths (q : ℚ) : Int :=
  let n := ⌊10 * q⌋
  let rest := 10 * q - n
  if rest < 1 / 2 then n else if 1 / 2 < rest then n + 1 else if n % 2 = 0 then n else n + 1

/-- `f"{q:.1f}"` -/
def fixed1 (q : ℚ) : Text :=
  let n := (tenths q).natAbs
  (if q < 0 then ['-'] else []) ++ Nat.toDigits 10 (n / 10) ++ '.' :: Nat.toDigits 10 (n % 10)

def Row.line (r : Row) : Text :=
  let bS := r.bPct.elim ['-'] fun p => fixed1 p ++ ['%']
  let hS := r.hPct.elim "removed".toList fun p => fixed1 p ++ ['%']
  let sign := if 0 ≤ r.delta then ['+'] else []
  "| `".toList ++ r.file ++ "` | ".toList ++ bS ++ " | ".toList ++ hS ++ " | ".toList ++ sign ++ fixed1 r.delta ++
    "pp |".toList

def hits (d : Counts) : Nat := (d.entries.map fun e => e.2.1).sum

def totals (d : Counts) : Nat := (d.entries.map fun e => e.2.2).sum

/-- The lines `main()` prints for the two dictionaries. -/
def diffLines (base head : Counts) : List Text :=
  let baseTotal := totals base
  let headTotal := totals head
  let overall := "Overall: ".toList ++ fixed1 (pct (hits base) baseTotal) ++ "% -> ".toList ++
    fixed1 (pct (hits head) headTotal) ++ "% (".toList ++ Nat.toDigits 10 (hits head) ++
    '/' :: Nat.toDigits 10 headTotal ++ " lines, ".toList ++ (if baseTotal ≤ headTotal then ['+'] else []) ++
    intText (headTotal - baseTotal) ++ " lines instrumented)".toList
  let top := ["### Coverage (KUnit + xfstests) vs `master` (/fs/ only)".toList, [], overall, []]
  match tableRows base head with
  | [] => top ++ ["No /fs/ file changed coverage by ".toList ++ fixed1 NOISE_FLOOR_PP ++ "pp or more.".toList]
  | rows => top ++ ["| File | Base | Head | Delta |".toList, "|---|---:|---:|---:|".toList] ++ rows.map Row.line

/-- `main()`; `none` is the `ValueError` of a tracefile that cannot be read. -/
def diffMain (base head : Text) : Option (List Text) := do
  let b ← parseLcov base
  let h ← parseLcov head
  let dict (l : List (Text × Nat × Nat)) : Counts :=
    (l.map fun e => (⟨e.1, e.2⟩ : Sigma fun _ : Text => Nat × Nat)).toAList
  some (diffLines (dict b) (dict h))

/-! ## What the table has to say -/

section Table

variable (base head : Counts)

/-- How much the percentage of a file changed; it is `0` where the file is absent. -/
def change (f : Text) : ℚ :=
  ((head.lookup f).map fun c => pct c.1 c.2).getD 0 - ((base.lookup f).map fun c => pct c.1 c.2).getD 0

/-- The file is in one of the dictionaries, and changed enough. -/
def Changed (f : Text) : Prop := (f ∈ base ∨ f ∈ head) ∧ NOISE_FLOOR_PP ≤ |change base head f|

/-- The rows are complete and in the order the comment asks for. -/
structure Documented (rows : List Row) : Prop where
  once : (rows.map Row.file).Nodup
  files : ∀ f, f ∈ rows.map Row.file ↔ Changed base head f
  delta : ∀ r ∈ rows, r.delta = change base head r.file
  signs : rows.Pairwise fun r r' => 0 < r.delta → ¬ r'.delta < 0
  regressions : rows.Pairwise fun r r' => r.delta < 0 → r'.delta < 0 → |r'.delta| ≤ |r.delta|
  improvements : rows.Pairwise fun r r' => 0 < r.delta → 0 < r'.delta → |r'.delta| ≤ |r.delta|

variable {base head}

theorem rowOf_delta (f : Text) : (rowOf base head f).delta = change base head f := rfl

theorem mem_allFiles {f : Text} : f ∈ allFiles base head ↔ f ∈ base ∨ f ∈ head := by
  rw [allFiles, List.mem_mergeSort, List.mem_union_iff, AList.mem_keys, AList.mem_keys]

theorem nodup_allFiles : (allFiles base head).Nodup :=
  (List.mergeSort_perm ..).nodup_iff.2 (head.keys_nodup.union base.keys)

theorem mem_changedRows {r : Row} :
    r ∈ changedRows base head ↔ Changed base head r.file ∧ r = rowOf base head r.file := by
  rw [changedRows, List.mem_filter, List.mem_map, decide_eq_true_iff, not_lt]
  constructor
  · rintro ⟨⟨f, hf, rfl⟩, hdelta⟩
    exact ⟨⟨mem_allFiles.1 hf, hdelta⟩, rfl⟩
  · rintro ⟨⟨hf, hchange⟩, hr⟩
    refine ⟨⟨r.file, mem_allFiles.2 hf, hr.symm⟩, ?_⟩
    rw [hr]
    exact hchange

theorem mem_tableRows {r : Row} :
    r ∈ tableRows base head ↔ Changed base head r.file ∧ r = rowOf base head r.file := by
  rw [tableRows, List.mem_mergeSort, mem_changedRows]

theorem nodup_tableRows : ((tableRows base head).map Row.file).Nodup := by
  have hfiles : (((allFiles base head).map (rowOf base head)).map Row.file).Nodup := by
    rw [List.map_map]
    exact (List.map_id (allFiles base head)).symm ▸ nodup_allFiles
  have hrows : ((changedRows base head).map Row.file).Nodup := hfiles.sublist (List.filter_sublist.map Row.file)
  exact ((List.mergeSort_perm ..).map Row.file).nodup_iff.2 hrows

theorem ascending_tableRows : (tableRows base head).Pairwise fun r r' => r.delta ≤ r'.delta :=
  List.pairwise_mergeSort' (fun r r' : Row => r.delta ≤ r'.delta) _

/-- In an ascending list the positive values also descend only if they are all the same. -/
theorem positives_descend_iff {α : Type} {v : α → ℚ} {l : List α} (h : l.Pairwise fun a b => v a ≤ v b) :
    (l.Pairwise fun a b => 0 < v a → 0 < v b → |v b| ≤ |v a|) ↔ ∀ a ∈ l, ∀ b ∈ l, 0 < v a → 0 < v b → v a = v b := by
  constructor
  · intro hdesc
    have hboth : l.Pairwise fun a b => 0 < v a → 0 < v b → v a = v b := by
      refine h.imp₂ (fun a b hle hge ha hb => ?_) hdesc
      have hba := hge ha hb
      rw [abs_of_pos ha, abs_of_pos hb] at hba
      exact le_antisymm hle hba
    have hflip : l.Pairwise fun a b => 0 < v b → 0 < v a → v b = v a := by
      refine hboth.imp fun hab hb ha => ?_
      exact (hab ha hb).symm
    intro a ha b hb
    exact hboth.forall_of_forall_of_flip (fun _ _ _ _ => rfl) hflip ha hb
  · intro hall
    refine List.pairwise_iff_forall_sublist.2 fun {a b} hsub ha hb => ?_
    have hmem := hsub.subset
    rw [hall a (hmem (by simp)) b (hmem (by simp)) ha hb]

theorem changed_of_improved {f : Text} (h : f ∈ base ∨ f ∈ head) (hf : NOISE_FLOOR_PP ≤ change base head f) :
    Changed base head f := ⟨h, hf.trans (le_abs_self _)⟩

theorem improved_of_pos {f : Text} (h : Changed base head f) (hpos : 0 < change base head f) :
    NOISE_FLOOR_PP ≤ change base head f := abs_of_pos hpos ▸ h.2

theorem floor_pos : 0 < NOISE_FLOOR_PP := by decide +kernel

/-- What the single ascending sort gives in any case. -/
theorem documented_iff : Documented base head (tableRows base head) ↔
    (tableRows base head).Pairwise fun r r' => 0 < r.delta → 0 < r'.delta → |r'.delta| ≤ |r.delta| := by
  refine ⟨Documented.improvements, fun himp => ⟨nodup_tableRows, fun f => ?_, fun r hr => ?_, ?_, ?_, himp⟩⟩
  · rw [List.mem_map]
    constructor
    · rintro ⟨r, hr, rfl⟩
      exact (mem_tableRows.1 hr).1
    · intro hf
      exact ⟨rowOf base head f, mem_tableRows.2 ⟨hf, rfl⟩, rfl⟩
  · rw [(mem_tableRows.1 hr).2]
    rfl
  · exact ascending_tableRows.imp fun hle hpos hneg => absurd (hpos.trans_le hle) (not_lt.2 hneg.le)
  · refine ascending_tableRows.imp fun hle hneg hneg' => ?_
    rw [abs_of_neg hneg, abs_of_neg hneg']
    exact neg_le_neg hle

/-- The table is as documented exactly where all files that improved enough to be in it improved by the same. -/
theorem diff_table_iff (base head : Counts) : Documented base head (tableRows base head) ↔
    ∀ f g, (f ∈ base ∨ f ∈ head) → (g ∈ base ∨ g ∈ head) → NOISE_FLOOR_PP ≤ change base head f →
      NOISE_FLOOR_PP ≤ change base head g → change base head f = change base head g := by
  rw [documented_iff, positives_descend_iff ascending_tableRows]
  constructor
  · intro hall f g hf hg hf1 hg1
    have hmem : ∀ {f}, (f ∈ base ∨ f ∈ head) → NOISE_FLOOR_PP ≤ change base head f →
        rowOf base head f ∈ tableRows base head :=
      fun hf hf1 => mem_tableRows.2 ⟨changed_of_improved hf hf1, rfl⟩
    exact hall _ (hmem hf hf1) _ (hmem hg hg1) (floor_pos.trans_le hf1) (floor_pos.trans_le hg1)
  · intro hall r hr r' hr' hpos hpos'
    obtain ⟨hchanged, hrow⟩ := mem_tableRows.1 hr
    obtain ⟨hchanged', hrow'⟩ := mem_tableRows.1 hr'
    rw [hrow] at hpos ⊢
    rw [hrow'] at hpos' ⊢
    exact hall _ _ hchanged.1 hchanged'.1 (improved_of_pos hchanged hpos) (improved_of_pos hchanged' hpos')

end Table

/-- Two new files, one covered by a tenth and the other by a fifth. -/
def newFiles : Counts := ((∅ : Counts).insert ['f', 's', '/', 'a'] (10, 100)).insert ['f', 's', '/', 'b'] (20, 100)

/-- The smaller improvement comes first. -/
theorem small_improvement_first : ¬ Documented ∅ newFiles (tableRows ∅ newFiles) := by
  rw [documented_iff, positives_descend_iff ascending_tableRows]
  intro hall
  have hmem : ∀ f, f ∈ newFiles → NOISE_FLOOR_PP ≤ change ∅ newFiles f → rowOf ∅ newFiles f ∈ tableRows ∅ newFiles :=
    fun f hf hf1 => mem_tableRows.2 ⟨changed_of_improved (Or.inr hf) hf1, rfl⟩
  have ha : change ∅ newFiles ['f', 's', '/', 'a'] = 10 := by decide +kernel
  have hb : change ∅ newFiles ['f', 's', '/', 'b'] = 20 := by decide +kernel
  have heq := hall _ (hmem ['f', 's', '/', 'a'] (by decide) (by rw [ha]; decide +kernel)) _
    (hmem ['f', 's', '/', 'b'] (by decide) (by rw [hb]; decide +kernel))
    (by rw [rowOf_delta, ha]; decide +kernel) (by rw [rowOf_delta, hb]; decide +kernel)
  rw [rowOf_delta, rowOf_delta, ha, hb] at heq
  exact absurd heq (by decide +kernel)

end NfsPlayground.Coverage
