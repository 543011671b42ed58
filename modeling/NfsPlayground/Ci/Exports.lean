import NfsPlayground.Lib.Ranges
import NfsPlayground.Lib.Pattern

/-!
# The block of the CI script in `/etc/exports`

`scripts/00-run-xfstests-on-gh-ci.sh` writes three exports between two marker comments at the end of `/etc/exports`,
and takes them out again with a range delete between the markers, once before it writes them and once in its teardown.

The range begins at the line that holds the first marker. On a text that is empty or ends in a newline that is a line
of the script's own, and what it takes out is what it put in (`teardown_setup`). On any other text the marker is
appended to the administrator's last line, which goes with it (`exports_survive_iff`).
-/

namespace NfsPlayground.Ci

open Lines Pattern

/-- The values the export lines are made of. -/
structure Loopback where
  nfsLoopbackBase : Text
  nfsLoopbackClient : Text
  nfsTestFsid : Text
  nfsScratchFsid : Text

/-- `${NAME:-default}` -/
def orDefault (value : Option Text) (default : String) : Text :=
  match value with
  | some (c :: t) => c :: t
  | _ => default.toList

/-- The values as the script takes them from its environment. -/
def Loopback.ofEnv (base client testFsid scratchFsid : Option Text) : Loopback where
  nfsLoopbackBase := orDefault base "/srv/nfs-test-env"
  nfsLoopbackClient := orDefault client "127.0.0.1"
  nfsTestFsid := orDefault testFsid "1"
  nfsScratchFsid := orDefault scratchFsid "2"

def beginMarker : Text := "# BEGIN nfs-test-env ci".toList

def endMarker : Text := "# END nfs-test-env ci".toList

def beginLine : Text := beginMarker ++ " -- managed by 00-run-xfstests-on-gh-ci.sh".toList

/-- The export lines between the markers. -/
def exportLines (v : Loopback) : Text :=
  unlines [
    v.nfsLoopbackBase ++ ' ' :: v.nfsLoopbackClient ++ "(ro,sync,no_subtree_check,no_root_squash,fsid=0)".toList,
    v.nfsLoopbackBase ++ "/test ".toList ++ v.nfsLoopbackClient ++
      "(rw,sync,no_subtree_check,no_root_squash,fsid=".toList ++ v.nfsTestFsid ++ [')'],
    v.nfsLoopbackBase ++ "/scratch ".toList ++ v.nfsLoopbackClient ++
      "(rw,sync,no_subtree_check,no_root_squash,fsid=".toList ++ v.nfsScratchFsid ++ [')']]

/-- The here-document that `tee -a` appends. -/
def ownBlock (v : Loopback) : Text := beginLine ++ '\n' :: (exportLines v ++ (endMarker ++ ['\n']))

def opens : Text → Bool := found [.lit beginMarker] none

def closes : Text → Bool := found [.lit endMarker] none

/-- `sed -i '/# BEGIN nfs-test-env ci/,/# END nfs-test-env ci/d' /etc/exports || true`: without the file `sed` fails,
and the script goes on. -/
def deleteOwn (exports : Option Text) : Option Text := exports.map (sedDelete opens closes)

/-- `tee -a /etc/exports` -/
def appendOwn (v : Loopback) (exports : Option Text) : Option Text := some (exports.getD [] ++ ownBlock v)

def setup (v : Loopback) (exports : Option Text) : Option Text := appendOwn v (deleteOwn exports)

def teardown (exports : Option Text) : Option Text := deleteOwn exports

/-- The setup followed by the teardown, `n` times. -/
def cycles (v : Loopback) : Nat → Option Text → Option Text
  | 0, exports => exports
  | n + 1, exports => cycles v n (teardown (setup v exports))

/-- The text holds neither marker comment. -/
def Unmarked (t : Text) : Prop := ¬ beginMarker <:+: t ∧ ¬ endMarker <:+: t

/-- The administrator's lines are there, in place and unchanged, and no other. -/
def Survives (t : Text) (exports : Option Text) : Prop := exports.map lines = some (lines t)

/-! ## The block -/

theorem not_mem_beginMarker : '\n' ∉ beginMarker := not_mem_lit (by decide)

theorem not_mem_endMarker : '\n' ∉ endMarker := not_mem_lit (by decide)

theorem not_mem_beginLine : '\n' ∉ beginLine := fun h =>
  (List.mem_append.1 h).elim not_mem_beginMarker (not_mem_lit (by decide))

theorem opens_iff {l : Text} : opens l = true ↔ beginMarker <:+: l := found_lit_iff

theorem closes_iff {l : Text} : closes l = true ↔ endMarker <:+: l := found_lit_iff

theorem hash_mem_markers : '#' ∈ beginMarker ∧ '#' ∈ endMarker := by
  have hbegin : (beginMarker ++ []).head? = some '#' := head_lit []
  have hend : (endMarker ++ []).head? = some '#' := head_lit []
  rw [List.append_nil] at hbegin hend
  exact ⟨List.mem_of_mem_head? hbegin, List.mem_of_mem_head? hend⟩

theorem unmarked_of_noHash {t : Text} (h : '#' ∉ t) : Unmarked t :=
  ⟨fun hin => h (hin.subset hash_mem_markers.1), fun hin => h (hin.subset hash_mem_markers.2)⟩

/-- The first line of the block opens the range, also when the last line of the file runs into it. -/
theorem opens_append_beginLine (l : Text) : opens (l ++ beginLine) = true :=
  opens_iff.2 ⟨l, " -- managed by 00-run-xfstests-on-gh-ci.sh".toList, by rw [beginLine, List.append_assoc]⟩

theorem closed_exportLines (v : Loopback) : Closed (exportLines v) := by
  rw [exportLines, unlines]
  refine closed_flatten fun l hl => ?_
  obtain ⟨m, -, rfl⟩ := List.mem_map.1 hl
  exact closed_append_newline m

/-- What follows the first line of the block. -/
def tail (v : Loopback) : Text := exportLines v ++ (endMarker ++ ['\n'])

theorem closed_tail (v : Loopback) : Closed (tail v) := (closed_exportLines v).append (closed_append_newline _)

/-- A block whose export lines do not hold the second marker lies in one range. -/
theorem covered_of_exportLines {v : Loopback} (h : ¬ endMarker <:+: exportLines v) :
    Covered opens closes true (lines (tail v)) := by
  rw [tail, lines_append _ (closed_exportLines v), lines_line not_mem_endMarker]
  refine covered_of_last fun m hm => ?_
  rw [Bool.eq_false_iff]
  exact fun hcl => h ((closes_iff.1 hcl).trans (infix_of_mem_lines hm))

/-- Values without a `#` give such a block. -/
theorem covered_of_values {v : Loopback} (hbase : '#' ∉ v.nfsLoopbackBase) (hclient : '#' ∉ v.nfsLoopbackClient)
    (htest : '#' ∉ v.nfsTestFsid) (hscratch : '#' ∉ v.nfsScratchFsid) :
    Covered opens closes true (lines (tail v)) := by
  refine covered_of_exportLines fun hin => ?_
  have hopts : '#' ∉ "(ro,sync,no_subtree_check,no_root_squash,fsid=0)".toList := not_mem_lit (by decide)
  have hrw : '#' ∉ "(rw,sync,no_subtree_check,no_root_squash,fsid=".toList := not_mem_lit (by decide)
  have hdirs : '#' ∉ "/test ".toList ∧ '#' ∉ "/scratch ".toList :=
    ⟨not_mem_lit (by decide), not_mem_lit (by decide)⟩
  have hmem := hin.subset hash_mem_markers.2
  simp only [exportLines, unlines, List.map_cons, List.map_nil, List.flatten_cons, List.flatten_nil, List.mem_append,
    List.mem_cons, List.not_mem_nil, hbase, hclient, htest, hscratch, hopts, hrw, hdirs.1, hdirs.2] at hmem
  revert hmem
  decide

/-! ## One setup and one teardown -/

variable {v : Loopback} {t : Text}

theorem no_range {t : Text} (h : ∀ l ∈ lines t, ¬ beginMarker <:+: l) : ∀ l ∈ lines t, opens l = false :=
  fun l hl => Bool.eq_false_iff.2 fun ho => h l hl (opens_iff.1 ho)

theorem deleteOwn_unmarked (h : ∀ l ∈ lines t, ¬ beginMarker <:+: l) : deleteOwn (some t) = some t :=
  congrArg some (sedDelete_of_quiet (no_range h))

/-- On a closed text the teardown takes out the lines of the block that lie in a range. -/
theorem teardown_setup_closed (ht : Closed t) (h : ∀ l ∈ lines t, ¬ beginMarker <:+: l) :
    teardown (setup v (some t)) = some (t ++ rest opens closes (tail v)) := by
  rw [setup, deleteOwn_unmarked h]
  exact congrArg some (sedDelete_open ht (no_range h) not_mem_beginLine (opens_append_beginLine []) (tail v))

/-- On an open text it takes the last line with them. -/
theorem teardown_setup_open {u l : Text} (hu : Closed u) (h : ∀ m ∈ lines (u ++ l), ¬ beginMarker <:+: m)
    (hl : '\n' ∉ l) : teardown (setup v (some (u ++ l))) = some (u ++ rest opens closes (tail v)) := by
  have hu' : ∀ m ∈ lines u, ¬ beginMarker <:+: m := fun m hm =>
    h m (by rw [lines_append l hu]; exact List.mem_append_left _ hm)
  have hnl : '\n' ∉ l ++ beginLine := fun hmem => (List.mem_append.1 hmem).elim hl not_mem_beginLine
  have happend : u ++ l ++ ownBlock v = u ++ ((l ++ beginLine) ++ '\n' :: tail v) := by
    rw [List.append_assoc, List.append_assoc]
    rfl
  rw [setup, deleteOwn_unmarked h]
  show some (sedDelete opens closes (u ++ l ++ ownBlock v)) = _
  rw [happend, sedDelete_open hu (no_range hu') hnl (opens_append_beginLine l)]

/-- On a closed text, with a block that lies in its ranges, the setup and the teardown leave the text as it was. -/
theorem teardown_setup (ht : Closed t) (h : ∀ l ∈ lines t, ¬ beginMarker <:+: l)
    (hcov : Covered opens closes true (lines (tail v))) : teardown (setup v (some t)) = some t := by
  rw [teardown_setup_closed ht h, (rest_eq_nil_iff (closed_tail v)).2 hcov, List.append_nil]

/-- Setting up again without the teardown in between gives the same file. -/
theorem setup_setup (ht : Closed t) (h : ∀ l ∈ lines t, ¬ beginMarker <:+: l)
    (hcov : Covered opens closes true (lines (tail v))) :
    setup v (setup v (some t)) = setup v (some t) := by
  have hdel : deleteOwn (setup v (some t)) = some t := teardown_setup ht h hcov
  rw [setup, hdel, setup, deleteOwn_unmarked h]

/-! ## Any number of them -/

/-- The blocks of setups that found the file as the one before them left it. -/
def blocks (vs : List Loopback) : Text := (vs.map ownBlock).flatten

theorem cycles_fixed {f : Option Text} (h : teardown (setup v f) = f) : ∀ n, cycles v n f = f
  | 0 => rfl
  | n + 1 => by rw [cycles, h, cycles_fixed h n]

/-- Behind the closed part of an open text, the first teardown leaves what no range takes of the block, and each later
one leaves it once more. -/
theorem not_survives_open {u l : Text} (hu : Closed u) (hl : '\n' ∉ l) (hne : l ≠ [])
    (h : ∀ m ∈ lines (u ++ l), ¬ beginMarker <:+: m) :
    ¬ (Survives (u ++ l) (cycles v 1 (some (u ++ l))) ∧ Survives (u ++ l) (cycles v 2 (some (u ++ l)))) := by
  rintro ⟨h1, h2⟩
  have hrest : Closed (rest opens closes (tail v)) := closed_rest (closed_tail v)
  have hlines : lines (u ++ l) = lines u ++ [l] := by rw [lines_append l hu, lines_single hl hne]
  have hone := teardown_setup_open (v := v) hu h hl
  rw [Survives, cycles, hone, cycles, Option.map_some, Option.some.injEq] at h1
  have hclosed : Closed (u ++ rest opens closes (tail v)) := hu.append hrest
  have htwo := teardown_setup_closed (v := v) hclosed (by rwa [h1])
  rw [Survives, cycles, hone, cycles, htwo, cycles, Option.map_some, Option.some.injEq,
    lines_append _ hclosed, h1] at h2
  have hleft : lines (rest opens closes (tail v)) = [] := List.append_right_eq_self.1 h2
  rw [lines_append _ hu, hleft, List.append_nil, hlines] at h1
  simp at h1

/-- The administrator's lines survive exactly when the file is empty or ends in a newline, and every line the script
writes lies in a range that its markers open and close. -/
theorem exports_survive_iff (v : Loopback) (t : Text) (ht : Unmarked t) :
    (∀ n, Survives t (cycles v n (some t))) ↔ Closed t ∧ Covered opens closes true (lines (tail v)) := by
  have hno : ∀ m ∈ lines t, ¬ beginMarker <:+: m := fun m hm hin => ht.1 (hin.trans (infix_of_mem_lines hm))
  constructor
  · intro hall
    have hclosed : Closed t := by
      by_contra hopen
      obtain ⟨u, l, rfl, hu, hl, hne⟩ := exists_last_line hopen
      exact not_survives_open hu hl hne hno ⟨hall 1, hall 2⟩
    refine ⟨hclosed, (rest_eq_nil_iff (closed_tail v)).1 ?_⟩
    have h1 := hall 1
    rw [Survives, cycles, teardown_setup_closed hclosed hno, cycles, Option.map_some, Option.some.injEq,
      lines_append _ hclosed] at h1
    have hlines : lines (rest opens closes (tail v)) = [] := List.append_right_eq_self.1 h1
    cases hr : rest opens closes (tail v) with
    | nil => rfl
    | cons c r => exact absurd (hr ▸ hlines) (lines_cons_ne_nil c r)
  · rintro ⟨hclosed, hcov⟩ n
    rw [cycles_fixed (teardown_setup hclosed hno hcov) n]
    rfl

/-- The values the script uses when the environment sets none. -/
def defaults : Loopback := .ofEnv none none none none

theorem defaults_covered : Covered opens closes true (lines (tail defaults)) :=
  covered_of_values (not_mem_lit (by decide)) (not_mem_lit (by decide)) (not_mem_lit (by decide))
    (not_mem_lit (by decide))

/-- An export of the administrator's. -/
def dataExport : Text := ['/', 'd', ' ', '*', '(', 'r', 'o', ')']

theorem exports_survive_newline :
    Survives (dataExport ++ ['\n']) (cycles defaults 3 (some (dataExport ++ ['\n']))) :=
  (exports_survive_iff defaults (dataExport ++ ['\n']) (unmarked_of_noHash (by decide))).2
    ⟨closed_append_newline _, defaults_covered⟩ 3

/-- Without the newline the line is gone after one setup and one teardown. -/
theorem exports_last_line_lost :
    Unmarked dataExport ∧ cycles defaults 1 (some dataExport) = some [] ∧
    ¬ Survives dataExport (cycles defaults 1 (some dataExport)) := by
  have hun : Unmarked dataExport := unmarked_of_noHash (by decide)
  have hnl : '\n' ∉ dataExport := by decide
  have hno : ∀ m ∈ lines ([] ++ dataExport), ¬ beginMarker <:+: m := fun m hm hin =>
    hun.1 (hin.trans (infix_of_mem_lines hm))
  have hgone : cycles defaults 1 (some dataExport) = some [] := by
    have hopen := teardown_setup_open (v := defaults) closed_nil hno hnl
    rw [(rest_eq_nil_iff (closed_tail defaults)).2 defaults_covered, List.nil_append] at hopen
    rw [cycles, cycles, hopen]
    rfl
  refine ⟨hun, hgone, fun hs => ?_⟩
  rw [hgone, Survives, Option.map_some, Option.some.injEq, lines_single hnl (by decide)] at hs
  exact List.cons_ne_nil _ _ hs.symm

end NfsPlayground.Ci
