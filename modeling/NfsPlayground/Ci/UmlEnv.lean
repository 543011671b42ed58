import NfsPlayground.Lib.Shell

/-!
# What the host tells the guest

`scripts/00-run-xfstests-in-uml.sh` writes the variables of a run into `RUN_DIR/env`, each in single quotes, and the
arguments of `check` into `RUN_DIR/check-args`, each on a line. `scripts/xfstests-uml-init.sh` sources the one and reads
the other with `mapfile -t`. A single quote in a value ends its quotes, and a newline in an argument ends its line: the
guest reads what the host has written exactly when there is none (`reads_back_iff`). -/

namespace NfsPlayground.Ci

open Lines Shell

/-- The values that the host's script has taken from its environment, and its arguments. -/
structure Host where
  xfstestsDir : Text
  nfsVers : Text
  nfsMountOpts : Text
  nfsDelegations : Text
  traceEvents : Text
  traceBufferKb : Text
  excludeFile : Text
  /-- The file is there and holds a rule. -/
  excludes : Bool
  args : List Text

/-! ## The host -/

/-- `DEFAULT_CHECK_ARGS` -/
def defaultCheckArgs : List Text := ["-g".toList, "attr".toList, "-g".toList, "acl".toList, "-g".toList, "dir".toList]

def checkArgs (h : Host) : List Text :=
  let args := if h.args.length > 0 then h.args else defaultCheckArgs
  if h.excludes then "-E".toList :: h.excludeFile :: args else args

def nfsRoot (h : Host) : Text := if h.nfsVers.head? = some '3' then "/run/nfs-test-env".toList else []

def nfsOpts (h : Host) : Text :=
  "vers=".toList ++ h.nfsVers ++ if h.nfsMountOpts = [] then [] else ',' :: h.nfsMountOpts

def envVars (h : Host) : List (Text × Text) :=
  [("XFSTESTS_DIR".toList, h.xfstestsDir), ("NFS_VERS".toList, h.nfsVers), ("NFS_OPTS".toList, nfsOpts h),
    ("NFS_ROOT".toList, nfsRoot h), ("NFS_DELEGATIONS".toList, h.nfsDelegations),
    ("TRACE_EVENTS".toList, h.traceEvents), ("TRACE_BUFFER_KB".toList, h.traceBufferKb)]

/-- `RUN_DIR/env` -/
def envFile (h : Host) : Text := assignments (envVars h)

/-- `printf '%s\n'`, which prints a line also without an argument -/
def printfLines (args : List Text) : Text := if args = [] then ['\n'] else unlines args

/-- `RUN_DIR/check-args` -/
def checkArgsFile (h : Host) : Text := printfLines (checkArgs h)

/-! ## The guest -/

/-- `mapfile -t` -/
def mapfile (file : Text) : List Text := lines file

/-- The guest has the variables and the arguments of the host, and has done nothing else. -/
def ReadsBack (h : Host) : Prop := source (envFile h) = some (envVars h) ∧ mapfile (checkArgsFile h) = checkArgs h

theorem checkArgs_ne_nil (h : Host) : checkArgs h ≠ [] := by
  unfold checkArgs
  dsimp only
  split
  · exact List.cons_ne_nil _ _
  · split
    · rename_i hlen
      exact List.length_pos_iff.1 hlen
    · exact List.cons_ne_nil _ _

/-- The arguments are read back exactly when none of them holds a newline. -/
theorem mapfile_iff (h : Host) : mapfile (checkArgsFile h) = checkArgs h ↔ ∀ a ∈ checkArgs h, '\n' ∉ a := by
  rw [mapfile, checkArgsFile, printfLines, if_neg (checkArgs_ne_nil h)]
  constructor
  · intro he a ha
    rw [← he] at ha
    exact noNewline_of_mem_lines ha
  · exact lines_unlines

theorem isName_envVars (h : Host) : ∀ p ∈ envVars h, isName p.1 = true := by
  simp only [envVars, List.forall_mem_cons]
  exact ⟨by decide, by decide, by decide, by decide, by decide, by decide, by decide, by simp⟩

theorem quote_nfsRoot (h : Host) : '\'' ∉ nfsRoot h := by
  unfold nfsRoot
  split
  · decide
  · exact List.not_mem_nil

theorem quote_nfsOpts (h : Host) : '\'' ∉ nfsOpts h ↔ '\'' ∉ h.nfsVers ∧ '\'' ∉ h.nfsMountOpts := by
  unfold nfsOpts
  split
  · rename_i hnil
    simp [hnil]
  · simp

/-- The guest reads what the host has written exactly when no value holds a single quote and no argument a newline. -/
theorem reads_back_iff (h : Host) : ReadsBack h ↔
    (∀ v ∈ [h.xfstestsDir, h.nfsVers, h.nfsMountOpts, h.nfsDelegations, h.traceEvents, h.traceBufferKb], '\'' ∉ v) ∧
      ∀ a ∈ checkArgs h, '\n' ∉ a := by
  rw [ReadsBack, mapfile_iff, envFile, source_assignments_iff (isName_envVars h)]
  refine and_congr_left fun _ => ?_
  simp only [envVars, List.forall_mem_cons, quote_nfsOpts, quote_nfsRoot, not_false_eq_true, true_and]
  tauto

/-- A single quote in `TRACE_EVENTS`, which lets a command run; and a newline, which makes two arguments of one. -/
theorem reads_back_fails :
    ¬ ReadsBack ⟨"/x".toList, "4.2".toList, [], "1".toList, "';reboot;'".toList, "65536".toList, [], false, []⟩ ∧
      ¬ ReadsBack ⟨"/x".toList, "4.2".toList, [], "1".toList, [], "65536".toList, [], false, [['a', '\n', 'b']]⟩ := by
  constructor
  · rw [reads_back_iff]
    decide
  · rw [reads_back_iff]
    decide

end NfsPlayground.Ci
