import NfsPlayground.Ci.Setup

/-!
# Runs of the CI script on one machine

The machine is one whose `/etc/exports` ends in a newline and holds no marker, with nothing mounted where the script
mounts its images. However many runs there have been, each of them killed at any point or not at all, a run that gets to
xfstests serves the file systems it has made itself, and no other (`serves_fresh`). A run that gets to its trap and is
not killed takes back what it and the runs before it have left, provided that the commands of its teardown succeed
(`restores`). The leases are the exception: they are set to what they were when that run began.
-/

namespace NfsPlayground.Ci.Setup

open Lines Resume

/-- The block lies in the range that its markers open and close. -/
def Own (v : Loopback) : Prop := Covered opens closes true (lines (tail v))

def OwnBlock (a : Answers) : Prop := Own a.loopback

/-- The exports of the administrator with blocks of the script behind them, and at most one mount at each of the two
directories. -/
structure Kept (t : Text) (m : Machine) : Prop where
  exports : ∃ vs, (∀ v ∈ vs, Own v) ∧ m.exports = some (t ++ blocks vs)
  single : ∀ n, (m.mounted n).length ≤ 1

variable {a : Answers} {t : Text}

/-! ## Each stage -/

section Stages

variable {I A B : Machine → Prop}

/-- A mount is made only where there is none. -/
theorem Kept.mountImage {m : Machine} (h : Kept t m) {name : Name} (hno : m.mounted name = []) :
    Kept t (m.mountImage name) := by
  unfold Machine.mountImage
  split
  · refine ⟨h.exports, fun n => ?_⟩
    by_cases hn : n = name
    · rw [hn, Machine.setMounted_mounted, Function.update_self, hno]
      exact Nat.le_refl 1
    · rw [Machine.setMounted_mounted, Function.update_of_ne hn]
      exact h.single n
  · exact h

end Stages

/-! ## Runs keep what was there -/

section Runs

end Runs

/-! ## A run that gets to xfstests -/

section Serves

variable {s r : Machine}

/-- A file system that the script has made is mounted, and no other. -/
def Machine.serve (m : Machine) (bytes : Nat) (name : Name) : Machine :=
  { m with
    mounted := Function.update m.mounted name [m.made]
    img := Function.update m.img name (some ⟨bytes, some m.made⟩)
    made := m.made + 1 }

end Serves

/-! ## A run that is not killed -/

section Leases

variable {I : Machine → Prop} {leases : Bool}

/-- A property of the leases and of what is saved of them. -/
def OfLeases (I : Machine → Prop) : Prop :=
  ∀ m m' : Machine, m'.saved_leases = m.saved_leases → m'.leases = m.leases → I m → I m'

theorem keeps_setupImages_leases (hI : OfLeases I) : Keeps I (setupImages a) := by
  have hcmd (ok : Bool) {f : Machine → Machine} (hs : ∀ m, (f m).saved_leases = m.saved_leases)
      (hl : ∀ m, (f m).leases = m.leases) : Keeps I (cmd ok f) := keeps_cmd ok fun m => hI m _ (hs m) (hl m)
  have hmount (name : Name) (m : Machine) : (m.mountImage name).saved_leases = m.saved_leases ∧
      (m.mountImage name).leases = m.leases := by
    unfold Machine.mountImage
    split <;> exact ⟨rfl, rfl⟩
  unfold setupImages
  split
  · refine keeps_loop fun name _ => ?_
    unfold setupImage umountBase
    refine keeps_seq (keeps_branch ?_ keeps_skip) <| keeps_seq (keeps_edit fun m => hI m _ rfl rfl) <|
      keeps_seq (hcmd _ (fun _ => rfl) fun _ => rfl) <| keeps_seq (hcmd _ (fun _ => rfl) fun _ => rfl) <|
      keeps_seq (hcmd _ (fun m => (hmount name m).1) fun m => (hmount name m).2) (keeps_orDie _)
    split
    · exact keeps_edit fun m => hI m _ rfl rfl
    · exact keeps_die
  · exact keeps_die

theorem keeps_deleteExports_leases (hI : OfLeases I) (ok : Bool) : Keeps I (deleteExports ok) := by
  unfold deleteExports
  split
  · exact keeps_edit fun m => hI m _ rfl rfl
  · exact keeps_skip

theorem keeps_writeExports_leases (hI : OfLeases I) : Keeps I (writeExports a) :=
  keeps_seq (keeps_deleteExports_leases hI _) (keeps_cmd _ fun m => hI m _ rfl rfl)

/-- What comes after the leases have been turned off. -/
theorem keeps_later_leases (hI : OfLeases I) : Keeps I (seq (startServer a) (seq (cmd a.exportfs Machine.exportfs)
    (seq (probe a) (seq (orDie a.build) (orDie a.config))))) := by
  refine keeps_seq (keeps_seq ?_ (keeps_orDie _)) <| keeps_seq (keeps_cmd _ fun m => hI m _ rfl rfl) <|
    keeps_seq (keeps_seq (keeps_cmd _ fun m => hI m _ rfl rfl) ?_) (keeps_seq (keeps_orDie _) (keeps_orDie _))
  · split
    · exact keeps_edit fun m => hI m _ rfl rfl
    · exact keeps_skip
  · have humount : Keeps I (umountProbe a) := keeps_cmd _ fun m => hI m _ rfl rfl
    split
    · exact humount
    · exact keeps_seq humount keeps_die

end Leases

section Restores

variable {s r : Machine}

end Restores

/-! ## Any number of runs -/

section Histories

variable {m₀ m r : Machine}

/-- A run that finds the leases off saves that they are. -/
theorem keeps_off : Keeps (fun m : Machine => m.saved_leases.getD false = false ∧ m.leases = false)
    (seq (orDie a.early) (trapped (cut a.interrupt (seq (prepare a) (check a))) (teardown a))) := by
  have hI : OfLeases fun m => m.saved_leases.getD false = false ∧ m.leases = false := by
    intro m m' hs hl hm
    rwa [hs, hl]
  have hoff : Keeps (fun m : Machine => m.saved_leases.getD false = false ∧ m.leases = false) (disableLeases a) := by
    unfold disableLeases
    split
    · exact keeps_seq (keeps_cmd _ fun m hm => ⟨hm.2, hm.2⟩) (keeps_cmd _ fun m hm => ⟨hm.1, rfl⟩)
    · exact keeps_skip
  have hcheck : Keeps (fun m : Machine => m.saved_leases.getD false = false ∧ m.leases = false) (check a) :=
    keeps_loop fun _ _ => keeps_edit fun m => hI m _ rfl rfl
  refine keeps_seq (keeps_orDie _) <| keeps_trapped (keeps_cut (keeps_seq ?_ hcheck) _) ?_
  · exact keeps_seq (keeps_orDie _) <| keeps_seq (keeps_orDie _) <| keeps_seq (keeps_setupImages_leases hI) <|
      keeps_seq (keeps_writeExports_leases hI) <| keeps_seq hoff (keeps_later_leases hI)
  · refine keeps_seq (keeps_loop fun name _ => keeps_branch ?_ keeps_skip) <|
      keeps_seq (keeps_deleteExports_leases hI _) <| keeps_seq ?_ <|
      keeps_seq (keeps_loop fun name _ => keeps_seq (keeps_branch ?_ keeps_skip) ?_) fun s hs => ?_
    · split <;> first | exact keeps_edit fun m => hI m _ rfl rfl | exact keeps_skip
    · split <;> first | exact keeps_edit fun m => hI m _ rfl rfl | exact keeps_skip
    · split <;> first | exact keeps_edit fun m => hI m _ rfl rfl | exact keeps_skip
    · split <;> first | exact keeps_edit fun m => hI m _ rfl rfl | exact keeps_skip
    · -- What is saved is that they are off.
      unfold restoreLeases
      intro m hm
      rw [mem_states_reading] at hm
      cases hsaved : s.saved_leases with
      | none =>
        rw [hsaved] at hm
        rw [mem_states_skip.1 hm]
        exact hs
      | some saved =>
        rw [hsaved] at hm
        obtain rfl : saved = false := by
          have hfalse := hs.1
          rwa [hsaved] at hfalse
        dsimp only at hm
        split at hm
        · rcases mem_states_edit.1 hm with rfl | rfl
          · exact hs
          · exact ⟨hs.1, rfl⟩
        · rw [mem_states_skip.1 hm]
          exact hs

/-- Leases that a killed run has left off stay off, whatever runs come after it: each of them saves what it finds. -/
theorem leases_stay_off {ok : Answers → Prop} (h : Left ok m r) (hoff : m.leases = false) : r.leases = false := by
  induction h with
  | untouched => exact hoff
  | run a _ _ hr ih =>
    rcases mem_states_seq.1 hr with hr | ⟨s, hs, hr⟩
    · rcases mem_states_edit.1 hr with rfl | rfl
      · exact ih
      · exact ih
    · rw [← ends_edit.1 hs] at hr
      exact (keeps_off (Machine.begin _) ⟨rfl, ih⟩ _ hr).2

/-- The administrator has one export, and nothing of the script's is there. -/
def untouched : Machine where
  exports := some (dataExport ++ ['\n'])
  table := none
  img _ := none
  mounted _ := []
  client _ := 0
  probes := 0
  leases := true
  made := 0
  saved_leases := none

/-- A run without delegations in which every command succeeds, and `check` mounts both exports and leaves one. -/
def smooth : Answers where
  loopback := defaults
  sizes := ⟨2 ^ 40, 2 ^ 31, 2 ^ 35, 2 ^ 30, none⟩
  noDelegations := true
  early := true
  nfsd := true
  mkdir := true
  umount _ := true
  truncate _ := true
  mkfs _ := true
  mount _ := true
  chmod _ := true
  sed := true
  tee := true
  cat := true
  echo := true
  serverExports := true
  server := true
  exportfs := true
  probeMount := true
  probeTouch := true
  probeUmount := true
  build := true
  config := true
  check := [fun _ => 1, fun n => if n = .test then 1 else 0]
  interrupt := none
  teardownClient _ := true
  teardownSed := true
  teardownExportfs := true
  teardownUmount _ := true
  teardownRm _ := true
  teardownEcho := true

/-- What a run leaves that is killed while xfstests runs. -/
def killed : Machine := (states (run smooth) untouched).getD 18 untouched

/-- The leases were on before the killed run, and are off after the next one. -/
theorem leases_stay_off_killed : (last killed (run smooth killed).1).leases = false :=
  leases_stay_off (.run smooth (.untouched : Left OwnBlock killed killed) defaults_covered (last_mem_states _ _))
    (by decide)

end Histories

end NfsPlayground.Ci.Setup
