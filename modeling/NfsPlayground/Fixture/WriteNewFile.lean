import Mathlib.Data.List.Basic
import Mathlib.Algebra.BigOperators.Group.List.Basic
import Mathlib.Algebra.Ring.Nat

/-!
# A whole file is written

`xfs_write_new_file()` opens a file, hands it a buffer in as many writes as it takes, and closes it. What it hands over
is always a prefix of the buffer, each byte once; but what the close answers is dropped, so that its `0` says that the
file is complete only where the close reports nothing, or where the function fails before
(`xfsWriteNewFile_reports_iff`). -/

namespace NfsPlayground.Fixture

def EIO : Int := 5

/-- An errno, as a positive number. -/
structure Errno where
  e : Nat
  pos : 1 ≤ e
  le : e ≤ 4095

/-- What a write answers; of the bytes it was asked to write it takes no more than there are. -/
inductive WriteAnswer
  | wrote (n : Nat)
  | error (e : Errno)

/-- The bytes it takes. -/
def WriteAnswer.count : WriteAnswer → Nat
  | wrote n => n
  | error _ => 0

/-- How the calls on the file answer: the open, the writes one after the other, and the close. -/
structure NewFileAnswers where
  filpOpen : Option Errno
  kernelWrite : Nat → WriteAnswer
  filpClose : Option Errno

/-- The result, and the bytes that the file has taken with the offset of each write. -/
structure NewFile where
  err : Int
  writes : List (Nat × List UInt8)

/-- The loop, from the offset `pos` on, with the bytes that are left. -/
def writeLoop (write : Nat → WriteAnswer) (pos : Nat) (data : List UInt8) : NewFile :=
  if data = [] then ⟨0, []⟩
  else
    match write 0 with
    | .error e => ⟨- e.e, []⟩
    | .wrote n =>
      let written := min n data.length
      if written = 0 then ⟨- EIO, []⟩
      else
        let rest := writeLoop (fun k => write (k + 1)) (pos + written) (data.drop written)
        ⟨rest.err, (pos, data.take written) :: rest.writes⟩
termination_by data.length
decreasing_by
  rw [List.length_drop]
  omega

def xfsWriteNewFile (a : NewFileAnswers) (data : List UInt8) : NewFile :=
  match a.filpOpen with
  | some e => ⟨- e.e, []⟩
  | none =>
    let r := writeLoop a.kernelWrite 0 data
    -- `filp_close()`, whose answer goes nowhere
    let _closed := a.filpClose
    r

/-! ## What is handed to the file -/

/-- Each write begins where the one before it ended, and takes something. -/
def InOrder : Nat → List (Nat × List UInt8) → Prop
  | _, [] => True
  | pos, w :: ws => w.1 = pos ∧ w.2 ≠ [] ∧ InOrder (pos + w.2.length) ws

/-- The bytes that the file has taken. -/
def NewFile.accepted (r : NewFile) : List UInt8 := (r.writes.map (·.2)).flatten

/-- A negative errno. -/
def IsErrno (err : Int) : Prop := -4095 ≤ err ∧ err < 0

instance (err : Int) : Decidable (IsErrno err) := inferInstanceAs (Decidable (_ ∧ _))

theorem Errno.isErrno (e : Errno) : IsErrno (- e.e) := by
  have hpos := e.pos
  have hle := e.le
  constructor <;> omega

variable (write : Nat → WriteAnswer) (pos : Nat) (data : List UInt8)

theorem writeLoop_inOrder : InOrder pos (writeLoop write pos data).writes := by
  fun_induction writeLoop write pos data with
  | case1 => trivial
  | case2 => trivial
  | case3 => trivial
  | case4 write pos data hne n _ written hwritten rest ih =>
    have hlen : (data.take written).length = written := by
      rw [List.length_take]
      omega
    refine ⟨rfl, ?_, ?_⟩
    · intro hnil
      rw [show data.take written = [] from hnil] at hlen
      exact hwritten hlen.symm
    · rwa [hlen]

theorem writeLoop_prefix : (writeLoop write pos data).accepted <+: data := by
  fun_induction writeLoop write pos data with
  | case1 => exact List.nil_prefix
  | case2 => exact List.nil_prefix
  | case3 => exact List.nil_prefix
  | case4 write pos data hne n _ written hwritten rest ih =>
    obtain ⟨left, hleft⟩ := ih
    refine ⟨left, ?_⟩
    rw [NewFile.accepted, List.map_cons, List.flatten_cons, List.append_assoc, ← NewFile.accepted, hleft,
      List.take_append_drop]

theorem writeLoop_err : (writeLoop write pos data).err = 0 ∨ IsErrno (writeLoop write pos data).err := by
  fun_induction writeLoop write pos data with
  | case1 => exact Or.inl rfl
  | case2 write pos data _ e => exact Or.inr e.isErrno
  | case3 => exact Or.inr (by decide)
  | case4 write pos data hne n _ written hwritten rest ih => exact ih

/-- An answer that takes nothing comes before the buffer has been taken. -/
def StopsEarly (write : Nat → WriteAnswer) (len : Nat) : Prop :=
  ∃ k, (write k).count = 0 ∧ ((List.range k).map fun j => (write j).count).sum < len

/-- With one answer taken off. -/
theorem stopsEarly_tail {write : Nat → WriteAnswer} {len : Nat} (hlen : 0 < len) : StopsEarly write len ↔
    (write 0).count = 0 ∨ ((write 0).count < len ∧ StopsEarly (fun k => write (k + 1)) (len - (write 0).count)) := by
  have hsum : ∀ k, ((List.range (k + 1)).map fun j => (write j).count).sum =
      (write 0).count + ((List.range k).map fun j => (write (j + 1)).count).sum := by
    intro k
    rw [List.range_succ_eq_map, List.map_cons, List.sum_cons, List.map_map]
    rfl
  constructor
  · rintro ⟨k, hzero, hlt⟩
    cases k with
    | zero => exact Or.inl hzero
    | succ k =>
      rw [hsum] at hlt
      refine Or.inr ⟨by omega, k, hzero, ?_⟩
      dsimp only
      omega
  · rintro (hzero | ⟨hlt, k, hzero, hsumlt⟩)
    · exact ⟨0, hzero, by simpa using hlen⟩
    · dsimp only at hsumlt
      exact ⟨k + 1, hzero, by rw [hsum]; omega⟩

/-- The loop ends without an error exactly when the file has taken the whole buffer. -/
theorem writeLoop_zero_iff : (writeLoop write pos data).err = 0 ↔ (writeLoop write pos data).accepted = data := by
  fun_induction writeLoop write pos data with
  | case1 => simp [NewFile.accepted, *]
  | case2 write pos data hne e _ =>
    have hpos := e.pos
    exact iff_of_false (by simp; omega) fun h => hne h.symm
  | case3 write pos data hne n _ _ _ => exact iff_of_false (by decide) fun h => hne h.symm
  | case4 write pos data hne n _ written hwritten rest ih =>
    have haccepted : NewFile.accepted ⟨rest.err, (pos, data.take written) :: rest.writes⟩ =
        data.take written ++ rest.accepted := by simp [NewFile.accepted]
    rw [haccepted]
    calc rest.err = 0 ↔ rest.accepted = data.drop written := ih
      _ ↔ data.take written ++ rest.accepted = data.take written ++ data.drop written := (List.append_right_inj _).symm
      _ ↔ data.take written ++ rest.accepted = data := by rw [List.take_append_drop]

theorem writeLoop_stops_iff : (writeLoop write pos data).err ≠ 0 ↔ StopsEarly write data.length := by
  fun_induction writeLoop write pos data with
  | case1 => simp [StopsEarly, *]
  | case2 write pos data hne e hwrite =>
    have hpos := e.pos
    refine iff_of_true (by simp; omega) ((stopsEarly_tail (List.length_pos_iff.2 hne)).2 (Or.inl ?_))
    rw [hwrite]
    rfl
  | case3 write pos data hne n hwrite written hwritten =>
    have hlen := List.length_pos_iff.2 hne
    refine iff_of_true (by decide) ((stopsEarly_tail hlen).2 (Or.inl ?_))
    rw [hwrite, WriteAnswer.count]
    omega
  | case4 write pos data hne n hwrite written hwritten rest ih =>
    have hlen := List.length_pos_iff.2 hne
    have hcount : (write 0).count = n := by rw [hwrite]; rfl
    rw [stopsEarly_tail hlen, hcount]
    by_cases hall : n < data.length
    · have hdrop : (data.drop written).length = data.length - n := by
        rw [List.length_drop]
        omega
      rw [hdrop] at ih
      have hn : n ≠ 0 := by omega
      simp only [hn, hall, true_and, false_or]
      exact ih
    · have hnil : data.drop written = [] := List.drop_eq_nil_iff.2 (by omega)
      have hzero : rest.err = 0 := by simp only [rest, hnil]; rw [writeLoop, if_pos rfl]
      exact iff_of_false (not_not.2 hzero) (by omega)

/-! ## What the result says -/

/-- The file has been opened, it has taken the whole buffer, and the close reports no error. -/
def Complete (a : NewFileAnswers) (data : List UInt8) : Prop :=
  a.filpOpen = none ∧ (xfsWriteNewFile a data).accepted = data ∧ a.filpClose = none

/-- The bytes handed over are a prefix of the buffer, in order and each once; a result of `0` says that the file is
complete, and for one that is not the result is a negative errno. -/
structure Reports (a : NewFileAnswers) (data : List UInt8) : Prop where
  inOrder : InOrder 0 (xfsWriteNewFile a data).writes
  isPrefix : (xfsWriteNewFile a data).accepted <+: data
  zero : (xfsWriteNewFile a data).err = 0 → Complete a data
  errno : ¬ Complete a data → IsErrno (xfsWriteNewFile a data).err

theorem not_isErrno_zero : ¬ IsErrno 0 := by decide

variable {a : NewFileAnswers} {data : List UInt8}

theorem xfsWriteNewFile_closed (h : a.filpOpen = none) : xfsWriteNewFile a data = writeLoop a.kernelWrite 0 data := by
  rw [xfsWriteNewFile, h]

theorem xfsWriteNewFile_refused {e : Errno} (h : a.filpOpen = some e) : xfsWriteNewFile a data = ⟨- e.e, []⟩ := by
  rw [xfsWriteNewFile, h]

/-- Whatever the answers are, what is handed over is a prefix of the buffer. -/
theorem xfsWriteNewFile_prefix (a : NewFileAnswers) (data : List UInt8) :
    InOrder 0 (xfsWriteNewFile a data).writes ∧ (xfsWriteNewFile a data).accepted <+: data := by
  cases hopen : a.filpOpen with
  | none =>
    rw [xfsWriteNewFile_closed hopen]
    exact ⟨writeLoop_inOrder _ _ _, writeLoop_prefix _ _ _⟩
  | some e =>
    rw [xfsWriteNewFile_refused hopen]
    exact ⟨trivial, List.nil_prefix⟩

/-- The result says what it should exactly when the close reports no error, or the open or a write has failed before. -/
theorem xfsWriteNewFile_reports_iff (a : NewFileAnswers) (data : List UInt8) :
    Reports a data ↔ a.filpClose = none ∨ a.filpOpen ≠ none ∨ StopsEarly a.kernelWrite data.length := by
  obtain ⟨hinOrder, hprefix⟩ := xfsWriteNewFile_prefix a data
  cases hopen : a.filpOpen with
  | some e =>
    have herr : (xfsWriteNewFile a data).err = - e.e := by rw [xfsWriteNewFile_refused hopen]
    have hne : IsErrno (xfsWriteNewFile a data).err := herr ▸ e.isErrno
    refine iff_of_true ⟨hinOrder, hprefix, fun h => ?_, fun _ => hne⟩ (Or.inr (Or.inl (by simp)))
    exact absurd (h ▸ hne) not_isErrno_zero
  | none =>
    have herr := writeLoop_err a.kernelWrite 0 data
    have hzero := writeLoop_zero_iff a.kernelWrite 0 data
    have hstops := writeLoop_stops_iff a.kernelWrite 0 data
    rw [← xfsWriteNewFile_closed hopen] at herr hzero hstops
    rw [← hstops]
    constructor
    · intro h
      by_cases hclose : a.filpClose = none
      · exact Or.inl hclose
      · refine Or.inr (Or.inr fun h0 => hclose (h.zero h0).2.2)
    · rintro (hclose | hopen' | hne)
      · refine ⟨hinOrder, hprefix, fun h0 => ⟨hopen, hzero.1 h0, hclose⟩, fun hnot => herr.resolve_left fun h0 => ?_⟩
        exact hnot ⟨hopen, hzero.1 h0, hclose⟩
      · exact absurd rfl hopen'
      · exact ⟨hinOrder, hprefix, fun h0 => absurd h0 hne, fun _ => herr.resolve_left hne⟩

/-- Every write takes a byte, and the close reports EIO. -/
def lostInClose : NewFileAnswers := ⟨none, fun _ => .wrote 1, some ⟨5, by decide, by decide⟩⟩

/-- One byte is taken by the first write and lost in the close: the result is `0`. -/
theorem xfsWriteNewFile_drops_close :
    (xfsWriteNewFile lostInClose [0x2a]).err = 0 ∧ ¬ Reports lostInClose [0x2a] := by
  have herr : (xfsWriteNewFile lostInClose [0x2a]).err = 0 := by
    simp [xfsWriteNewFile, lostInClose, writeLoop]
  exact ⟨herr, fun h => absurd (h.zero herr).2.2 (by simp [lostInClose])⟩

end NfsPlayground.Fixture
