import NfsPlayground.Lib.CString
import NfsPlayground.Lib.Lines

/-!
# The last output of a program

`xfs_prog_dump_log()` reads the end of a log into a buffer, ends it with a NUL and prints it line by line. No access
leaves the buffer, and the lines are those of what has been read, which is the tail of the log when nothing fails
(`xfsProgDumpLog_prints`). -/

namespace NfsPlayground.Fixture

open CString Lines

def XFS_PROG_TAIL : Nat := 4096

/-- How the calls on the log answer. -/
structure LogAnswers where
  /-- The log can be opened. -/
  opened : Bool
  /-- The buffer with what is in it, if it is allocated. -/
  buf : Option (Vector Char (XFS_PROG_TAIL + 1))
  /-- What a read returns at most, or that it fails. -/
  limit : Option Nat

/-- Nothing fails, and a read goes as far as it was asked to or the file goes. -/
def LogAnswers.Whole (a : LogAnswers) : Prop :=
  a.opened = true ∧ a.buf.isSome ∧ ∃ n, a.limit = some n ∧ XFS_PROG_TAIL ≤ n

/-- What a read of `count` bytes returns. -/
def LogAnswers.kernelRead (a : LogAnswers) (file : Text) (count pos : Nat) : Option Text :=
  a.limit.map fun n => ((file.drop pos).take count).take n

/-- The buffer after a copy to its front. -/
def copyIn (buf data : Text) : Option Text :=
  if data.length ≤ buf.length then some (data ++ buf.drop data.length) else none

def storeAt (buf : Text) (i : Nat) (c : Char) : Option Text := if i < buf.length then some (buf.set i c) else none

/-- The loop over the lines: what it prints of each. -/
def printLines (line : Ptr) : Option (List Text) :=
  match line with
  | [] => none
  | c :: rest =>
    if c = NUL then some []
    else
      match _h : strchrnul '\n' (c :: rest) with
      | some (d :: next) =>
        (precision ((c :: rest).length - (d :: next).length) (c :: rest)).bind fun text =>
          if d = NUL then some [text] else (printLines next).map (text :: ·)
      | _ => none
termination_by line.length
decreasing_by exact Nat.lt_of_succ_le (length_strchrnul _h)

def progHeader (prog : String) (ret : Int) : Text := s!"{prog} exited with {ret}; last output:\n".toList

def progLine (line : Text) : Text := "  ".toList ++ line ++ ['\n']

/-- Where the tail of a file of this size begins. -/
def tailPos (size : Nat) : Nat := if XFS_PROG_TAIL < size then size - XFS_PROG_TAIL else 0

/-- What is printed for a log, or `none` for an access outside the buffer. -/
def xfsProgDumpLog (prog : String) (ret : Int) (a : LogAnswers) (log : Text) : Option (List Text) :=
  let pos := tailPos log.length
  match a.opened, a.buf, a.kernelRead log XFS_PROG_TAIL pos with
  | true, some buf, some data =>
    (copyIn buf.toList data).bind fun buf =>
      if 0 < data.length then
        (storeAt buf data.length NUL).bind fun buf =>
          (printLines buf).map fun lines => progHeader prog ret :: lines.map progLine
      else some [progHeader prog ret]
  | _, _, _ => some [progHeader prog ret]

/-! ## The loop over the lines -/

/-- One round: the text up to the next newline or NUL, and the rest after a newline. -/
theorem printLines_cons {c d : Char} {rest next : Ptr} (hc : c ≠ NUL)
    (h : strchrnul '\n' (c :: rest) = some (d :: next)) :
    printLines (c :: rest) = (precision ((c :: rest).length - (d :: next).length) (c :: rest)).bind fun text =>
      if d = NUL then some [text] else (printLines next).map (text :: ·) := by
  rw [printLines, if_neg hc]
  split
  · rename_i h'
    rw [h] at h'
    cases h'
    rfl
  · rename_i hnone
    exact absurd h (hnone d next)

/-- The loop prints the lines of the string in the buffer, whatever follows it. -/
theorem printLines_string {t : Text} (ht : NUL ∉ t) (rest : Ptr) : printLines (t ++ NUL :: rest) = some (lines t) := by
  induction hn : t.length using Nat.strong_induction_on generalizing t with
  | _ n ih =>
    cases t with
    | nil => simp [printLines]
    | cons c t =>
      have hc : c ≠ NUL := fun h => ht (by simp [h])
      by_cases hnl : '\n' ∈ c :: t
      · obtain ⟨l, u, hlu, hl⟩ := List.eq_append_cons_of_mem hnl
        have hlnul : NUL ∉ l := fun h => ht (by simp [hlu, h])
        have hunul : NUL ∉ u := fun h => ht (by simp [hlu, h])
        have hbuf : c :: (t ++ NUL :: rest) = l ++ '\n' :: (u ++ NUL :: rest) := by
          rw [← List.cons_append, hlu, List.append_assoc, List.cons_append]
        have hchr : strchrnul '\n' (c :: (t ++ NUL :: rest)) = some ('\n' :: (u ++ NUL :: rest)) := by
          rw [hbuf]
          exact strchrnul_skip hlnul hl (Or.inr rfl) _
        have hlen : (c :: (t ++ NUL :: rest)).length - ('\n' :: (u ++ NUL :: rest)).length = l.length := by
          rw [hbuf, List.length_append]
          omega
        have hshort : u.length < n := by
          rw [← hn, hlu, List.length_append, List.length_cons]
          omega
        rw [List.cons_append, printLines_cons hc hchr, hlen, hbuf, precision_prefix hlnul, Option.bind_some,
          if_neg (by decide), ih _ hshort hunul rfl, hlu, lines_break hl]
        rfl
      · have hchr : strchrnul '\n' (c :: (t ++ NUL :: rest)) = some (NUL :: rest) :=
          strchrnul_skip (s := c :: t) ht hnl (Or.inl rfl) rest
        have hlen : (c :: (t ++ NUL :: rest)).length - (NUL :: rest).length = (c :: t).length := by
          simp only [List.length_cons, List.length_append]
          omega
        rw [List.cons_append, printLines_cons hc hchr, hlen, ← List.cons_append, precision_prefix ht, Option.bind_some,
          if_pos rfl, lines_single hnl (List.cons_ne_nil c t)]

/-! ## The tail -/

/-- The last `min(size, XFS_PROG_TAIL)` bytes. -/
def tail (log : Text) : Text := log.drop (log.length - min log.length XFS_PROG_TAIL)

/-- What has been read of the tail: nothing where a call fails. -/
def LogAnswers.got (a : LogAnswers) (log : Text) : Text :=
  if a.opened = true ∧ a.buf.isSome then (tail log).take (a.limit.getD 0) else []

theorem drop_tailPos (log : Text) : log.drop (tailPos log.length) = tail log := by
  unfold tailPos tail
  split
  · rw [Nat.min_eq_right (by omega)]
  · rw [Nat.min_eq_left (by omega), Nat.sub_self]

theorem length_tail (log : Text) : (tail log).length = min log.length XFS_PROG_TAIL := by
  rw [tail, List.length_drop]
  omega

/-- A read asks for no more than the tail. -/
theorem kernelRead_tail {a : LogAnswers} {log data : Text}
    (h : a.kernelRead log XFS_PROG_TAIL (tailPos log.length) = some data) :
    ∃ n, a.limit = some n ∧ data = (tail log).take n := by
  obtain ⟨n, hn, rfl⟩ := Option.map_eq_some_iff.1 h
  refine ⟨n, hn, ?_⟩
  rw [drop_tailPos, List.take_of_length_le (l := tail log) (by rw [length_tail]; omega)]

theorem LogAnswers.Whole.got {a : LogAnswers} (h : a.Whole) (log : Text) : a.got log = tail log := by
  obtain ⟨hopened, hbuf, n, hlimit, hn⟩ := h
  rw [LogAnswers.got, if_pos ⟨hopened, hbuf⟩, hlimit, Option.getD_some]
  exact List.take_of_length_le (by rw [length_tail]; omega)

/-- What is in the buffer after the read and the store: the string that has been read. -/
theorem buffer_string {buf data : Text} (hlen : data.length < buf.length) :
    ∃ rest, (copyIn buf data).bind (storeAt · data.length NUL) = some (data ++ NUL :: rest) := by
  refine ⟨buf.drop (data.length + 1), ?_⟩
  have hpos : 0 < (buf.drop data.length).length := by
    rw [List.length_drop]
    omega
  obtain ⟨c, rest, hrest⟩ := List.exists_cons_of_ne_nil (List.length_pos_iff.1 hpos)
  have hdrop : buf.drop (data.length + 1) = rest := by rw [← List.drop_drop, hrest]; rfl
  rw [copyIn, if_pos (Nat.le_of_lt hlen), Option.bind_some, storeAt, hrest, if_pos (by simp), hdrop]
  simp

/-- The header and then, whatever fails, the lines of what has been read. -/
theorem xfsProgDumpLog_eq (prog : String) (ret : Int) (a : LogAnswers) {log : Text} (hlog : NUL ∉ log) :
    xfsProgDumpLog prog ret a log = some (progHeader prog ret :: (lines (a.got log)).map progLine) := by
  unfold xfsProgDumpLog
  dsimp only
  split
  · rename_i buf data hopened hbuf hread
    obtain ⟨n, hlimit, hdata⟩ := kernelRead_tail hread
    have hgot : a.got log = data := by
      rw [LogAnswers.got, if_pos ⟨hopened, by simp [hbuf]⟩, hlimit, Option.getD_some, hdata]
    have hlen : data.length < buf.toList.length := by
      have htake := List.length_take_le' n (tail log)
      have htail := length_tail log
      rw [Vector.length_toList, hdata]
      omega
    rw [hgot]
    by_cases hzero : 0 < data.length
    · have hnul : NUL ∉ data := fun h => hlog (List.mem_of_mem_drop (List.mem_of_mem_take (hdata ▸ h)))
      obtain ⟨rest, hrest⟩ := buffer_string hlen
      obtain ⟨b, hb, hset⟩ := Option.bind_eq_some_iff.1 hrest
      rw [hb, Option.bind_some, if_pos hzero, hset, Option.bind_some, printLines_string hnul, Option.map_some]
    · have hnil : data = [] := List.length_eq_zero_iff.1 (by omega)
      rw [copyIn, if_pos (Nat.le_of_lt hlen), Option.bind_some, if_neg hzero, hnil]
      rfl
  · rename_i hfails
    have hgot : a.got log = [] := by
      rw [LogAnswers.got]
      split
      · rename_i hok
        obtain ⟨buf, hbuf⟩ := Option.isSome_iff_exists.1 hok.2
        cases hlimit : a.limit with
        | none => simp
        | some n => exact absurd (by rw [LogAnswers.kernelRead, hlimit]; rfl) (hfails buf _ hok.1 hbuf)
      · rfl
    rw [hgot]
    rfl

/-- A text with a newline at its end. -/
def ended (t : Text) : Text := if Closed t then t else t ++ ['\n']

/-- No access leaves the buffer, and what is printed, line by line, is what has been read: the tail of the log, when
nothing fails. -/
theorem xfsProgDumpLog_prints (prog : String) (ret : Int) (a : LogAnswers) (log : Text) (hlog : NUL ∉ log) :
    ∃ ls, xfsProgDumpLog prog ret a log = some (progHeader prog ret :: ls.map progLine) ∧ (∀ l ∈ ls, '\n' ∉ l) ∧
      unlines ls = ended (a.got log) ∧ (a.Whole → unlines ls = ended (tail log)) := by
  refine ⟨lines (a.got log), xfsProgDumpLog_eq prog ret a hlog, fun _ h => noNewline_of_mem_lines h, unlines_lines _,
    ?_⟩
  intro hwhole
  rw [hwhole.got]
  exact unlines_lines _

/-- A buffer, a log that can be opened and a read that is not cut short. -/
def answersWhole : LogAnswers := ⟨true, some (Vector.replicate _ 'x'), some XFS_PROG_TAIL⟩

theorem xfsProgDumpLog_prints_last_line :
    ∃ ls, xfsProgDumpLog "fsx" 1 answersWhole "\n\nend".toList = some (progHeader "fsx" 1 :: ls.map progLine) ∧
      (∀ l ∈ ls, '\n' ∉ l) ∧ unlines ls = ended (answersWhole.got "\n\nend".toList) ∧
      (answersWhole.Whole → unlines ls = ended (tail "\n\nend".toList)) :=
  xfsProgDumpLog_prints "fsx" 1 answersWhole "\n\nend".toList (by decide)

end NfsPlayground.Fixture
