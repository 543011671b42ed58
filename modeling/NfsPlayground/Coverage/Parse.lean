import NfsPlayground.Lib.PyText
import NfsPlayground.Lib.Dict

/-!
# Reading a tracefile

`parse_lcov()` of `scripts/kunit/coverage-diff.py`: one pass over the lines with the file of the record it is in, and a
dictionary that says for each file which line numbers were seen and which of them were hit.
-/

namespace NfsPlayground.Coverage

open Lines PyText

def sfTag : Text := ['S', 'F', ':']

def daTag : Text := ['D', 'A', ':']

def endOfRecord : Text := ['e', 'n', 'd', '_', 'o', 'f', '_', 'r', 'e', 'c', 'o', 'r', 'd']

def linuxDir : Text := ['/', 'l', 'i', 'n', 'u', 'x', '/']

def fsDir : Text := ['f', 's', '/']

/-- `file_lines`: for a line number, whether any record hit it. -/
abbrev FileLines := AList fun _ : Text => Bool

structure ParseState where
  lines : AList fun _ : Text => FileLines
  cur : Option Text

/-- The file an `SF:` line names, for a file under `fs/`. -/
def fileOf (path : Text) : Option Text :=
  let cur := (splitFirst linuxDir path).elim path Prod.snd
  if fsDir <+: cur then some cur else none

/-- A `DA:` line of the file `cur`; `none` is the `ValueError` of an unpacking or an `int()` that fails. -/
def parseDa (s : ParseState) (cur : Text) (data : Text) : Option ParseState :=
  match split ',' data with
  | no :: count :: _ =>
    let fileLines := (s.lines.lookup cur).getD ∅
    if fileLines.lookup no = some true then
      some { s with lines := s.lines.insert cur (fileLines.insert no true) }
    else (pyInt count).map fun n : Int => { s with lines := s.lines.insert cur (fileLines.insert no (0 < n)) }
  | _ => none

def parseLine (s : ParseState) (line : Text) : Option ParseState :=
  if sfTag <+: line then some { s with cur := fileOf (line.drop 3) }
  else
    match s.cur with
    | some cur =>
      if daTag <+: line then parseDa s cur (line.drop 3)
      else if line = endOfRecord then some { s with cur := none }
      else some s
    | none => if line = endOfRecord then some { s with cur := none } else some s

def parseLines : List Text → ParseState → Option ParseState
  | [], s => some s
  | line :: ls, s => (parseLine s line).bind (parseLines ls)

/-- `{f: (sum(l.values()), len(l)) for f, l in lines.items()}` -/
def counts (d : AList fun _ : Text => FileLines) : List (Text × Nat × Nat) :=
  d.entries.map fun e => (e.1, e.2.entries.countP (·.2), e.2.entries.length)

def parseLcov (file : Text) : Option (List (Text × Nat × Nat)) :=
  (parseLines (lines (universal file)) ⟨∅, none⟩).map fun s => counts s.lines

end NfsPlayground.Coverage
