import NfsPlayground.Lib.Pattern
import NfsPlayground.Lib.Resume
import NfsPlayground.Wiring.Tree

/-!
# Exposing the static functions

The loop of the script over `UNSTATIC`. An entry names a source file, the return type and the name of a function; the
`static` of the function's definition is replaced and an export appended.
-/

namespace NfsPlayground.Wiring

open Lines Pattern Resume

/-- An entry `dir/obj.c:rettype:func` of `UNSTATIC`. -/
structure Unstatic where
  dir : Text
  obj : Text
  rettype : Text
  func : Text
  rettype_ok : rettype.all (fun c => isWordChar c || c == ' ' || c == '*') = true
  func_ok : func.all isWordChar = true

namespace Unstatic

variable (e : Unstatic)

def src : Path := (e.dir, e.obj ++ ".c".toList)

def makefile : Path := (e.dir, "Makefile".toList)

/-- `grep -q "EXPORT_SYMBOL_IF_KUNIT(${func})"` -/
def exportMark : Text := "EXPORT_SYMBOL_IF_KUNIT(".toList ++ e.func ++ ")".toList

def cflags : Text :=
  "CFLAGS_".toList ++ e.obj ++ ".o += -include $(srctree)/include/kunit/visibility.h".toList

/-- `^static(\s+)\Q${rettype}\E(\s*)\Q${func}\E\(`; `\s+` is a first white space and the others. -/
def definition : List Atom :=
  [.bol, .lit "static".toList, .one isSpace, .many isSpace, .lit e.rettype, .many isSpace, .lit e.func,
    .lit "(".toList]

/-- `VISIBLE_IF_KUNIT${1}${rettype}${2}${func}(` -/
def visible : List Text → Text
  | [_, _, w, ws, _, ws', _, _] =>
    "VISIBLE_IF_KUNIT".toList ++ (w ++ ws) ++ e.rettype ++ ws' ++ e.func ++ "(".toList
  | _ => []

/-- The `perl -0pi -e`, on a text without NUL: the whole file is one record. -/
def perl (x : Text) : Text := replaceAll e.definition e.visible 0 none x

/-- `grep -qE "^static .*\b${func}\("` -/
def stillStatic (x : Text) : Bool :=
  grep [.bol, .lit "static ".toList, .many fun _ => true, .bound, .lit e.func, .lit "(".toList] x

def exported (t : Tree) : Bool := grep [.lit e.exportMark] (t.text e.src)

def hasCflags (t : Tree) : Bool := grep [.lit e.cflags] (t.text e.makefile)

def addCflags (t : Tree) : Tree := t.append e.makefile ('\n' :: (e.cflags ++ ['\n']))

def addExport (t : Tree) : Tree := t.append e.src ('\n' :: (e.exportMark ++ ";".toList ++ ['\n']))

/-- The part after the guard. -/
def exposeStatic : Script Tree :=
  seq (guarded e.hasCflags e.addCflags)
    (seq (edit fun t => t.modify e.src e.perl)
      (branch (fun t => e.stillStatic (t.text e.src)) die
        (edit e.addExport)))

/-- One pass of the loop. -/
def expose : Script Tree :=
  branch (fun t => !t.isFile e.src) die
    (branch e.exported skip e.exposeStatic)

end Unstatic

end NfsPlayground.Wiring
