import Mathlib.Logic.Function.Basic
import NfsPlayground.Lib.Lines
import NfsPlayground.Lib.Resume

/-!
# Kernel trees

A tree is its directories and its files, with their texts. A file that is not there reads as the empty text, which is
what the guards of the script make of it, and appending to it creates it.
-/

namespace NfsPlayground.Wiring

open Lines

/-- A directory, and a name in it. -/
abbrev Path := Text × Text

structure Tree where
  isDir : Text → Bool
  file : Path → Option Text

namespace Tree

variable (t : Tree)

def isFile (p : Path) : Bool := (t.file p).isSome

def text (p : Path) : Text := (t.file p).getD []

def put (p : Path) (x : Text) : Tree := { t with file := Function.update t.file p (some x) }

/-- `printf … >> file` -/
def append (p : Path) (x : Text) : Tree := t.put p (t.text p ++ x)

/-- An edit of a file in place. -/
def modify (p : Path) (f : Text → Text) : Tree := t.put p (f (t.text p))

variable {t}

@[simp] theorem isDir_put (p : Path) (x d : Text) : (t.put p x).isDir d = t.isDir d := rfl

@[simp] theorem file_put_self (p : Path) (x : Text) : (t.put p x).file p = some x := by simp [put]

@[simp] theorem text_put_self (p : Path) (x : Text) : (t.put p x).text p = x := by simp [text]

theorem file_put_ne {p q : Path} (h : q ≠ p) (x : Text) : (t.put p x).file q = t.file q := by simp [put, h]

theorem text_put_ne {p q : Path} (h : q ≠ p) (x : Text) : (t.put p x).text q = t.text q := by
  rw [text, file_put_ne h, text]

theorem isFile_put (p q : Path) (x : Text) : (t.put p x).isFile q = (q == p || t.isFile q) := by
  by_cases h : q = p
  · subst h
    simp [isFile]
  · simp [isFile, file_put_ne h, h]

theorem put_put (p : Path) (x y : Text) : (t.put p x).put p y = t.put p y := by simp [put]

/-- Putting what is there changes nothing. -/
theorem put_self {p : Path} {x : Text} (h : t.file p = some x) : t.put p x = t := by
  cases t
  simp_all [put]

end Tree

open Resume

/-- The script leaves the file alone. -/
def Untouched (a : Script Tree) (p : Path) : Prop := ∀ y, Keeps (fun t => t.file p = y) a

theorem Untouched.file {a : Script Tree} {p : Path} (h : Untouched a p) {t m : Tree} (hm : m ∈ states a t) :
    m.file p = t.file p := h _ t rfl m hm

theorem Untouched.text {a : Script Tree} {p : Path} (h : Untouched a p) {t m : Tree} (hm : m ∈ states a t) :
    m.text p = t.text p := by rw [Tree.text, h.file hm, Tree.text]

/-- What is said of a file is kept where it is left alone. -/
theorem Untouched.keeps {a : Script Tree} {p : Path} (h : Untouched a p) (Q : Option Text → Prop) :
    Keeps (fun t => Q (t.file p)) a := fun t ht m hm => by
  show Q (m.file p)
  rwa [h.file hm]

end NfsPlayground.Wiring
