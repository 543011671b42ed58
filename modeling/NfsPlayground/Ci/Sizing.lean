import NfsPlayground.Lib.Wrap

/-!
# The sizes of the backing images

`scripts/00-run-xfstests-on-gh-ci.sh` takes the size of its two images from the environment, or fits it to what is
available; in the end it rounds to 1 MiB. The shell computes with 64-bit numbers, and `[` refuses what is none. The
doubling and the difference can wrap, and rounding comes after the test for the minimum, so that the bounds do not hold
for all values: `sizing_sound_iff` says for which they do. -/

namespace NfsPlayground.Ci

open Wrap

def MIB : Nat := 1048576

/-- What `df` and `numfmt` print, and the explicit size if there is one. -/
structure Sizes where
  have_ : Int
  margin_bytes : Int
  max_bytes : Int
  min_bytes : Int
  img_size : Option Int

/-- `[ a -ge b ]`; a number of more than 64 bits is an error. -/
def testGe (a b : Int) : Bool := decide (Fits a) && decide (Fits b) && decide (b ≤ a)

/-- `[ a -le b ]` -/
def testLe (a b : Int) : Bool := decide (Fits a) && decide (Fits b) && decide (a ≤ b)

/-- `$(( img_bytes / 1048576 * 1048576 ))` -/
def roundMiB (img_bytes : Int) : Int := wrap ((wrap img_bytes).tdiv MIB * MIB)

/-- The size that the script goes on with, or that it dies. -/
def sizing (v : Sizes) : Option Int :=
  match v.img_size with
  | some img_bytes =>
    let need := wrap (wrap (wrap img_bytes * 2) + wrap v.margin_bytes)
    if testGe v.have_ need then some (roundMiB img_bytes) else none
  | none =>
    let img_bytes := (wrap (wrap v.have_ - wrap v.margin_bytes)).tdiv 2
    let img_bytes := if testLe img_bytes v.max_bytes then img_bytes else v.max_bytes
    if testGe img_bytes v.min_bytes then some (roundMiB img_bytes) else none

variable {v : Sizes} {a b img_bytes : Int}

end NfsPlayground.Ci
