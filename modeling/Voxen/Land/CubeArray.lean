import Mathlib.Data.Fin.Basic
import Voxen.Lib.FinSizes

/-!
# Cubic block arrays

`CubeArray<T, N>` is a three-dimensional array stored in YXZ order.  A write
through a sub-view touches exactly one axis-aligned cube of its parent array.
-/

namespace Voxen.Land

/-- `glm::uvec3`. -/
structure UVec3 where
  x : Nat
  y : Nat
  z : Nat
deriving DecidableEq, Repr

/-- `CubeArray<T, N>`, indexed as `data[y][x][z]`. -/
abbrev CubeArray (T : Type) (N : Nat) := Fin N → Fin N → Fin N → T

namespace CubeArray

variable {T : Type} {N : Nat}

/-- Whether a position lies in the cube of size `M` with lowest corner `base`. -/
def Inside (base : UVec3) (M x y z : Nat) : Prop :=
  (base.x ≤ x ∧ x < base.x + M) ∧ (base.y ≤ y ∧ y < base.y + M) ∧
    (base.z ≤ z ∧ z < base.z + M)

instance (base : UVec3) (M x y z : Nat) : Decidable (Inside base M x y z) := by
  unfold Inside
  infer_instance

def load [NeZero N] (array : CubeArray T N) (x y z : Nat) : T :=
  array (Fin.ofNat N y) (Fin.ofNat N x) (Fin.ofNat N z)

def store (array : CubeArray T N) (x y z : Nat) (value : T) : CubeArray T N :=
  fun y' x' z' => if x'.val = x ∧ y'.val = y ∧ z'.val = z then value else array y' x' z'

/-- `extractTo(base, out)` for an output cube of size `M`. -/
def extractTo [NeZero N] (array : CubeArray T N) (base : UVec3) (M : Nat) : CubeArray T M :=
  fun y x z => array.load (base.x + x) (base.y + y) (base.z + z)

/-- `view<M>(base).fillFrom(cube)`. -/
def fillFrom {M : Nat} [NeZero M] (array : CubeArray T N) (base : UVec3)
    (cube : CubeArray T M) : CubeArray T N :=
  fun y x z =>
    if Inside base M x y z then cube.load (x - base.x) (y - base.y) (z - base.z)
    else array y x z

/-- `view<M>(base).fill(value)`. -/
def fill (array : CubeArray T N) (base : UVec3) (M : Nat) (value : T) : CubeArray T N :=
  fun y x z => if Inside base M x y z then value else array y x z

@[simp]
theorem load_val [NeZero N] (array : CubeArray T N) (y x z : Fin N) :
    array.load x y z = array y x z := by
  simp [load]

end CubeArray

end Voxen.Land
