import Voxen.Lib.BitMixing
import Voxen.Util.Zlib

/-!
# Hashing

The hash of 64-bit values that is used where collisions are not wanted, and the universal
identifiers that are made with it.
-/

namespace Voxen

/-- `UID`. -/
structure UID where
  v0 : BitVec 64
  v1 : BitVec 64
  deriving DecidableEq

namespace Hash

/-- `Hash::xxh64Fixed(data)`. -/
def xxh64Fixed (data : BitVec 64) : BitVec 64 :=
  let prime1 : BitVec 64 := 11400714785074694791
  let prime2 : BitVec 64 := 14029467366897019727
  let prime3 : BitVec 64 := 1609587929392839161
  let prime4 : BitVec 64 := 9650029242287828579
  let init : BitVec 64 := 2870177450012600261 + 8
  let data := (data * prime2).rotateLeft 31 * prime1
  let result := (init ^^^ data).rotateLeft 27 * prime1 + prime4
  let result := result ^^^ (result >>> 33)
  let result := result * prime2
  let result := result ^^^ (result >>> 29)
  let result := result * prime3
  result ^^^ (result >>> 32)

/-- `Hash::keyToUid(pivot_uid, key)`. -/
def keyToUid (pivotUid : UID) (key : BitVec 64) : UID :=
  { pivotUid with v1 := pivotUid.v1 ^^^ xxh64Fixed (pivotUid.v0 ^^^ key) }

section Mixing

open Function BitMixing

/-- Multiplication by `PRIME1` is undone by its inverse modulo `2 ^ 64`. -/
theorem mul_prime1_injective :
    Injective fun x : BitVec 64 => x * (11400714785074694791 : BitVec 64) :=
  mul_injective (by decide : (11400714785074694791 : BitVec 64) * 614540362697595703 = 1)

theorem mul_prime2_injective :
    Injective fun x : BitVec 64 => x * (14029467366897019727 : BitVec 64) :=
  mul_injective (by decide : (14029467366897019727 : BitVec 64) * 839798700976720815 = 1)

theorem mul_prime3_injective :
    Injective fun x : BitVec 64 => x * (1609587929392839161 : BitVec 64) :=
  mul_injective (by decide : (1609587929392839161 : BitVec 64) * 16855272203555305545 = 1)

theorem xxh64Fixed_injective : Injective xxh64Fixed := by
  intro x y same
  have product := xorShift_injective (n := 32) (by decide) same
  have shifted := mul_prime3_injective product
  have product := xorShift_injective (n := 29) (by decide) shifted
  have shifted := mul_prime2_injective product
  have sum := xorShift_injective (n := 33) (by decide) shifted
  have product := add_injective _ sum
  have rotated := mul_prime1_injective product
  have mixed := rotateLeft_injective (n := 27) (by decide) rotated
  have product := xor_injective _ mixed
  have rotated := mul_prime1_injective product
  have product := rotateLeft_injective (n := 31) (by decide) rotated
  exact mul_prime2_injective product

theorem xxh64Fixed_bijective : Bijective xxh64Fixed :=
  bijective_of_injective xxh64Fixed_injective

theorem keyToUid_injective (pivotUid : UID) : Injective (keyToUid pivotUid) := by
  intro key other same
  have mixed := xor_injective _ (congrArg UID.v1 same)
  exact xor_injective _ (xxh64Fixed_injective mixed)

end Mixing

end Hash

/-- The loops of `checksumCrc32(data)`: the size argument of `crc32` is a `uInt`. -/
def feedCrc32 (z : Zlib) (crc : BitVec 64) (data : List Byte) : BitVec 64 :=
  if 2 ^ 32 - 1 ≤ data.length then
    feedCrc32 z (z.crc32 crc (data.take (2 ^ 32 - 1))) (data.drop (2 ^ 32 - 1))
  else
    z.crc32 crc data
termination_by data.length
decreasing_by
  rw [List.length_drop]
  omega

/-- `checksumCrc32(data)`. -/
def checksumCrc32 (z : Zlib) (data : List Byte) : BitVec 32 :=
  (feedCrc32 z (z.crc32 0 []) data).setWidth 32

end Voxen
