import Mathlib.Algebra.GroupWithZero.Nat

/-!
# Sizes of finite index types

The literals of `Fin n` rest on `n` not being zero.  Each size in use has that
fact under a name of its own.
-/

namespace FinSizes

instance (priority := 2000) one : NeZero 1 := ⟨by decide⟩
instance (priority := 2000) two : NeZero 2 := ⟨by decide⟩
instance (priority := 2000) three : NeZero 3 := ⟨by decide⟩
instance (priority := 2000) four : NeZero 4 := ⟨by decide⟩
instance (priority := 2000) six : NeZero 6 := ⟨by decide⟩
instance (priority := 2000) eight : NeZero 8 := ⟨by decide⟩
instance (priority := 2000) twelve : NeZero 12 := ⟨by decide⟩
instance (priority := 2000) nineteen : NeZero 19 := ⟨by decide⟩
instance (priority := 2000) twentySeven : NeZero 27 := ⟨by decide⟩
instance (priority := 2000) thirtyTwo : NeZero 32 := ⟨by decide⟩
instance (priority := 2000) sixtyFour : NeZero 64 := ⟨by decide⟩

end FinSizes
