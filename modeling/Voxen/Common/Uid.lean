import Mathlib.Data.Nat.Digits.Lemmas
import Voxen.Util.Hash

/-!
# Text form of universal identifiers

An identifier is written as four groups of eight hexadecimal digits with dashes between them
and a null terminator. The constructor from text is the reader of this form; a text it does
not take is a compile error, which is `none` here.
-/

namespace Voxen

namespace UID

/-- `CHAR_REPR_LENGTH`: the null terminator is counted. -/
abbrev charReprLength : Nat := 4 * 8 + 3 + 1

/-- The code of a character literal. -/
def char (c : Char) : Byte := BitVec.ofNat 8 c.toNat

/-- `x.subspan<offset, count>()`. -/
def subspan (x : List Byte) (offset count : Nat) : List Byte := (x.drop offset).take count

theorem subspan_append_left {x : List Byte} {count : Nat} (size : x.length = count)
    (rest : List Byte) : subspan (x ++ rest) 0 count = x := by
  rw [subspan, List.drop_zero, ← size, List.take_left]

theorem subspan_append_right {x : List Byte} {skip : Nat} (size : x.length = skip)
    (rest : List Byte) (offset count : Nat) :
    subspan (x ++ rest) (skip + offset) count = subspan rest offset count := by
  rw [subspan, ← size, List.drop_append, List.drop_of_length_le (Nat.le_add_right _ _),
    Nat.add_sub_cancel_left]
  rfl

theorem subspan_subspan (x : List Byte) (first size : Nat) {offset count : Nat}
    (inside : offset + count ≤ size) :
    subspan (subspan x first size) offset count = subspan x (first + offset) count := by
  rw [subspan, subspan, List.drop_take, List.take_take, List.drop_drop,
    Nat.min_eq_left (by omega)]
  rfl

/-! ## The reader -/

/-- `decode_char(c)`; `char` is signed. -/
def decodeChar (c : Byte) : Option (BitVec 64) :=
  if (char '0').sle c ∧ c.sle (char '9') then
    some ((c - char '0').setWidth 64)
  else if (char 'a').sle c ∧ c.sle (char 'f') then
    some ((c - char 'a' + 10).setWidth 64)
  else
    none

/-- One loop of `decode_u64`, which adds the digits of `x` to `result`. -/
def decodeDigits (result : BitVec 64) : List Byte → Option (BitVec 64)
  | [] => some result
  | c :: x =>
    match decodeChar c with
    | none => none
    | some digit => decodeDigits ((result <<< 4) ||| digit) x

/-- `decode_u64(x)`. -/
def decodeU64 (x : List Byte) : Option (BitVec 64) := do
  let result ← decodeDigits 0 (subspan x 0 8)
  decodeDigits result (subspan x 9 8)

/-- `UID(in)`. -/
def ofChars (text : Vector Byte charReprLength) : Option UID :=
  if text[8] ≠ char '-' ∨ text[17] ≠ char '-' ∨ text[26] ≠ char '-' then
    none
  else do
    let v0 ← decodeU64 (subspan text.toList 0 17)
    let v1 ← decodeU64 (subspan text.toList 18 17)
    some ⟨v0, v1⟩

/-! ## The writer -/

/-- The lowercase hexadecimal digit of a value below sixteen. -/
def hexDigit (digit : Nat) : Byte :=
  if digit < 10 then char '0' + BitVec.ofNat 8 digit else char 'a' + BitVec.ofNat 8 (digit - 10)

/-- What `"%08" PRIx32` writes: the digits of the value, padded with zeros on the left to eight. -/
def hexGroup (value : BitVec 32) : List Byte :=
  ((Nat.digitsAppend 16 8 value.toNat).map hexDigit).reverse

@[simp] theorem length_hexGroup (value : BitVec 32) : (hexGroup value).length = 8 := by
  have fits : value.toNat < 16 ^ 8 := value.isLt
  rw [hexGroup, List.length_reverse, List.length_map,
    Nat.length_digitsAppend (by decide) 8 fits]

/-- What `snprintf` writes with the format of `toChars`, the terminator included. -/
def formatted (u : UID) : List Byte :=
  hexGroup ((u.v0 >>> 32).setWidth 32) ++ char '-' ::
    (hexGroup (u.v0.setWidth 32) ++ char '-' ::
      (hexGroup ((u.v1 >>> 32).setWidth 32) ++ char '-' ::
        (hexGroup (u.v1.setWidth 32) ++ [0])))

@[simp] theorem length_formatted (u : UID) : u.formatted.length = charReprLength := by
  simp [formatted]

/-- `toChars(out)`. -/
def toChars (u : UID) : Vector Byte charReprLength :=
  ⟨u.formatted.toArray, by rw [List.size_toArray, length_formatted]⟩

/-! ## Groups of digits -/

/-- The digits that the writer uses: `'0'`-`'9'` and `'a'`-`'f'`. -/
def IsHexDigit (c : Byte) : Prop :=
  (char '0' ≤ c ∧ c ≤ char '9') ∨ (char 'a' ≤ c ∧ c ≤ char 'f')

instance (c : Byte) : Decidable (IsHexDigit c) := inferInstanceAs (Decidable (_ ∨ _))

theorem isHexDigit_hexDigit : ∀ digit < 16, IsHexDigit (hexDigit digit) := by decide

theorem exists_hexDigit : ∀ c, IsHexDigit c → ∃ digit < 16, hexDigit digit = c := by
  decide +kernel

theorem decodeChar_hexDigit :
    ∀ digit < 16, decodeChar (hexDigit digit) = some (BitVec.ofNat 64 digit) := by
  decide

theorem decodeChar_isSome_iff : ∀ c, (decodeChar c).isSome ↔ IsHexDigit c := by
  decide +kernel

theorem exists_digits {x : List Byte} (hex : ∀ c ∈ x, IsHexDigit c) :
    ∃ digits : List Nat, (∀ digit ∈ digits, digit < 16) ∧ digits.map hexDigit = x := by
  induction x with
  | nil => exact ⟨[], by simp, rfl⟩
  | cons c x ih =>
    obtain ⟨digit, small, rfl⟩ := exists_hexDigit c (hex c List.mem_cons_self)
    obtain ⟨digits, smalls, rfl⟩ := ih fun c mem => hex c (List.mem_cons_of_mem _ mem)
    exact ⟨digit :: digits, List.forall_mem_cons.mpr ⟨small, smalls⟩, rfl⟩

/-- A group of eight characters is written for some value exactly when all are digits. -/
theorem exists_hexGroup_iff (x : List Byte) :
    (∃ value, hexGroup value = x) ↔ x.length = 8 ∧ ∀ c ∈ x, IsHexDigit c := by
  constructor
  · rintro ⟨value, rfl⟩
    refine ⟨length_hexGroup value, fun c mem => ?_⟩
    rw [hexGroup, List.mem_reverse, List.mem_map] at mem
    obtain ⟨digit, mem, rfl⟩ := mem
    exact isHexDigit_hexDigit digit (Nat.lt_of_mem_digitsAppend (by decide) 8 digit mem)
  · rintro ⟨eight, hex⟩
    obtain ⟨digits, small, rfl⟩ := exists_digits hex
    have bounded : digits.reverse.length = 8 ∧ ∀ digit ∈ digits.reverse, digit < 16 := by
      refine ⟨?_, fun digit mem => small digit (List.mem_reverse.mp mem)⟩
      rw [List.length_reverse, ← eight, List.length_map]
    have fits : Nat.ofDigits 16 digits.reverse < 2 ^ 32 :=
      Nat.mapsTo_ofDigits (b := 16) (by decide) 8 bounded
    refine ⟨BitVec.ofNat 32 (Nat.ofDigits 16 digits.reverse), ?_⟩
    rw [hexGroup, BitVec.toNat_ofNat, Nat.mod_eq_of_lt fits,
      (Nat.setInvOn_digitsAppend_ofDigits (by decide) 8).1 bounded, List.map_reverse,
      List.reverse_reverse]

/-! ## Reading what was written -/

theorem shift_or_digit (n : Nat) {digit : Nat} (small : digit < 16) :
    (BitVec.ofNat 64 n <<< 4) ||| BitVec.ofNat 64 digit = BitVec.ofNat 64 (digit + 16 * n) := by
  have shifted : n <<< 4 ||| digit = digit + 16 * n := by
    rw [← Nat.shiftLeft_add_eq_or_of_lt (i := 4) small n, Nat.shiftLeft_eq]
    omega
  have moved : BitVec.ofNat 64 n <<< 4 = BitVec.ofNat 64 (n <<< 4) := by
    apply BitVec.eq_of_toNat_eq
    simp [Nat.shiftLeft_eq]
  rw [← shifted, BitVec.ofNat_or, moved]

theorem decodeDigits_map {digits : List Nat} (small : ∀ digit ∈ digits, digit < 16) (n : Nat) :
    decodeDigits (BitVec.ofNat 64 n) (digits.map hexDigit) =
      some (BitVec.ofNat 64 (Nat.ofDigits 16 (digits.reverse ++ [n]))) := by
  induction digits generalizing n with
  | nil => simp [decodeDigits]
  | cons digit digits ih =>
    obtain ⟨first, others⟩ := List.forall_mem_cons.mp small
    rw [List.map_cons, decodeDigits, decodeChar_hexDigit digit first]
    dsimp only
    rw [shift_or_digit n first, ih others, List.reverse_cons, List.append_assoc,
      Nat.ofDigits_append, Nat.ofDigits_append]
    simp only [Nat.ofDigits_cons, Nat.ofDigits_nil, List.cons_append, List.nil_append]
    push_cast
    simp

theorem decodeDigits_hexGroup (high value : BitVec 32) :
    decodeDigits (high.setWidth 64) (hexGroup value) = some (high ++ value) := by
  have fits : value.toNat < 16 ^ 8 := value.isLt
  have small : ∀ digit ∈ (Nat.digitsAppend 16 8 value.toNat).reverse, digit < 16 :=
    fun digit mem =>
      Nat.lt_of_mem_digitsAppend (by decide) 8 digit (List.mem_reverse.mp mem)
  have whole : Nat.ofDigits 16 (Nat.digitsAppend 16 8 value.toNat) = value.toNat :=
    (Nat.setInvOn_digitsAppend_ofDigits (by decide) 8).2 fits
  have start : high.setWidth 64 = BitVec.ofNat 64 high.toNat := by
    apply BitVec.eq_of_toNat_eq
    simp
  rw [hexGroup, ← List.map_reverse, start, decodeDigits_map small, List.reverse_reverse,
    Nat.ofDigits_append, whole, Nat.length_digitsAppend (by decide) 8 fits,
    Nat.ofDigits_singleton]
  congr 1
  apply BitVec.eq_of_toNat_eq
  have joined := high.isLt
  rw [BitVec.toNat_append, ← Nat.shiftLeft_add_eq_or_of_lt value.isLt, Nat.shiftLeft_eq,
    BitVec.toNat_ofNat, Nat.mod_eq_of_lt (by omega)]
  omega

theorem decodeU64_hexGroups (high low : BitVec 32) :
    decodeU64 (hexGroup high ++ char '-' :: hexGroup low) = some (high ++ low) := by
  have first : subspan (hexGroup high ++ char '-' :: hexGroup low) 0 8 = hexGroup high :=
    subspan_append_left (length_hexGroup high) _
  have second : subspan (hexGroup high ++ char '-' :: hexGroup low) 9 8 = hexGroup low := by
    have skipped := subspan_append_right (length_hexGroup high) (char '-' :: hexGroup low) 1 8
    rw [skipped]
    exact List.take_of_length_le (Nat.le_of_eq (length_hexGroup low))
  have upper : decodeDigits 0 (hexGroup high) = some (high.setWidth 64) := by
    have widened : (0 : BitVec 32) ++ high = high.setWidth 64 := by
      apply BitVec.eq_of_toNat_eq
      have fits := high.isLt
      rw [BitVec.toNat_append, BitVec.toNat_setWidth, Nat.mod_eq_of_lt (by omega)]
      simp
    rw [← widened]
    exact decodeDigits_hexGroup 0 high
  rw [decodeU64, first, second, upper]
  exact decodeDigits_hexGroup high low

theorem append_halves (value : BitVec 64) :
    (value >>> 32).setWidth 32 ++ value.setWidth 32 = value := by
  have size := value.isLt
  apply BitVec.eq_of_toNat_eq
  rw [BitVec.toNat_append, ← Nat.shiftLeft_add_eq_or_of_lt (BitVec.isLt _), Nat.shiftLeft_eq,
    BitVec.toNat_setWidth, BitVec.toNat_setWidth, BitVec.toNat_ushiftRight,
    Nat.shiftRight_eq_div_pow]
  omega

/-- The two groups of one 64-bit half. -/
def hexHalf (value : BitVec 64) : List Byte :=
  hexGroup ((value >>> 32).setWidth 32) ++ char '-' :: hexGroup (value.setWidth 32)

theorem hexHalf_append (high low : BitVec 32) :
    hexHalf (high ++ low) = hexGroup high ++ char '-' :: hexGroup low := by
  have upper : ((high ++ low) >>> 32).setWidth 32 = high := by
    have size := high.isLt
    apply BitVec.eq_of_toNat_eq
    rw [BitVec.toNat_setWidth, BitVec.toNat_ushiftRight, BitVec.toNat_append,
      ← Nat.shiftLeft_add_eq_or_of_lt low.isLt, Nat.shiftLeft_eq, Nat.shiftRight_eq_div_pow]
    omega
  have lower : (high ++ low).setWidth 32 = low := BitVec.setWidth_append_eq_right
  rw [hexHalf, upper, lower]

@[simp] theorem length_hexHalf (value : BitVec 64) : (hexHalf value).length = 17 := by
  simp [hexHalf]

theorem decodeU64_hexHalf (value : BitVec 64) : decodeU64 (hexHalf value) = some value := by
  rw [hexHalf, decodeU64_hexGroups, append_halves]

theorem toList_toChars (u : UID) :
    u.toChars.toList = hexHalf u.v0 ++ char '-' :: (hexHalf u.v1 ++ [0]) := by
  simp [toChars, formatted, hexHalf]

theorem ofChars_toChars (u : UID) : ofChars u.toChars = some u := by
  have dashes : u.toChars[8] = char '-' ∧ u.toChars[17] = char '-' ∧
      u.toChars[26] = char '-' := by
    simp [← Vector.getElem_toList, toList_toChars, hexHalf]
  have first : subspan u.toChars.toList 0 17 = hexHalf u.v0 := by
    rw [toList_toChars]
    exact subspan_append_left (length_hexHalf u.v0) _
  have second : subspan u.toChars.toList 18 17 = hexHalf u.v1 := by
    have skipped := subspan_append_right (length_hexHalf u.v0)
      (char '-' :: (hexHalf u.v1 ++ [0])) 1 17
    rw [toList_toChars, skipped]
    exact subspan_append_left (length_hexHalf u.v1) _
  rw [ofChars, if_neg (by simp [dashes]), first, second,
    decodeU64_hexHalf, decodeU64_hexHalf]
  rfl

/-! ## The texts that are accepted -/

/-- Four groups of eight digits with dashes between them; the last character is anything. -/
def FourGroups (text : Vector Byte charReprLength) : Prop :=
  (∀ i < 4, ∀ c ∈ subspan text.toList (9 * i) 8, IsHexDigit c) ∧
    text[8] = char '-' ∧ text[17] = char '-' ∧ text[26] = char '-'

instance (text : Vector Byte charReprLength) : Decidable (FourGroups text) :=
  inferInstanceAs (Decidable (_ ∧ _))

theorem decodeDigits_isSome_iff (result : BitVec 64) (x : List Byte) :
    (decodeDigits result x).isSome ↔ ∀ c ∈ x, IsHexDigit c := by
  induction x generalizing result with
  | nil => simp [decodeDigits]
  | cons c x ih =>
    rw [decodeDigits, List.forall_mem_cons, ← decodeChar_isSome_iff]
    cases decodeChar c with
    | none => simp
    | some digit => simp [ih]

theorem decodeU64_isSome_iff (x : List Byte) :
    (decodeU64 x).isSome ↔
      (∀ c ∈ subspan x 0 8, IsHexDigit c) ∧ ∀ c ∈ subspan x 9 8, IsHexDigit c := by
  rw [decodeU64, ← decodeDigits_isSome_iff 0]
  cases read : decodeDigits 0 (subspan x 0 8) with
  | none => simp
  | some result => simpa using decodeDigits_isSome_iff result (subspan x 9 8)

theorem ofChars_isSome_iff (text : Vector Byte charReprLength) :
    (ofChars text).isSome ↔ FourGroups text := by
  have groups : (∀ i < 4, ∀ c ∈ subspan text.toList (9 * i) 8, IsHexDigit c) ↔
      (decodeU64 (subspan text.toList 0 17)).isSome ∧
        (decodeU64 (subspan text.toList 18 17)).isSome := by
    rw [decodeU64_isSome_iff, decodeU64_isSome_iff,
      subspan_subspan text.toList 0 17 (by decide : 0 + 8 ≤ 17),
      subspan_subspan text.toList 0 17 (by decide : 9 + 8 ≤ 17),
      subspan_subspan text.toList 18 17 (by decide : 0 + 8 ≤ 17),
      subspan_subspan text.toList 18 17 (by decide : 9 + 8 ≤ 17)]
    constructor
    · intro hex
      exact ⟨⟨hex 0 (by decide), hex 1 (by decide)⟩, hex 2 (by decide), hex 3 (by decide)⟩
    · rintro ⟨⟨hex0, hex1⟩, hex2, hex3⟩ i small
      interval_cases i
      · exact hex0
      · exact hex1
      · exact hex2
      · exact hex3
  rw [FourGroups, groups, ofChars]
  by_cases dashes : text[8] = char '-' ∧ text[17] = char '-' ∧ text[26] = char '-'
  · rw [if_neg (by simp [dashes])]
    cases decodeU64 (subspan text.toList 0 17) with
    | none => simp
    | some v0 =>
      cases decodeU64 (subspan text.toList 18 17) with
      | none => simp
      | some v1 => simp [dashes]
  · have misplaced : text[8] ≠ char '-' ∨ text[17] ≠ char '-' ∨ text[26] ≠ char '-' := by
      simpa only [not_and_or] using dashes
    rw [if_pos misplaced]
    simp only [dashes, and_false, Option.isSome_none, Bool.false_eq_true]

theorem chars_eq_groups (text : Vector Byte charReprLength) :
    text.toList =
      subspan text.toList (9 * 0) 8 ++ text[8] ::
        (subspan text.toList (9 * 1) 8 ++ text[17] ::
          (subspan text.toList (9 * 2) 8 ++ text[26] ::
            (subspan text.toList (9 * 3) 8 ++ [text[35]]))) := by
  have size : text.toList.length = 36 := Vector.length_toList
  have group : ∀ i (inside : 9 * i + 8 < text.toList.length), text.toList.drop (9 * i) =
      subspan text.toList (9 * i) 8 ++ text.toList[9 * i + 8] ::
        text.toList.drop (9 * (i + 1)) := by
    intro i inside
    rw [subspan, show 9 * (i + 1) = 9 * i + 8 + 1 by omega,
      ← List.drop_eq_getElem_cons inside, ← List.drop_drop, List.take_append_drop]
  have ending : text.toList.drop (9 * 4) = [] := List.drop_of_length_le (Nat.le_of_eq size)
  have first := group 0 (by omega)
  rw [group 1 (by omega), group 2 (by omega), group 3 (by omega), ending] at first
  simp only [Vector.getElem_toList] at first
  exact first

theorem exists_toChars_iff (text : Vector Byte charReprLength) :
    (∃ u : UID, u.toChars = text) ↔ FourGroups text ∧ text[35] = 0 := by
  constructor
  · rintro ⟨u, rfl⟩
    have accepted : (ofChars u.toChars).isSome := by
      rw [ofChars_toChars]
      rfl
    refine ⟨(ofChars_isSome_iff _).mp accepted, ?_⟩
    simp [← Vector.getElem_toList, toList_toChars]
  · rintro ⟨⟨hex, dash8, dash17, dash26⟩, terminated⟩
    have group : ∀ i < 4, ∃ value, hexGroup value = subspan text.toList (9 * i) 8 := by
      intro i small
      refine (exists_hexGroup_iff _).mpr ⟨?_, hex i small⟩
      have size : text.toList.length = 36 := Vector.length_toList
      rw [subspan, List.length_take, List.length_drop, size]
      omega
    obtain ⟨value0, group0⟩ := group 0 (by decide)
    obtain ⟨value1, group1⟩ := group 1 (by decide)
    obtain ⟨value2, group2⟩ := group 2 (by decide)
    obtain ⟨value3, group3⟩ := group 3 (by decide)
    refine ⟨⟨value0 ++ value1, value2 ++ value3⟩, ?_⟩
    have whole := chars_eq_groups text
    rw [dash8, dash17, dash26, terminated, ← group0, ← group1, ← group2, ← group3] at whole
    rw [← Vector.toList_inj, toList_toChars, hexHalf_append, hexHalf_append, whole]
    simp only [List.append_assoc, List.cons_append]

/-- Every identifier is read back from its text, and a text is taken exactly when it is one,
unless it has the four groups and no terminator after them. -/
theorem ofChars_exact_iff (u : UID) (text : Vector Byte charReprLength) :
    ofChars u.toChars = some u ∧
      (((ofChars text).isSome ↔ ∃ other : UID, other.toChars = text) ↔
        text[35] = 0 ∨ ¬FourGroups text) := by
  refine ⟨ofChars_toChars u, ?_⟩
  rw [ofChars_isSome_iff, exists_toChars_iff]
  tauto

/-- Four groups of digits that end with a letter instead of the terminator. -/
def unterminated : Vector Byte charReprLength :=
  ⟨("c1bf2846-ff1f9f34-a0abff03-e68abb9bx".toList.map char).toArray, by rfl⟩

theorem unterminated_accepted :
    ¬((∀ u : UID, ofChars u.toChars = some u) ∧
      ∀ text : Vector Byte charReprLength,
        (ofChars text).isSome ↔ ∃ u : UID, u.toChars = text) := by
  rintro ⟨-, exactly⟩
  obtain ⟨u, written⟩ := (exactly unterminated).mp (by decide +kernel)
  have terminated : unterminated[35] = 0 := by
    rw [← written]
    exact ((exists_toChars_iff u.toChars).mp ⟨u, rfl⟩).2
  exact absurd terminated (by decide)

end UID

end Voxen
