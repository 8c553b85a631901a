import Voxen.Assets.PngTools

/-!
# Rows of PNG images

What the loops over rows do: packing feeds the rows of the raw image to zlib one after the
other, whatever the direction of its row index, and unpacking puts the rows it gets in the
place that its row index says.
-/

namespace Voxen.Assets

open FlatRows

namespace PngInfo

/-- The number of rows. -/
def rowCount (info : PngInfo) : Nat :=
  info.resolution.height.toNat

/-- The number of bytes in a row of the raw image. -/
def rowSize (info : PngInfo) : Nat :=
  info.resolution.width.toNat * info.channels.toNat * (if info.is16bpc then 2 else 1)

theorem rowBytes_toNat (info : PngInfo) : info.rowBytes.toNat = info.rowSize % 2 ^ 32 := by
  have small : info.channels.toNat < 256 := info.channels.isLt
  cases deep : info.is16bpc <;>
    simp [rowBytes, rowSize, deep, BitVec.toNat_mul, Nat.mod_eq_of_lt (show
      info.channels.toNat < 4294967296 by omega)]

theorem rowBytes_even {info : PngInfo} (deep : info.is16bpc = true) :
    info.rowBytes.toNat % 2 = 0 := by
  rw [rowBytes_toNat, rowSize, deep, if_pos rfl]
  omega

section Valid

variable {info : PngInfo} (valid : info.Valid)

include valid

theorem Valid.height : info.resolution.height.toInt = info.rowCount ∧ 0 < info.rowCount ∧
    info.rowCount < 2 ^ 31 := by
  have positive := valid.1.2
  have bound := info.resolution.height.isLt
  rw [rowCount]
  rw [BitVec.toInt_eq_toNat_cond] at positive ⊢
  split at positive <;> split <;> omega

theorem Valid.width : info.resolution.width.toNat < 2 ^ 31 := by
  have positive := valid.1.1
  have bound := info.resolution.width.isLt
  rw [BitVec.toInt_eq_toNat_cond] at positive
  split at positive <;> omega

theorem Valid.numRawBytes_toNat :
    info.numRawBytes.toNat = info.rowCount * info.rowSize % 2 ^ 64 := by
  have small : info.channels.toNat < 256 := info.channels.isLt
  have wide := valid.width
  have tall := valid.height.2.2
  rw [rowCount] at tall
  have width : info.resolution.width.signExtend 64 = info.resolution.width.setWidth 64 :=
    BitVec.signExtend_eq_setWidth_of_msb_false (by
      rw [BitVec.msb_eq_false_iff_two_mul_lt]
      omega)
  have height : info.resolution.height.signExtend 64 = info.resolution.height.setWidth 64 :=
    BitVec.signExtend_eq_setWidth_of_msb_false (by
      rw [BitVec.msb_eq_false_iff_two_mul_lt]
      omega)
  have product : info.resolution.width.toNat * info.resolution.height.toNat *
      info.channels.toNat =
      info.resolution.height.toNat * (info.resolution.width.toNat * info.channels.toNat) := by
    rw [Nat.mul_comm info.resolution.width.toNat, Nat.mul_assoc]
  rw [numRawBytes, width, height, rowCount, rowSize]
  cases deep : info.is16bpc <;> simp [BitVec.toNat_mul, product, Nat.mul_assoc]

end Valid

end PngInfo

section Loops

variable (bigEndian : Bool)

/-- A row as it is packed: behind the filter type, with the bytes of 16-bit channels in big
endian order. -/
def scanline (is16bpc : Bool) (row : List Byte) : List Byte :=
  0 :: if !bigEndian && is16bpc then
      pairs (fun k => row.getD (2 * k + 1) 0) (fun k => row.getD (2 * k) 0) (row.length / 2)
    else row

variable {bigEndian} {is16bpc : Bool} {rowBytes : Nat}
  (even : is16bpc = true → rowBytes % 2 = 0)

include even

theorem length_scanline {row : List Byte} (length : row.length = rowBytes) :
    (scanline bigEndian is16bpc row).length = rowBytes + 1 := by
  rw [scanline, List.length_cons]
  split
  · rename_i swapped
    have := even (Bool.and_eq_true_iff.mp swapped).2
    rw [length_pairs]
    omega
  · rw [length]

theorem inputRow_eq {input : List Byte} (enough : rowBytes ≤ input.length) :
    inputRow bigEndian is16bpc rowBytes input =
      scanline bigEndian is16bpc (input.take rowBytes) := by
  have length : (input.take rowBytes).length = rowBytes := by
    rw [List.length_take]
    omega
  have overwritten : ∀ row : List Byte, row.length = rowBytes →
      writeAt (0 :: List.replicate rowBytes 0) 1 row = 0 :: row := by
    intro row same
    have written := writeAt_middle [0] (List.replicate rowBytes 0) [] row (by simp [same])
    simpa using written
  unfold inputRow scanline
  dsimp only
  split
  · rename_i swapped
    have := even (Bool.and_eq_true_iff.mp swapped).2
    rw [run_set_pairs _ _ (by rw [List.length_cons, List.length_replicate]; omega),
      overwritten _ (by rw [length_pairs]; omega), length,
      show (rowBytes + 1) / 2 = rowBytes / 2 by omega]
    congr 1
    apply pairs_congr
    intro k less
    rw [List.getD_eq_getElem?_getD, List.getD_eq_getElem?_getD, List.getD_eq_getElem?_getD,
      List.getD_eq_getElem?_getD, List.getElem?_take_of_lt (by omega),
      List.getElem?_take_of_lt (by omega)]
    exact ⟨rfl, rfl⟩
  · exact overwritten _ length

theorem outputRow_eq {row output : List Byte} {offset : Nat} (length : row.length = rowBytes)
    (room : offset + rowBytes ≤ output.length) :
    outputRow bigEndian is16bpc rowBytes (scanline bigEndian is16bpc row) output offset =
      writeAt output offset row := by
  unfold outputRow scanline
  split
  · rename_i swapped
    have := even (Bool.and_eq_true_iff.mp swapped).2
    rw [run_set_pairs _ _ (by omega), show (rowBytes + 1) / 2 = row.length / 2 by omega]
    congr 1
    refine (pairs_congr _ _ fun k less => ?_).trans
      (pairs_of_list 0 (row.length / 2) (by omega))
    rw [List.getD_cons_succ, List.getD_cons_succ]
    exact ⟨(getD_pairs _ _ less).2, (getD_pairs _ _ less).1⟩
  · rw [List.drop_one, List.tail_cons, List.take_of_length_le (Nat.le_of_eq length)]

theorem packRows_cons {z : Zlib} {y lastY yStep : Int} {rest : List Int} {stream : z.Deflate}
    {input : List Byte} (enough : rowBytes ≤ input.length) (flush : Flush)
    (flushed : (if y + yStep = lastY then Flush.finish else .noFlush) = flush) :
    packRows z bigEndian is16bpc rowBytes lastY yStep (y :: rest) stream input =
      (packRows z bigEndian is16bpc rowBytes lastY yStep rest
          (z.doDeflate flush stream
            (scanline bigEndian is16bpc (input.take rowBytes))).1 (input.drop rowBytes)).bind
        fun output => .returns ((z.doDeflate flush stream
          (scanline bigEndian is16bpc (input.take rowBytes))).2 ++ output) := by
  rw [packRows, if_neg (by omega), flushed, inputRow_eq even enough]

/-- The rows are fed to zlib in the order of memory, and the last one finishes the stream. -/
theorem packRows_eq {z : Zlib} {height : Nat} (flipY : Bool) (turn left : Nat)
    (sum : turn + left = height) (stream : z.Deflate) (input : List Byte)
    (enough : left * rowBytes ≤ input.length) :
    packRows z bigEndian is16bpc rowBytes (lastY height flipY) (yStep flipY)
        ((List.range' turn left).map (rowIndex height flipY)) stream input =
      .returns (z.deflateAll stream
        ((rows rowBytes left input).map (scanline bigEndian is16bpc))) := by
  induction left generalizing turn stream input with
  | zero => rfl
  | succ left ih =>
    rw [Nat.succ_mul] at enough
    have ends : rowIndex height flipY turn + yStep flipY = lastY height flipY ↔ left = 0 := by
      cases flipY <;>
        simp only [rowIndex, firstY, yStep, lastY, if_true, Bool.false_eq_true, if_false] <;>
        omega
    have after := ih (turn + 1) (by omega)
      (z.doDeflate (if left = 0 then .finish else .noFlush) stream
        (scanline bigEndian is16bpc (input.take rowBytes))).1
      (input.drop rowBytes) (by rw [List.length_drop]; omega)
    rw [List.range'_succ, List.map_cons, packRows_cons even (by omega)
      (if left = 0 then .finish else .noFlush)
      (by simp only [ends]), after, Ending.bind_returns]
    cases left with
    | zero => simp [rows, Zlib.deflateAll]
    | succ left => simp [rows, Zlib.deflateAll]

end Loops

section Unpacking

variable {bigEndian is16bpc : Bool} {rowBytes : BitVec 32}
  (even : is16bpc = true → rowBytes.toNat % 2 = 0)
  (noWrap : (rowBytes + 1).toNat = rowBytes.toNat + 1)

include even noWrap

theorem unpackRows_cons {z : Zlib} (y : Int) (rest : List Int) {stream : z.Inflate}
    {input row : List Byte} (output : List Byte) {lines : List (List Byte)}
    (length : row.length = rowBytes.toNat)
    (room : y.toNat * rowBytes.toNat + rowBytes.toNat ≤ output.length)
    (delivers : z.Delivers stream input (scanline bigEndian is16bpc row :: lines)) :
    ∃ stream' input', z.Delivers stream' input' lines ∧
      unpackRows z bigEndian is16bpc rowBytes (y :: rest) stream input output =
        unpackRows z bigEndian is16bpc rowBytes rest stream' input'
          (writeAt output (y.toNat * rowBytes.toNat) row) := by
  obtain ⟨succeeds, written, later⟩ := delivers
  have pieceLength : (scanline bigEndian is16bpc row).length = rowBytes.toNat + 1 :=
    length_scanline even length
  rw [pieceLength, ← noWrap] at succeeds written later
  refine ⟨_, _, later, ?_⟩
  have shape : scanline bigEndian is16bpc row = 0 :: (scanline bigEndian is16bpc row).tail := rfl
  have tailLength : (scanline bigEndian is16bpc row).tail.length = rowBytes.toNat := by
    rw [List.length_tail, pieceLength, Nat.add_sub_cancel]
  have whole : ¬ (z.inflate stream input (rowBytes + 1).toNat).2.written.length ≠
      (rowBytes + 1).toNat := by
    rw [written, pieceLength, noWrap]
    exact fun short => short rfl
  rw [unpackRows, if_neg succeeds, if_neg whole]
  rw [shape] at written
  rw [written]
  dsimp only
  rw [if_neg (by decide), if_neg (by omega), ← shape, outputRow_eq even length room]

/-- The rows end in the order of memory or in the opposite one, as the direction of the row
index is. -/
theorem unpackRows_eq {z : Zlib} {height : Nat} (flipY : Bool) {lines : List (List Byte)}
    (sized : ∀ line ∈ lines, line.length = rowBytes.toNat) (turn : Nat)
    (sum : turn + lines.length = height) {stream : z.Inflate} {input : List Byte}
    (delivers : z.Delivers stream input (lines.map (scanline bigEndian is16bpc)))
    (before free after : List Byte) (space : free.length = lines.length * rowBytes.toNat)
    (place : before.length = if flipY then 0 else turn * rowBytes.toNat) :
    unpackRows z bigEndian is16bpc rowBytes
        ((List.range' turn lines.length).map (rowIndex height flipY)) stream input
        (before ++ free ++ after) =
      .returns ([], before ++ (if flipY then lines.reverse else lines).flatten ++ after) := by
  induction lines generalizing turn stream input before free after with
  | nil =>
    have empty := List.eq_nil_of_length_eq_zero (space.trans (Nat.zero_mul _))
    cases delivers
    cases flipY <;> simp [unpackRows, empty]
  | cons line lines ih =>
    have length := sized line List.mem_cons_self
    have rest := fun other mem => sized other (List.mem_cons_of_mem line mem)
    rw [List.length_cons, Nat.succ_mul] at space
    rw [List.length_cons] at sum
    rw [List.length_cons, List.range'_succ, List.map_cons]
    cases flipY with
    | false =>
      have y : (rowIndex height false turn).toNat = turn := by
        simp [rowIndex, firstY, yStep]
      simp only [Bool.false_eq_true, if_false] at place ih ⊢
      obtain ⟨stream', input', later, called⟩ := unpackRows_cons even noWrap
        (rowIndex height false turn)
        ((List.range' (turn + 1) lines.length).map (rowIndex height false))
        (before ++ free ++ after) length
        (by rw [y, List.length_append, List.length_append]; omega) delivers
      have cut : free ++ after =
          free.take rowBytes.toNat ++ (free.drop rowBytes.toNat ++ after) := by
        rw [← List.append_assoc, List.take_append_drop]
      have written : writeAt (before ++ free ++ after) (turn * rowBytes.toNat) line =
          (before ++ line) ++ free.drop rowBytes.toNat ++ after := by
        have middle := writeAt_middle before (free.take rowBytes.toNat)
          (free.drop rowBytes.toNat ++ after) line
          (by rw [List.length_take]; omega)
        rw [place] at middle
        rw [List.append_assoc, cut, ← List.append_assoc, middle, List.append_assoc _ _ after]
      rw [called, y, written, ih rest (turn + 1) (by omega) later
        _ _ _ (by rw [List.length_drop]; omega)
        (by rw [List.length_append, place, length, Nat.succ_mul])]
      simp
    | true =>
      have y : (rowIndex height true turn).toNat = lines.length := by
        simp only [rowIndex, firstY, yStep, if_true]
        omega
      simp only [if_true] at place ih ⊢
      obtain ⟨stream', input', later, called⟩ := unpackRows_cons even noWrap
        (rowIndex height true turn)
        ((List.range' (turn + 1) lines.length).map (rowIndex height true))
        (before ++ free ++ after) length
        (by rw [y, List.length_append, List.length_append]; omega) delivers
      have cut : free = free.take (lines.length * rowBytes.toNat) ++
          free.drop (lines.length * rowBytes.toNat) := (List.take_append_drop _ _).symm
      have taken : (free.take (lines.length * rowBytes.toNat)).length =
          lines.length * rowBytes.toNat := by
        rw [List.length_take]
        omega
      have none : before = [] := List.eq_nil_of_length_eq_zero place
      have written : writeAt (before ++ free ++ after) (lines.length * rowBytes.toNat) line =
          before ++ free.take (lines.length * rowBytes.toNat) ++ (line ++ after) := by
        have middle := writeAt_middle (free.take (lines.length * rowBytes.toNat))
          (free.drop (lines.length * rowBytes.toNat)) after line
          (by rw [List.length_drop]; omega)
        rw [taken, ← cut] at middle
        rw [none, List.nil_append, middle]
        simp
      rw [called, y, written, ih rest (turn + 1) (by omega) later _ _ _ taken place]
      simp

end Unpacking

end Voxen.Assets
