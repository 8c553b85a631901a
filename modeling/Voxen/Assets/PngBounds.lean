import Voxen.Assets.PngRoundTrip

/-!
# Reading PNG streams of any content

What `unpack` does with bytes that nobody packed.  Behind the `IHDR` chunk it takes lengths
from the stream before it compares them with what there is to read, so exactly the streams
that are long enough for what their length field says, and whose rows fit the image, are
read inside of their bytes.
-/

namespace Voxen.Assets

open FlatRows

/-! ## Chunks of a stream -/

/-- The chunk behind `IHDR`. -/
def idatBytes (bytes : List Byte) : List Byte :=
  bytes.drop (8 + 25)

/-- `packed_image_size`. -/
def packedImageSize (bytes : List Byte) : BitVec 32 :=
  bigEndianUnpack (idatBytes bytes)

/-- The contents of the chunk behind `IHDR`. -/
def packedImage (bytes : List Byte) : List Byte :=
  ((idatBytes bytes).drop 8).take (packedImageSize bytes).toNat

/-- `ihdr_chunk`. -/
abbrev ihdrChunk (bytes : List Byte) : IhdrChunk := .ofBytes (bytes.drop 8)

/-- The description of the image in `IHDR`. -/
def ihdrInfo (bytes : List Byte) (channels : BitVec 8) : PngInfo where
  resolution := ⟨bigEndianUnpack (ihdrChunk bytes).width,
    bigEndianUnpack (ihdrChunk bytes).height⟩
  is16bpc := (ihdrChunk bytes).bitDepth = 16
  channels := channels

/-- The chunk behind `IHDR` is looked at, for an image of so many channels. -/
structure Accepts (z : Zlib) (bytes : List Byte) (channels : BitVec 8) : Prop where
  long : 8 + 25 ≤ bytes.length
  magic : bytes.take 8 = pngHeader
  type : (ihdrChunk bytes).chunkType = [0x49, 0x48, 0x44, 0x52]
  length : bigEndianUnpack (ihdrChunk bytes).chunkLength = 13
  crc : bigEndianUnpack (ihdrChunk bytes).chunkCrc = checksumCrc32 z (ihdrChunk bytes).crcZone
  methods : (ihdrChunk bytes).compressionMethod = 0 ∧ (ihdrChunk bytes).filterMethod = 0 ∧
    (ihdrChunk bytes).interlaceMethod = 0
  depth : (ihdrChunk bytes).bitDepth = 8 ∨ (ihdrChunk bytes).bitDepth = 16
  colour : channelsOf (ihdrChunk bytes).colourType = some channels

/-- That chunk says that it is an `IDAT` chunk. -/
def IsIdat (bytes : List Byte) : Prop :=
  ((idatBytes bytes).drop 4).take 4 = pngIdatType

/-- Its checksum is right. -/
def CrcMatches (z : Zlib) (bytes : List Byte) : Prop :=
  checksumCrc32 z (((idatBytes bytes).drop 4).take (4 + packedImageSize bytes).toNat) =
    bigEndianUnpack ((idatBytes bytes).drop (8 + (packedImageSize bytes).toNat))

/-- The stream ends behind it. -/
def EndsThere (bytes : List Byte) : Prop :=
  (idatBytes bytes).drop (12 + packedImageSize bytes).toNat = iendChunk

instance (bytes : List Byte) : Decidable (IsIdat bytes) :=
  inferInstanceAs (Decidable (_ = _))

instance (z : Zlib) (bytes : List Byte) : Decidable (CrcMatches z bytes) :=
  inferInstanceAs (Decidable (_ = _))

instance (bytes : List Byte) : Decidable (EndsThere bytes) :=
  inferInstanceAs (Decidable (_ = _))

section Ways

variable {z : Zlib} {bigEndian : Bool} {bytes : List Byte} {channels : BitVec 8}

theorem unpack_rejects (rejected : ∀ channels, ¬ Accepts z bytes channels) (info : PngInfo)
    (flipY : Bool) :
    (∃ exception, (PngTools.unpack z bigEndian bytes info flipY).1 = .throws exception) ∨
      (PngTools.unpack z bigEndian bytes info flipY).1 = .returns [] := by
  unfold PngTools.unpack
  dsimp only
  by_cases short : bytes.length < 8 + 25
  · exact Or.inl ⟨_, congrArg Prod.fst (if_pos short)⟩
  rw [if_neg short]
  by_cases magic : bytes.take 8 = pngHeader
  case neg => exact Or.inl ⟨_, congrArg Prod.fst (if_pos magic)⟩
  rw [if_neg (not_not_intro magic)]
  by_cases type : (ihdrChunk bytes).chunkType = [0x49, 0x48, 0x44, 0x52]
  case neg => exact Or.inl ⟨_, congrArg Prod.fst (if_pos type)⟩
  rw [if_neg (not_not_intro type)]
  by_cases length : bigEndianUnpack (ihdrChunk bytes).chunkLength = 13
  case neg => exact Or.inl ⟨_, congrArg Prod.fst (if_pos length)⟩
  rw [if_neg (not_not_intro length)]
  by_cases crc :
    bigEndianUnpack (ihdrChunk bytes).chunkCrc = checksumCrc32 z (ihdrChunk bytes).crcZone
  case neg => exact Or.inl ⟨_, congrArg Prod.fst (if_pos crc)⟩
  rw [if_neg (not_not_intro crc)]
  by_cases methods : (ihdrChunk bytes).compressionMethod ≠ 0 ∨
    (ihdrChunk bytes).filterMethod ≠ 0 ∨ (ihdrChunk bytes).interlaceMethod ≠ 0
  · exact Or.inl ⟨_, congrArg Prod.fst (if_pos methods)⟩
  rw [if_neg methods]
  by_cases depth : (ihdrChunk bytes).bitDepth ≠ 8 ∧ (ihdrChunk bytes).bitDepth ≠ 16
  · exact Or.inl ⟨_, congrArg Prod.fst (if_pos depth)⟩
  rw [if_neg depth]
  cases colour : channelsOf (ihdrChunk bytes).colourType with
  | none => exact Or.inr rfl
  | some channels =>
    exact absurd ⟨Nat.not_lt.mp short, magic, type, length, crc, by tauto, by tauto, colour⟩
      (rejected channels)

theorem unpack_accepts (accepts : Accepts z bytes channels) (info : PngInfo) (flipY : Bool) :
    PngTools.unpack z bigEndian bytes info flipY =
      if (idatBytes bytes).length < 8 then (.undefined, ihdrInfo bytes channels)
      else if ¬ IsIdat bytes then
        (.throws ⟨.outOfResource, "TODO: unsupported PNG stream"⟩, ihdrInfo bytes channels)
      else if (idatBytes bytes).length < 4 + (4 + packedImageSize bytes).toNat ∨
          (idatBytes bytes).length < 8 + (packedImageSize bytes).toNat + 4 then
        (.undefined, ihdrInfo bytes channels)
      else if ¬ CrcMatches z bytes then
        (.throws ⟨.invalidData, "PNG IDAT CRC mismatch"⟩, ihdrInfo bytes channels)
      else if (idatBytes bytes).length < (12 + packedImageSize bytes).toNat then
        (.undefined, ihdrInfo bytes channels)
      else if ¬ EndsThere bytes then
        (.throws ⟨.outOfResource, "TODO: unsupported PNG stream"⟩, ihdrInfo bytes channels)
      else
        (zlibUnpackFixed z bigEndian (packedImage bytes) (ihdrInfo bytes channels) flipY,
          ihdrInfo bytes channels) := by
  obtain ⟨long, magic, type, length, crc, ⟨compression, filter, interlace⟩, depth, colour⟩ :=
    accepts
  unfold PngTools.unpack
  dsimp only
  rw [if_neg (Nat.not_lt.mpr long), if_neg (not_not_intro magic), if_neg (not_not_intro type),
    if_neg (not_not_intro length), if_neg (not_not_intro crc), if_neg (by tauto),
    if_neg (by tauto), colour]
  rfl

end Ways

/-! ## Rows -/

/-- The row that zlib fills in one call, if it does. -/
def fullRow (z : Zlib) (room : Nat) (stream : z.Inflate) (input : List Byte) :
    Option (List Byte) :=
  let inflated := z.inflate stream input room
  if inflated.1 = .failure ∨ inflated.2.written.length ≠ room then none
  else some inflated.2.written

/-- The row in a turn of the loop, if zlib fills it and all earlier ones have the filter type
`0`. -/
def rowAt (z : Zlib) (room : Nat) : Nat → z.Inflate → List Byte → Option (List Byte)
  | 0, stream, input => fullRow z room stream input
  | turn + 1, stream, input =>
    if (fullRow z room stream input).bind List.head? = some 0 then
      rowAt z room turn (z.inflate stream input room).2.stream
        (z.inflate stream input room).2.input
    else none

/-- A row that is read and written inside of its buffers. -/
def RowFits (rowBytes size : Nat) (y : Int) (line : List Byte) : Prop :=
  line ≠ [] ∧ (line.head? = some 0 → y.toNat * rowBytes + rowBytes ≤ size)

section Filled

variable {bigEndian is16bpc : Bool} {rowBytes : BitVec 32}

theorem exists_scanline (bigEndian : Bool) (even : is16bpc = true → rowBytes.toNat % 2 = 0)
    {row : List Byte} (length : row.length = rowBytes.toNat) :
    ∃ line, line.length = rowBytes.toNat ∧ scanline bigEndian is16bpc line = 0 :: row := by
  refine ⟨(scanline bigEndian is16bpc row).tail, ?_, ?_⟩
  · rw [List.length_tail, length_scanline even length, Nat.add_sub_cancel]
  · unfold scanline
    split
    · rename_i swapped
      have := even (Bool.and_eq_true_iff.mp swapped).2
      rw [List.tail_cons, length_pairs, Nat.mul_div_cancel_left _ (by decide)]
      congr 1
      refine (pairs_congr _ _ fun k less => ?_).trans
        (pairs_of_list 0 (row.length / 2) (by omega))
      exact ⟨(getD_pairs _ _ less).2, (getD_pairs _ _ less).1⟩
    · rfl

theorem length_writeAt {cells new : List Byte} {offset : Nat}
    (room : offset + new.length ≤ cells.length) :
    (writeAt cells offset new).length = cells.length := by
  rw [writeAt, List.length_append, List.length_append, List.length_take, List.length_drop]
  omega

variable {z : Zlib} {stream : z.Inflate} {input output : List Byte} {y : Int} {rest : List Int}

theorem unpackRows_unfilled (unfilled : fullRow z (rowBytes + 1).toNat stream input = none)
    (bigEndian is16bpc : Bool) (output : List Byte) (y : Int) (rest : List Int) :
    ∃ exception, unpackRows z bigEndian is16bpc rowBytes (y :: rest) stream input output =
      .throws exception := by
  unfold fullRow at unfilled
  rw [unpackRows]
  dsimp only at unfilled ⊢
  split at unfilled
  · rename_i either
    by_cases failed : (z.inflate stream input (rowBytes + 1).toNat).1 = .failure
    · exact ⟨_, if_pos failed⟩
    · rw [if_neg failed, if_pos (either.resolve_left failed)]
      exact ⟨_, rfl⟩
  · cases unfilled

theorem fullRow_some {line : List Byte} {room : Nat}
    (filled : fullRow z room stream input = some line) :
    (z.inflate stream input room).1 ≠ .failure ∧
      (z.inflate stream input room).2.written = line ∧ line.length = room := by
  unfold fullRow at filled
  dsimp only at filled
  split at filled
  · cases filled
  · rename_i neither
    obtain ⟨succeeds, length⟩ := not_or.mp neither
    cases filled
    exact ⟨succeeds, rfl, not_not.mp length⟩

theorem length_of_rowAt {line : List Byte} {room turn : Nat}
    (reached : rowAt z room turn stream input = some line) : line.length = room := by
  induction turn generalizing stream input with
  | zero => exact (fullRow_some reached).2.2
  | succ turn ih =>
    rw [rowAt] at reached
    split at reached
    · exact ih reached
    · cases reached

theorem unpackRows_empty (filled : fullRow z (rowBytes + 1).toNat stream input = some []) :
    unpackRows z bigEndian is16bpc rowBytes (y :: rest) stream input output = .undefined := by
  obtain ⟨succeeds, written, length⟩ := fullRow_some filled
  rw [← written] at length
  rw [unpackRows, if_neg succeeds, if_neg (not_not_intro length), written]

theorem unpackRows_filled {filter : Byte} {row : List Byte}
    (filled : fullRow z (rowBytes + 1).toNat stream input = some (filter :: row)) :
    unpackRows z bigEndian is16bpc rowBytes (y :: rest) stream input output =
      if filter ≠ 0 then .throws ⟨.outOfResource, "TODO: unsupported PNG stream"⟩
      else if row.length < rowBytes.toNat ∨
          output.length < y.toNat * rowBytes.toNat + rowBytes.toNat then .undefined
      else unpackRows z bigEndian is16bpc rowBytes rest
        (z.inflate stream input (rowBytes + 1).toNat).2.stream
        (z.inflate stream input (rowBytes + 1).toNat).2.input
        (outputRow bigEndian is16bpc rowBytes.toNat (filter :: row) output
          (y.toNat * rowBytes.toNat)) := by
  obtain ⟨succeeds, written, length⟩ := fullRow_some filled
  rw [← written] at length
  rw [unpackRows, if_neg succeeds, if_neg (not_not_intro length), written]

theorem unpackRows_row (bigEndian : Bool) (even : is16bpc = true → rowBytes.toNat % 2 = 0)
    {row : List Byte} (filled : fullRow z (rowBytes + 1).toNat stream input = some (0 :: row))
    (output : List Byte) (y : Int) (rest : List Int) :
    ∃ line, line.length = rowBytes.toNat ∧ scanline bigEndian is16bpc line = 0 :: row ∧
      (rowBytes + 1).toNat = rowBytes.toNat + 1 ∧
      unpackRows z bigEndian is16bpc rowBytes (y :: rest) stream input output =
        if output.length < y.toNat * rowBytes.toNat + rowBytes.toNat then .undefined
        else unpackRows z bigEndian is16bpc rowBytes rest
          (z.inflate stream input (rowBytes + 1).toNat).2.stream
          (z.inflate stream input (rowBytes + 1).toNat).2.input
          (writeAt output (y.toNat * rowBytes.toNat) line) := by
  have length := (fullRow_some filled).2.2
  rw [List.length_cons] at length
  have noWrap : (rowBytes + 1).toNat = rowBytes.toNat + 1 := by bv_omega
  have rowLength : row.length = rowBytes.toNat := by omega
  obtain ⟨line, lineLength, same⟩ := exists_scanline bigEndian even rowLength
  refine ⟨line, lineLength, same, noWrap, ?_⟩
  rw [unpackRows_filled filled, if_neg (not_not_intro rfl)]
  by_cases fits : output.length < y.toNat * rowBytes.toNat + rowBytes.toNat
  · rw [if_pos fits, if_pos (Or.inr fits)]
  · rw [if_neg fits, if_neg (by omega), ← same, outputRow_eq even lineLength (by omega)]

/-- The loop stays inside of its buffers exactly if all rows fit that zlib fills. -/
theorem unpackRows_inside_iff (even : is16bpc = true → rowBytes.toNat % 2 = 0) (ys : List Int) :
    unpackRows z bigEndian is16bpc rowBytes ys stream input output ≠ .undefined ↔
      ∀ turn y, ys[turn]? = some y → ∀ line,
        rowAt z (rowBytes + 1).toNat turn stream input = some line →
        RowFits rowBytes.toNat output.length y line := by
  induction ys generalizing stream input output with
  | nil => exact iff_of_true nofun nofun
  | cons y rest ih =>
    cases filled : fullRow z (rowBytes + 1).toNat stream input with
    | none =>
      obtain ⟨exception, thrown⟩ :=
        unpackRows_unfilled filled bigEndian is16bpc output y rest
      refine iff_of_true (by rw [thrown]; exact nofun) fun turn y' _ line reached => ?_
      cases turn with
      | zero => cases filled.symm.trans reached
      | succ turn =>
        rw [rowAt, filled] at reached
        cases reached
    | some line =>
      rcases line with _ | ⟨filter, row⟩
      · refine iff_of_false (fun inside => inside (unpackRows_empty filled)) fun all => ?_
        exact (all 0 y rfl [] filled).1 rfl
      · by_cases isZero : filter = 0
        · subst isZero
          obtain ⟨line, lineLength, -, -, next⟩ :=
            unpackRows_row bigEndian even filled output y rest
          have later : ∀ turn, rowAt z (rowBytes + 1).toNat (turn + 1) stream input =
              rowAt z (rowBytes + 1).toNat turn
                (z.inflate stream input (rowBytes + 1).toNat).2.stream
                (z.inflate stream input (rowBytes + 1).toNat).2.input := by
            intro turn
            rw [rowAt, filled]
            exact if_pos rfl
          rw [next]
          by_cases fits : output.length < y.toNat * rowBytes.toNat + rowBytes.toNat
          · rw [if_pos fits]
            refine iff_of_false (fun inside => inside rfl) fun all => ?_
            exact Nat.not_le.mpr fits ((all 0 y rfl _ filled).2 rfl)
          · rw [if_neg fits, ih, length_writeAt (by omega)]
            constructor
            · intro all turn y' here line' reached
              cases turn with
              | zero =>
                cases here
                cases filled.symm.trans reached
                exact ⟨List.cons_ne_nil _ _, fun _ => Nat.not_lt.mp fits⟩
              | succ turn => exact all turn y' here line' ((later turn).symm.trans reached)
            · intro all turn y' here line' reached
              exact all (turn + 1) y' here line' ((later turn).trans reached)
        · rw [unpackRows_filled filled, if_pos isZero]
          refine iff_of_true nofun fun turn y' here line' reached => ?_
          cases turn with
          | zero =>
            cases filled.symm.trans reached
            exact ⟨List.cons_ne_nil _ _, fun same => absurd (Option.some.inj same) isZero⟩
          | succ turn =>
            rw [rowAt, filled] at reached
            cases (if_neg fun same => isZero (Option.some.inj same)).symm.trans reached

theorem unpackRows_returns (even : is16bpc = true → rowBytes.toNat % 2 = 0) (ys : List Int)
    {done : List Byte × List Byte}
    (returned : unpackRows z bigEndian is16bpc rowBytes ys stream input output = .returns done) :
    ∃ lines, lines.length = ys.length ∧ (∀ line ∈ lines, line.length = rowBytes.toNat) ∧
      (done.1 = [] → z.Delivers stream input (lines.map (scanline bigEndian is16bpc))) ∧
      done.2 = (ys.zip lines).foldl (fun output row =>
        writeAt output (row.1.toNat * rowBytes.toNat) row.2) output ∧
      done.2.length = output.length := by
  induction ys generalizing stream input output with
  | nil =>
    cases returned
    exact ⟨[], rfl, nofun, id, rfl, rfl⟩
  | cons y rest ih =>
    cases filled : fullRow z (rowBytes + 1).toNat stream input with
    | none =>
      obtain ⟨exception, thrown⟩ :=
        unpackRows_unfilled filled bigEndian is16bpc output y rest
      cases thrown.symm.trans returned
    | some line =>
      rcases line with _ | ⟨filter, row⟩
      · cases (unpackRows_empty filled).symm.trans returned
      · by_cases isZero : filter = 0
        · subst isZero
          obtain ⟨line, lineLength, same, noWrap, next⟩ :=
            unpackRows_row bigEndian even filled output y rest
          rw [next] at returned
          split at returned
          · cases returned
          · rename_i fits
            obtain ⟨lines, count, sized, delivers, image, size⟩ := ih returned
            refine ⟨line :: lines, congrArg Nat.succ count, ?_, fun ended => ?_, image, ?_⟩
            · intro other mem
              rcases List.mem_cons.mp mem with rfl | mem
              · exact lineLength
              · exact sized other mem
            · obtain ⟨succeeds, written, pieceLength⟩ := fullRow_some filled
              rw [List.map_cons, same, Zlib.Delivers, pieceLength]
              exact ⟨succeeds, written, delivers ended⟩
            · rw [size, length_writeAt (by omega)]
        · rw [unpackRows_filled filled, if_pos isZero] at returned
          cases returned

end Filled

/-- The rows that zlib fills fit an image that is valid. -/
def RowsFit (z : Zlib) (packed : List Byte) (info : PngInfo) (flipY : Bool) : Prop :=
  ∀ stream, z.inflateInit = some stream → info.Valid ∧
    ∀ turn < info.rowCount, ∀ line,
      rowAt z (info.rowBytes + 1).toNat turn stream packed = some line →
      RowFits info.rowBytes.toNat info.numRawBytes.toNat
        (rowIndex info.rowCount flipY turn) line

/-- An image that is put together from the rows that zlib delivers. -/
structure Decoded (z : Zlib) (bigEndian : Bool) (packed : List Byte) (info : PngInfo)
    (flipY : Bool) (image : List Byte) : Prop where
  valid : info.Valid
  length : image.length = info.numRawBytes.toNat
  rows : ∃ stream lines, z.inflateInit = some stream ∧ lines.length = info.rowCount ∧
    (∀ line ∈ lines, line.length = info.rowBytes.toNat) ∧
    z.Delivers stream packed (lines.map (scanline bigEndian info.is16bpc)) ∧
    image = ((rowIndices info.rowCount flipY).zip lines).foldl
      (fun output row => writeAt output (row.1.toNat * info.rowBytes.toNat) row.2)
      (List.replicate info.numRawBytes.toNat 0)

section Fixed

variable {z : Zlib} {bigEndian flipY : Bool} {packed image : List Byte} {info : PngInfo}

theorem getElem?_rowIndices {height turn : Nat} {y : Int} :
    (rowIndices height flipY)[turn]? = some y ↔ turn < height ∧ rowIndex height flipY turn = y := by
  simp [rowIndices, Option.map_eq_some_iff, List.getElem?_eq_some_iff]

theorem rowsFit_of_narrow (valid : info.Valid) (narrow : info.rowSize + 1 < 2 ^ 32) :
    RowsFit z packed info flipY := by
  refine fun stream _ => ⟨valid, fun turn less line filled => ?_⟩
  obtain ⟨-, positive, tall⟩ := valid.height
  have rowBytes : info.rowBytes.toNat = info.rowSize := by
    rw [PngInfo.rowBytes_toNat, Nat.mod_eq_of_lt (by omega)]
  have size : info.numRawBytes.toNat = info.rowCount * info.rowSize := by
    rw [valid.numRawBytes_toNat, Nat.mod_eq_of_lt]
    calc info.rowCount * info.rowSize ≤ 2 ^ 31 * 2 ^ 32 :=
          Nat.mul_le_mul (Nat.le_of_lt tall) (by omega)
      _ < 2 ^ 64 := by decide
  have room : line.length = (info.rowBytes + 1).toNat := length_of_rowAt filled
  have inside : (rowIndex info.rowCount flipY turn).toNat + 1 ≤ info.rowCount := by
    cases flipY <;> simp only [rowIndex, firstY, yStep, if_true, Bool.false_eq_true, if_false] <;>
      omega
  refine ⟨fun empty => ?_, fun _ => ?_⟩
  · rw [empty, List.length_nil] at room
    bv_omega
  · rw [rowBytes, size, ← Nat.succ_mul]
    exact Nat.mul_le_mul_right _ inside

theorem zlibUnpackFixed_inside_iff :
    zlibUnpackFixed z bigEndian packed info flipY ≠ .undefined ↔ RowsFit z packed info flipY := by
  unfold zlibUnpackFixed RowsFit
  cases opened : z.inflateInit with
  | none => exact iff_of_true nofun nofun
  | some stream =>
    simp only [Option.some.injEq, forall_eq']
    by_cases valid : info.Valid
    · have rows := @unpackRows_inside_iff bigEndian info.is16bpc info.rowBytes z stream packed
        (List.replicate info.numRawBytes.toNat 0) PngInfo.rowBytes_even
        (rowIndices info.rowCount flipY)
      simp only [getElem?_rowIndices, and_imp, List.length_replicate] at rows
      rw [if_neg (not_not_intro valid), valid.height.1, and_iff_right valid,
        ← rows.trans ⟨fun all turn less => all turn _ less rfl, fun all turn y less same =>
          same ▸ all turn less⟩]
      cases unpackRows z bigEndian info.is16bpc info.rowBytes
        (rowIndices info.rowCount flipY) stream packed
        (List.replicate info.numRawBytes.toNat 0) with
      | returns done =>
        refine iff_of_true ?_ nofun
        rw [Ending.bind_returns]
        split
        all_goals exact nofun
      | throws exception => exact iff_of_true nofun nofun
      | undefined => exact iff_of_false (fun inside => inside rfl) fun inside => inside rfl
    · rw [if_pos valid]
      exact iff_of_false (fun inside => inside rfl) fun both => valid both.1

/-- Only rows of 2 ^ 32 - 1 bytes or more lead out of the buffers, whatever zlib delivers. -/
theorem zlibUnpackFixed_inside (valid : info.Valid) (narrow : info.rowSize + 1 < 2 ^ 32) :
    zlibUnpackFixed z bigEndian packed info flipY ≠ .undefined :=
  zlibUnpackFixed_inside_iff.mpr (rowsFit_of_narrow valid narrow)

theorem zlibUnpackFixed_inside_of_storing :
    zlibUnpackFixed .storing true [0, 1] ⟨⟨2, 2⟩, false, 1⟩ false ≠ .undefined :=
  zlibUnpackFixed_inside (by decide) (by decide)

theorem decoded_of_returns
    (returned : zlibUnpackFixed z bigEndian packed info flipY = .returns image) :
    Decoded z bigEndian packed info flipY image := by
  unfold zlibUnpackFixed at returned
  cases opened : z.inflateInit with
  | none =>
    rw [opened] at returned
    cases returned
  | some stream =>
    rw [opened] at returned
    dsimp only at returned
    split at returned
    · cases returned
    · rename_i valid
      have valid := not_not.mp valid
      rw [valid.height.1] at returned
      cases called : unpackRows z bigEndian info.is16bpc info.rowBytes
          (rowIndices info.rowCount flipY) stream packed
          (List.replicate info.numRawBytes.toNat 0) with
      | throws exception =>
        rw [called] at returned
        cases returned
      | undefined =>
        rw [called] at returned
        cases returned
      | returns done =>
        rw [called, Ending.bind_returns] at returned
        split at returned
        · cases returned
        · rename_i ended
          cases returned
          obtain ⟨lines, count, sized, delivers, same, length⟩ :=
            unpackRows_returns PngInfo.rowBytes_even _ called
          rw [List.length_replicate] at length
          refine ⟨valid, length, stream, lines, opened, ?_, sized, delivers (not_not.mp ended),
            same⟩
          rw [count, rowIndices, List.length_map, List.length_range, Int.toNat_natCast]

end Fixed

/-! ## Streams -/

/-- `unpack` reads and writes inside of its buffers, what it returns is decoded from the stream,
or empty where there is no such number of channels, and the sums that it takes from the length
field do not wrap around. -/
structure Bounded (z : Zlib) (bigEndian : Bool) (bytes : List Byte) (info : PngInfo)
    (flipY : Bool) : Prop where
  inside : (PngTools.unpack z bigEndian bytes info flipY).1 ≠ .undefined
  decoded : ∀ image, (PngTools.unpack z bigEndian bytes info flipY).1 = .returns image →
    image = [] ∧ (∀ channels, ¬ Accepts z bytes channels) ∨
      Decoded z bigEndian (packedImage bytes) (PngTools.unpack z bigEndian bytes info flipY).2
        flipY image
  crcZone : ∀ channels, Accepts z bytes channels → 8 ≤ (idatBytes bytes).length →
    IsIdat bytes → (4 + packedImageSize bytes).toNat = 4 + (packedImageSize bytes).toNat
  iend : ∀ channels, Accepts z bytes channels → 8 ≤ (idatBytes bytes).length →
    IsIdat bytes → CrcMatches z bytes →
    (12 + packedImageSize bytes).toNat = 12 + (packedImageSize bytes).toNat

/-- The chunk behind `IHDR` is there, as long as its length field says, and its image has rows
that fit. -/
structure Whole (z : Zlib) (bytes : List Byte) (channels : BitVec 8) (flipY : Bool) : Prop where
  fields : 8 ≤ (idatBytes bytes).length
  contents : IsIdat bytes → (packedImageSize bytes).toNat + 12 ≤ (idatBytes bytes).length ∧
    (packedImageSize bytes).toNat + 4 < 2 ^ 32
  ending : IsIdat bytes → CrcMatches z bytes → (packedImageSize bytes).toNat + 12 < 2 ^ 32
  rows : IsIdat bytes → CrcMatches z bytes → EndsThere bytes →
    RowsFit z (packedImage bytes) (ihdrInfo bytes channels) flipY

section Streams

variable {z : Zlib} {bigEndian flipY : Bool} {bytes : List Byte} {channels : BitVec 8}
  {info : PngInfo}

theorem sum_iff {offset : Nat} {size : BitVec 32} (small : offset < 2 ^ 32) :
    (BitVec.ofNat 32 offset + size).toNat = offset + size.toNat ↔ size.toNat + offset < 2 ^ 32 := by
  have bound := size.isLt
  rw [BitVec.toNat_add, BitVec.toNat_ofNat, Nat.mod_eq_of_lt small]
  omega

theorem Bounded.whole (bounded : Bounded z bigEndian bytes info flipY)
    (accepts : Accepts z bytes channels) : Whole z bytes channels flipY := by
  have inside := bounded.inside
  rw [unpack_accepts accepts] at inside
  have fields : 8 ≤ (idatBytes bytes).length := by
    by_contra short
    rw [if_pos (Nat.not_le.mp short)] at inside
    exact inside rfl
  rw [if_neg (Nat.not_lt.mpr fields)] at inside
  have zone := bounded.crcZone channels accepts fields
  have contents : IsIdat bytes →
      (packedImageSize bytes).toNat + 12 ≤ (idatBytes bytes).length := by
    intro idat
    by_contra short
    rw [if_neg (not_not_intro idat), if_pos (Or.inr (by omega))] at inside
    exact inside rfl
  have iend := bounded.iend channels accepts fields
  refine ⟨fields, fun idat => ⟨contents idat, (sum_iff (by decide)).mp (zone idat)⟩,
    fun idat crc => (sum_iff (by decide)).mp (iend idat crc), fun idat crc ends => ?_⟩
  have long := contents idat
  rw [if_neg (not_not_intro idat), zone idat, if_neg (by omega), if_neg (not_not_intro crc),
    iend idat crc, if_neg (by omega), if_neg (not_not_intro ends)] at inside
  exact zlibUnpackFixed_inside_iff.mp inside

/-- A whole stream is thrown out by one of the checks, or its image is unpacked. -/
theorem Whole.unpack (whole : Whole z bytes channels flipY) (accepts : Accepts z bytes channels) :
    (∃ exception, PngTools.unpack z bigEndian bytes info flipY =
        (.throws exception, ihdrInfo bytes channels)) ∨
      RowsFit z (packedImage bytes) (ihdrInfo bytes channels) flipY ∧
        PngTools.unpack z bigEndian bytes info flipY =
          (zlibUnpackFixed z bigEndian (packedImage bytes) (ihdrInfo bytes channels) flipY,
            ihdrInfo bytes channels) := by
  rw [unpack_accepts accepts, if_neg (Nat.not_lt.mpr whole.fields)]
  by_cases idat : IsIdat bytes
  case neg => exact Or.inl ⟨_, if_pos idat⟩
  obtain ⟨long, small⟩ := whole.contents idat
  have zone : (4 + packedImageSize bytes).toNat = 4 + (packedImageSize bytes).toNat :=
    (sum_iff (by decide)).mpr small
  rw [if_neg (not_not_intro idat), zone, if_neg (by omega)]
  by_cases crc : CrcMatches z bytes
  case neg => exact Or.inl ⟨_, if_pos crc⟩
  have iend : (12 + packedImageSize bytes).toNat = 12 + (packedImageSize bytes).toNat :=
    (sum_iff (by decide)).mpr (whole.ending idat crc)
  rw [if_neg (not_not_intro crc), iend, if_neg (by omega)]
  by_cases ends : EndsThere bytes
  case neg => exact Or.inl ⟨_, if_pos ends⟩
  exact Or.inr ⟨whole.rows idat crc ends, if_neg (not_not_intro ends)⟩

theorem Whole.bounded (whole : Whole z bytes channels flipY)
    (accepts : Accepts z bytes channels) : Bounded z bigEndian bytes info flipY := by
  have outcome := @Whole.unpack z bigEndian flipY bytes channels info whole accepts
  refine ⟨?_, fun image returned => Or.inr ?_, fun _ _ _ idat => ?_, fun _ _ _ idat crc => ?_⟩
  · rcases outcome with ⟨exception, thrown⟩ | ⟨fit, unpacked⟩
    · rw [thrown]
      exact nofun
    · rw [unpacked]
      exact zlibUnpackFixed_inside_iff.mpr fit
  · rcases outcome with ⟨exception, thrown⟩ | ⟨-, unpacked⟩
    · rw [thrown] at returned
      cases returned
    · rw [unpacked] at returned ⊢
      exact decoded_of_returns returned
  · exact (sum_iff (by decide)).mpr (whole.contents idat).2
  · exact (sum_iff (by decide)).mpr (whole.ending idat crc)

/-- Exactly the streams of which no accepted one is cut off are unpacked as they should be. -/
theorem unpack_bounded_iff (z : Zlib) (bigEndian : Bool) (bytes : List Byte) (info : PngInfo)
    (flipY : Bool) :
    Bounded z bigEndian bytes info flipY ↔
      ∀ channels, Accepts z bytes channels → Whole z bytes channels flipY := by
  refine ⟨fun bounded channels accepts => bounded.whole accepts, fun whole => ?_⟩
  by_cases accepted : ∃ channels, Accepts z bytes channels
  · obtain ⟨channels, accepts⟩ := accepted
    exact (whole channels accepts).bounded accepts
  · have rejected := not_exists.mp accepted
    have ends := @unpack_rejects z bigEndian bytes rejected info flipY
    refine ⟨?_, fun image returned => Or.inl ⟨?_, rejected⟩,
      fun channels accepts => absurd accepts (rejected channels),
      fun channels accepts => absurd accepts (rejected channels)⟩
    · rcases ends with ⟨exception, thrown⟩ | empty
      · rw [thrown]
        exact nofun
      · rw [empty]
        exact nofun
    · rcases ends with ⟨exception, thrown⟩ | empty
      · cases thrown.symm.trans returned
      · exact (Ending.returns.inj (empty.symm.trans returned)).symm

end Streams

section Truncated

/-- One step of the register of `crc32`. -/
def crcStep (crc : BitVec 64) : BitVec 64 :=
  if crc.getLsbD 0 then (crc >>> 1) ^^^ 0xEDB88320 else crc >>> 1

/-- Streams that hold the data as it is, with the checksum of zlib. -/
def checking : Zlib :=
  { Zlib.storing with
    crc32 := fun crc bytes =>
      bytes.foldl (fun crc byte => crcStep^[8] (crc ^^^ byte.setWidth 64)) (crc ^^^ 0xFFFFFFFF) ^^^
        0xFFFFFFFF }

theorem checksumCrc32_short {z : Zlib} {data : List Byte} (short : data.length < 2 ^ 32 - 1) :
    checksumCrc32 z data = (z.crc32 (z.crc32 0 []) data).setWidth 32 := by
  rw [checksumCrc32, feedCrc32, if_neg (Nat.not_le.mpr short)]

/-- A stream that is cut off behind `IHDR`, of a grey image of one pixel. -/
def truncated : List Byte :=
  pngHeader ++ [0x00, 0x00, 0x00, 0x0D, 0x49, 0x48, 0x44, 0x52, 0x00, 0x00, 0x00, 0x01, 0x00, 0x00,
    0x00, 0x01, 0x08, 0x00, 0x00, 0x00, 0x00, 0x3A, 0x7E, 0x9B, 0x55]

theorem truncated_accepts : Accepts checking truncated 1 where
  long := by decide
  magic := rfl
  type := rfl
  length := by decide
  crc := by
    rw [checksumCrc32_short (by decide)]
    decide +kernel
  methods := ⟨rfl, rfl, rfl⟩
  depth := Or.inl rfl
  colour := rfl

/-- The length field of the next chunk is read behind the end of the stream. -/
theorem not_bounded_truncated :
    truncated.length = 33 ∧
      (PngTools.unpack checking false truncated ⟨⟨1, 1⟩, false, 1⟩ false).1 = .undefined ∧
      ¬ Bounded checking false truncated ⟨⟨1, 1⟩, false, 1⟩ false := by
  have outside : (PngTools.unpack checking false truncated ⟨⟨1, 1⟩, false, 1⟩ false).1 =
      .undefined := by
    rw [unpack_accepts truncated_accepts, if_pos (by decide)]
  exact ⟨rfl, outside, fun bounded => bounded.inside outside⟩

end Truncated

end Voxen.Assets
