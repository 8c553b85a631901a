import Voxen.Assets.PngRows

/-!
# PNG round trips

What is packed is unpacked again, as far as the sizes of rows and of the packed image fit
32 bits.  Packing does not turn the rows round, so unpacking in the direction that was asked
for gives back the rows in the opposite order when that direction is upwards.
-/

namespace Voxen.Assets

open FlatRows

/-- The raw bytes of an image. -/
structure Image (info : PngInfo) (bytes : List Byte) : Prop where
  valid : info.Valid
  length : bytes.length = info.rowCount * info.rowSize
  addressable : bytes.length < 2 ^ 64

/-- The rows that are fed to zlib. -/
def scanlines (bigEndian : Bool) (info : PngInfo) (bytes : List Byte) : List (List Byte) :=
  (rows info.rowBytes.toNat info.rowCount bytes).map (scanline bigEndian info.is16bpc)

/-- The image after unpacking: the rows that were packed, in one of the orders. -/
def restored (info : PngInfo) (bytes : List Byte) (flipY : Bool) : List Byte :=
  kept info.rowBytes.toNat info.rowCount bytes 0 flipY

section Layout

variable {z : Zlib} {bigEndian : Bool} {info : PngInfo} {bytes : List Byte}

theorem Image.enough (image : Image info bytes) :
    info.rowCount * info.rowBytes.toNat ≤ bytes.length := by
  rw [image.length, PngInfo.rowBytes_toNat]
  exact Nat.mul_le_mul_left _ (Nat.mod_le _ _)

theorem Image.numRawBytes (image : Image info bytes) :
    info.numRawBytes.toNat = bytes.length := by
  rw [image.valid.numRawBytes_toNat, ← image.length, Nat.mod_eq_of_lt image.addressable]

theorem zlibPack_eq (image : Image info bytes) (noWrap : info.rowBytes.toNat + 1 < 2 ^ 32)
    {stream : z.Deflate} (opened : z.deflateInit 6 = some stream) (flipY : Bool) :
    zlibPack z bigEndian bytes info flipY 6 =
      .returns (z.deflateAll stream (scanlines bigEndian info bytes)) := by
  have sum : (1 + info.rowBytes).toNat = 1 + info.rowBytes.toNat := by
    rw [BitVec.toNat_add]
    exact Nat.mod_eq_of_lt (by rw [Nat.add_comm] at noWrap; exact noWrap)
  rw [zlibPack, opened]
  dsimp only
  rw [if_neg (by omega), image.valid.height.1, rowIndices, Int.toNat_natCast,
    List.range_eq_range', packRows_eq PngInfo.rowBytes_even flipY 0 _ (Nat.zero_add _) _ _ image.enough]
  rfl

theorem zlibPack_undefined (wraps : ¬ info.rowBytes.toNat + 1 < 2 ^ 32) {stream : z.Deflate}
    (opened : z.deflateInit 6 = some stream) (flipY : Bool) :
    zlibPack z bigEndian bytes info flipY 6 = .undefined := by
  have bound := info.rowBytes.isLt
  have sum : (1 + info.rowBytes).toNat = 0 := by
    rw [BitVec.toNat_add]
    change (1 + info.rowBytes.toNat) % 2 ^ 32 = 0
    omega
  rw [zlibPack, opened]
  dsimp only
  rw [if_pos (by omega)]

theorem length_idatChunk (packed : List Byte) :
    (PngTools.idatChunk z packed).length = packed.length + 12 := by
  have typed : pngIdatType.length = 4 := rfl
  have packs : ∀ input, (bigEndianPack input).length = 4 := fun _ => rfl
  rw [PngTools.idatChunk, List.length_append, List.length_append, List.length_append, packs,
    packs, typed]
  omega

/-- What is read of a stream of one image, up to the contents of the image. -/
theorem unpack_chunks {colourType : Byte}
    (coloured : channelsOf colourType = some info.channels) {packed : List Byte}
    (info₀ : PngInfo) (flipY : Bool) {ending : Ending (List Byte)}
    (contents : (let idatBytes := PngTools.idatChunk z packed ++ iendChunk
      let packedImageSize := BitVec.ofNat 32 packed.length
      if idatBytes.length < 4 + (4 + packedImageSize).toNat ∨
          idatBytes.length < 8 + packedImageSize.toNat + 4 then .undefined
      else if checksumCrc32 z ((idatBytes.drop 4).take (4 + packedImageSize).toNat) ≠
          bigEndianUnpack (idatBytes.drop (8 + packedImageSize.toNat)) then
        .throws ⟨.invalidData, "PNG IDAT CRC mismatch"⟩
      else if idatBytes.length < (12 + packedImageSize).toNat then .undefined
      else if idatBytes.drop (12 + packedImageSize).toNat ≠ iendChunk then
        .throws ⟨.outOfResource, "TODO: unsupported PNG stream"⟩
      else zlibUnpackFixed z bigEndian ((idatBytes.drop 8).take packedImageSize.toNat) info
        flipY) = ending) :
    PngTools.unpack z bigEndian (pngHeader ++ (PngTools.ihdrChunk z info colourType).toBytes ++
        PngTools.idatChunk z packed ++ iendChunk) info₀ flipY = (ending, info) := by
  have ihdr : IhdrChunk.ofBytes ((pngHeader ++ (PngTools.ihdrChunk z info colourType).toBytes ++
      PngTools.idatChunk z packed ++ iendChunk).drop 8) = PngTools.ihdrChunk z info colourType :=
    rfl
  have idat : (pngHeader ++ (PngTools.ihdrChunk z info colourType).toBytes ++
      PngTools.idatChunk z packed ++ iendChunk).drop (8 + 25) =
        PngTools.idatChunk z packed ++ iendChunk := rfl
  have size : bigEndianUnpack (PngTools.idatChunk z packed ++ iendChunk) =
      BitVec.ofNat 32 packed.length := by
    rw [PngTools.idatChunk, List.append_assoc, List.append_assoc, bigEndianUnpack_pack]
  have width : bigEndianUnpack (PngTools.ihdrChunk z info colourType).width =
      info.resolution.width := bigEndianUnpack_pack _ []
  have height : bigEndianUnpack (PngTools.ihdrChunk z info colourType).height =
      info.resolution.height := bigEndianUnpack_pack _ []
  have depth : decide ((PngTools.ihdrChunk z info colourType).bitDepth = 16) = info.is16bpc := by
    change decide ((if info.is16bpc then 16 else 8 : Byte) = 16) = _
    cases info.is16bpc <;> rfl
  have read : ({ info₀ with
      resolution := ⟨info.resolution.width, info.resolution.height⟩
      is16bpc := info.is16bpc
      channels := info.channels } : PngInfo) = info := rfl
  unfold PngTools.unpack
  dsimp only
  rw [ihdr, idat, size, width, height, depth]
  have chunkLength :
      bigEndianUnpack (PngTools.ihdrChunk z info colourType).chunkLength = 13 := by
    change bigEndianUnpack [0, 0, 0, 0x0D] = 13
    decide
  have crc : bigEndianUnpack (PngTools.ihdrChunk z info colourType).chunkCrc =
      checksumCrc32 z (PngTools.ihdrChunk z info colourType).crcZone :=
    bigEndianUnpack_pack _ []
  have long : 8 + 25 ≤ (pngHeader ++ (PngTools.ihdrChunk z info colourType).toBytes ++
      PngTools.idatChunk z packed ++ iendChunk).length := by
    rw [List.length_append, List.length_append, List.length_append]
    exact Nat.le_add_right_of_le (Nat.le_add_right _ _)
  have idatLong : 8 ≤ (PngTools.idatChunk z packed ++ iendChunk).length := by
    rw [List.length_append, length_idatChunk, Nat.add_assoc]
    exact Nat.le_add_left_of_le (by decide)
  rw [if_neg (Nat.not_lt.mpr long), if_neg fun other => other rfl, if_neg fun other => other rfl,
    if_neg fun other => other chunkLength, if_neg fun other => other crc,
    if_neg (by rintro (other | other | other) <;> exact other rfl),
    if_neg (by
      change ¬ ((if info.is16bpc then 16 else 8 : Byte) ≠ 8 ∧
        (if info.is16bpc then 16 else 8 : Byte) ≠ 16)
      cases info.is16bpc <;> decide)]
  have colour : channelsOf (PngTools.ihdrChunk z info colourType).colourType =
      some info.channels := coloured
  rw [colour]
  dsimp only
  rw [if_neg (Nat.not_lt.mpr idatLong), if_neg fun other => other rfl]
  rw [← contents]
  dsimp only
  split_ifs <;> rfl

section Contents

variable {packed : List Byte}

theorem idat_size (packed : List Byte) (fits : packed.length < 2 ^ 32) :
    (BitVec.ofNat 32 packed.length).toNat = packed.length := by
  rw [BitVec.toNat_ofNat, Nat.mod_eq_of_lt fits]

theorem unpack_layout {colourType : Byte}
    (coloured : channelsOf colourType = some info.channels)
    (fits : packed.length + 12 < 2 ^ 32) (info₀ : PngInfo) (flipY : Bool) :
    PngTools.unpack z bigEndian (pngHeader ++ (PngTools.ihdrChunk z info colourType).toBytes ++
        PngTools.idatChunk z packed ++ iendChunk) info₀ flipY =
      (zlibUnpackFixed z bigEndian packed info flipY, info) := by
  apply unpack_chunks coloured
  have size := idat_size packed (by omega)
  have four : (4 + BitVec.ofNat 32 packed.length).toNat = 4 + packed.length := by
    rw [BitVec.toNat_add, size]
    exact Nat.mod_eq_of_lt (by change 4 + packed.length < _; omega)
  have twelve : (12 + BitVec.ofNat 32 packed.length).toNat = 12 + packed.length := by
    rw [BitVec.toNat_add, size]
    exact Nat.mod_eq_of_lt (by change 12 + packed.length < _; omega)
  have length : (PngTools.idatChunk z packed ++ iendChunk).length = packed.length + 24 := by
    rw [List.length_append, length_idatChunk]
    rfl
  have zone : ((PngTools.idatChunk z packed ++ iendChunk).drop 4).take (4 + packed.length) =
      pngIdatType ++ packed := by
    change (pngIdatType ++ packed ++ _ ++ iendChunk).take (4 + packed.length) = _
    rw [List.append_assoc (pngIdatType ++ packed), List.take_left' (by
      rw [List.length_append, Nat.add_right_cancel_iff]; rfl)]
  have crc : bigEndianUnpack ((PngTools.idatChunk z packed ++ iendChunk).drop
      (8 + packed.length)) = checksumCrc32 z (pngIdatType ++ packed) := by
    rw [PngTools.idatChunk, List.append_assoc _ _ iendChunk, List.drop_left' (by
      rw [List.length_append, List.length_append, ← Nat.add_assoc]; rfl)]
    exact bigEndianUnpack_pack _ _
  have iend : (PngTools.idatChunk z packed ++ iendChunk).drop (12 + packed.length) =
      iendChunk := List.drop_left' (by rw [length_idatChunk, Nat.add_comm])
  have contents : ((PngTools.idatChunk z packed ++ iendChunk).drop 8).take packed.length =
      packed := by
    change (packed ++ _ ++ iendChunk).take packed.length = _
    rw [List.append_assoc, List.take_left]
  dsimp only
  rw [four, twelve, size, zone, crc, iend, contents, length, if_neg (by omega),
    if_neg fun other => other rfl, if_neg (by omega), if_neg fun other => other rfl]

variable (bigEndian) in
/-- Offsets behind contents of this size wrap around, and the end of the stream is not found. -/
theorem unpack_oversized {colourType : Byte}
    (coloured : channelsOf colourType = some info.channels) (fits : packed.length < 2 ^ 32)
    (large : 2 ^ 32 ≤ packed.length + 12) (info₀ : PngInfo) (flipY : Bool) :
    ∃ exception, PngTools.unpack z bigEndian
      (pngHeader ++ (PngTools.ihdrChunk z info colourType).toBytes ++
        PngTools.idatChunk z packed ++ iendChunk) info₀ flipY = (.throws exception, info) := by
  have size := idat_size packed fits
  have twelve : (12 + BitVec.ofNat 32 packed.length).toNat < 12 := by
    rw [BitVec.toNat_add, size]
    change (12 + packed.length) % 2 ^ 32 < 12
    omega
  have four : (4 + BitVec.ofNat 32 packed.length).toNat ≤ 4 + packed.length := by
    rw [BitVec.toNat_add, size]
    exact Nat.mod_le _ _
  have length : (PngTools.idatChunk z packed ++ iendChunk).length = packed.length + 24 := by
    rw [List.length_append, length_idatChunk]
    rfl
  have unread : (PngTools.idatChunk z packed ++ iendChunk).drop
      (12 + BitVec.ofNat 32 packed.length).toNat ≠ iendChunk := by
    intro same
    have lengths := congrArg List.length same
    rw [List.length_drop, length] at lengths
    change _ = 12 at lengths
    omega
  by_cases crc : checksumCrc32 z (((PngTools.idatChunk z packed ++ iendChunk).drop 4).take
      (4 + BitVec.ofNat 32 packed.length).toNat) =
    bigEndianUnpack ((PngTools.idatChunk z packed ++ iendChunk).drop
      (8 + (BitVec.ofNat 32 packed.length).toNat))
  · refine ⟨⟨.outOfResource, "TODO: unsupported PNG stream"⟩,
      unpack_chunks coloured info₀ flipY ?_⟩
    dsimp only
    rw [if_neg (by omega), if_neg fun other => other crc, if_neg (by omega), if_pos unread]
  · refine ⟨⟨.invalidData, "PNG IDAT CRC mismatch"⟩, unpack_chunks coloured info₀ flipY ?_⟩
    dsimp only
    rw [if_neg (by omega), if_pos crc]

end Contents

end Layout

section RoundTrip

variable (z : Zlib) (bigEndian : Bool) (info : PngInfo) (bytes : List Byte) (flipY : Bool)

/-- What is packed is unpacked as it was, together with its description, and with its rows in
the opposite order when it is unpacked in the opposite direction. -/
def RoundTrips : Prop :=
  ∃ stream, PngTools.pack z bigEndian bytes info flipY = .returns stream ∧ ∀ info₀,
    PngTools.unpack z bigEndian stream info₀ flipY = (.returns bytes, info) ∧
    PngTools.unpack z bigEndian stream info₀ (!flipY) =
      (.returns (flipRows info.rowSize info.rowCount bytes), info)

/-- The offsets into rows and into the packed image do not wrap around, and turning the rows
round either is not asked for or changes nothing.  Rows of `2 ^ 32` bytes and more are cut
off, which only spares what is all zero behind the cut. -/
def Survives : Prop :=
  info.rowSize % 2 ^ 32 + 1 < 2 ^ 32 ∧
  (∀ stream, z.deflateInit 6 = some stream →
    (z.deflateAll stream (scanlines bigEndian info bytes)).length + 12 < 2 ^ 32) ∧
  if info.rowSize < 2 ^ 32 then
    flipY = false ∨ flipRows info.rowSize info.rowCount bytes = bytes
  else
    ∀ place, (if info.rowCount = 1 then info.rowSize % 2 ^ 32 else 0) ≤ place →
      bytes.getD place 0 = 0

variable {z bigEndian info bytes}

theorem zlibUnpackFixed_eq (lawful : z.Lawful) (image : Image info bytes)
    (noWrap : info.rowBytes.toNat + 1 < 2 ^ 32) {stream : z.Deflate}
    (opened : z.deflateInit 6 = some stream)
    (fits : (z.deflateAll stream (scanlines bigEndian info bytes)).length < 2 ^ 32) :
    zlibUnpackFixed z bigEndian (z.deflateAll stream (scanlines bigEndian info bytes)) info flipY =
      .returns (restored info bytes flipY) := by
  have sum : (info.rowBytes + 1).toNat = info.rowBytes.toNat + 1 := by
    rw [BitVec.toNat_add]
    exact Nat.mod_eq_of_lt noWrap
  have sized : ∀ row ∈ rows info.rowBytes.toNat info.rowCount bytes,
      row.length = info.rowBytes.toNat := fun row mem => length_of_mem_rows image.enough mem
  have some : scanlines bigEndian info bytes ≠ [] := by
    intro none
    have length := congrArg List.length none
    rw [scanlines, List.length_map, length_rows] at length
    exact absurd length (Nat.ne_of_gt image.valid.height.2.1)
  have countable : ∀ line ∈ scanlines bigEndian info bytes, Zlib.Countable line := by
    intro line mem
    obtain ⟨row, rowMem, rfl⟩ := List.mem_map.mp mem
    refine ⟨List.cons_ne_nil _ _, ?_⟩
    rw [length_scanline PngInfo.rowBytes_even (sized row rowMem)]
    exact noWrap
  obtain ⟨inflated, inflateOpened, delivers⟩ :=
    lawful.inflate_deflate 6 stream opened _ some countable fits
  have output : List.replicate info.numRawBytes.toNat (0 : Byte) =
      [] ++ List.replicate (info.rowCount * info.rowBytes.toNat) 0 ++
        List.replicate (bytes.length - info.rowCount * info.rowBytes.toNat) 0 := by
    have enough := image.enough
    rw [image.numRawBytes, List.nil_append, List.replicate_append_replicate,
      Nat.add_sub_of_le enough]
  have unpacked := unpackRows_eq PngInfo.rowBytes_even sum flipY sized 0
    (by rw [length_rows, Nat.zero_add])
    (delivers (scanlines bigEndian info bytes) countable rfl) []
    (List.replicate (info.rowCount * info.rowBytes.toNat) 0)
    (List.replicate (bytes.length - info.rowCount * info.rowBytes.toNat) 0)
    (by rw [List.length_replicate, length_rows]) (by cases flipY <;> simp)
  rw [length_rows] at unpacked
  rw [zlibUnpackFixed, inflateOpened]
  dsimp only
  rw [if_neg fun invalid => invalid image.valid, image.valid.height.1, rowIndices,
    Int.toNat_natCast, List.range_eq_range', output, unpacked, Ending.bind_returns,
    if_neg fun left => left rfl]
  rfl

theorem restored_iff (image : Image info bytes) :
    (restored info bytes flipY = bytes ∧
        restored info bytes (!flipY) = flipRows info.rowSize info.rowCount bytes) ↔
      if info.rowSize < 2 ^ 32 then
        flipY = false ∨ flipRows info.rowSize info.rowCount bytes = bytes
      else
        ∀ place, (if info.rowCount = 1 then info.rowSize % 2 ^ 32 else 0) ≤ place →
          bytes.getD place 0 = 0 := by
  rw [restored, restored, PngInfo.rowBytes_toNat]
  by_cases narrow : info.rowSize < 2 ^ 32
  · rw [if_pos narrow, Nat.mod_eq_of_lt narrow, kept_all image.length, kept_all image.length]
    cases flipY with
    | false => simp
    | true => simp [eq_comm]
  · rw [if_neg narrow]
    exact kept_short_iff image.length (by omega) image.valid.height.2.1 flipY

theorem Image.asserted (image : Image info bytes) :
    ¬ (¬ info.Valid ∨ bytes.length ≠ info.numRawBytes.toNat) := by
  rintro (invalid | other)
  · exact invalid image.valid
  · exact other image.numRawBytes.symm

variable (bigEndian) in
theorem pack_eq (image : Image info bytes) (noWrap : info.rowBytes.toNat + 1 < 2 ^ 32)
    {stream : z.Deflate} (opened : z.deflateInit 6 = some stream)
    (small : (z.deflateAll stream (scanlines bigEndian info bytes)).length < 2 ^ 32) :
    ∃ colourType, channelsOf colourType = some info.channels ∧
      PngTools.pack z bigEndian bytes info flipY =
        .returns (pngHeader ++ (PngTools.ihdrChunk z info colourType).toBytes ++
          PngTools.idatChunk z (z.deflateAll stream (scanlines bigEndian info bytes)) ++
          iendChunk) := by
  obtain ⟨colourType, typed, coloured⟩ :=
    channelsOf_colourTypeOf image.valid.2.1 image.valid.2.2
  refine ⟨colourType, coloured, ?_⟩
  rw [PngTools.pack, if_neg image.asserted, zlibPack_eq image noWrap opened,
    Ending.bind_returns, if_neg (by omega), typed]

theorem roundTrips_iff_restored (lawful : z.Lawful) (image : Image info bytes)
    (fits : PngTools.pack z bigEndian bytes info flipY ≠ .throws PngTools.packedTooLarge) :
    RoundTrips z bigEndian info bytes flipY ↔ info.rowBytes.toNat + 1 < 2 ^ 32 ∧
      (∀ stream, z.deflateInit 6 = some stream →
        (z.deflateAll stream (scanlines bigEndian info bytes)).length + 12 < 2 ^ 32) ∧
      restored info bytes flipY = bytes ∧
        restored info bytes (!flipY) = flipRows info.rowSize info.rowCount bytes := by
  obtain ⟨stream, opened⟩ := lawful.deflateInit_succeeds 6 (by decide) (by decide)
  by_cases noWrap : info.rowBytes.toNat + 1 < 2 ^ 32
  · have small : (z.deflateAll stream (scanlines bigEndian info bytes)).length < 2 ^ 32 := by
      apply Classical.byContradiction
      intro large
      apply fits
      rw [PngTools.pack, if_neg image.asserted, zlibPack_eq image noWrap opened,
        Ending.bind_returns, if_pos (by omega)]
    obtain ⟨colourType, coloured, packs⟩ := pack_eq bigEndian flipY image noWrap opened small
    have unpacks := fun flipY =>
      zlibUnpackFixed_eq flipY lawful image noWrap opened small
    constructor
    · rintro ⟨packed, returned, unpacked⟩
      cases returned.symm.trans packs
      by_cases readable :
          (z.deflateAll stream (scanlines bigEndian info bytes)).length + 12 < 2 ^ 32
      · have forth := (unpacked info).1
        have back := (unpacked info).2
        rw [unpack_layout coloured readable, unpacks] at forth back
        simp only [Prod.mk.injEq, Ending.returns.injEq, and_true] at forth back
        refine ⟨noWrap, fun other openedToo => ?_, forth, back⟩
        cases opened.symm.trans openedToo
        exact readable
      · obtain ⟨exception, thrown⟩ := unpack_oversized bigEndian coloured small
          (by omega) info flipY
        cases thrown.symm.trans (unpacked info).1
    · rintro ⟨-, readable, forth, back⟩
      refine ⟨_, packs, fun info₀ => ?_⟩
      rw [unpack_layout coloured (readable stream opened),
        unpack_layout coloured (readable stream opened), unpacks, unpacks, forth, back]
      exact ⟨rfl, rfl⟩
  · have packs : PngTools.pack z bigEndian bytes info flipY = .undefined := by
      rw [PngTools.pack, if_neg image.asserted, zlibPack_undefined noWrap opened]
      rfl
    constructor
    · rintro ⟨packed, returned, -⟩
      rw [packs] at returned
      cases returned
    · rintro ⟨no, -⟩
      exact absurd no noWrap

/-- An image comes through packing and unpacking exactly when it survives. -/
theorem roundTrips_iff (lawful : z.Lawful) (image : Image info bytes)
    (fits : PngTools.pack z bigEndian bytes info flipY ≠ .throws PngTools.packedTooLarge) :
    RoundTrips z bigEndian info bytes flipY ↔ Survives z bigEndian info bytes flipY := by
  rw [roundTrips_iff_restored flipY lawful image fits, restored_iff flipY image, Survives,
    PngInfo.rowBytes_toNat]

end RoundTrip

section TwoRows

/-- A grey image of two rows of one pixel. -/
def twoRows : PngInfo := ⟨⟨1, 2⟩, false, 1⟩

theorem twoRows_image : Image twoRows [1, 2] := ⟨by decide, by decide, by decide⟩

theorem twoRows_packed (stream : Zlib.storing.Deflate)
    (opened : Zlib.storing.deflateInit 6 = some stream) :
    Zlib.storing.deflateAll stream (scanlines false twoRows [1, 2]) = [0, 1, 0, 2] := by
  cases opened
  exact Zlib.storing_deflateAll [] (List.cons_ne_nil _ _)

theorem twoRows_fits (flipY : Bool) :
    PngTools.pack Zlib.storing false [1, 2] twoRows flipY ≠ .throws PngTools.packedTooLarge := by
  have opened : Zlib.storing.deflateInit 6 = some [] := rfl
  obtain ⟨colourType, -, packs⟩ := pack_eq false flipY twoRows_image (by decide)
    opened (by rw [twoRows_packed _ opened]; decide)
  rw [packs]
  intro thrown
  cases thrown

theorem twoRows_roundTrips : RoundTrips Zlib.storing false twoRows [1, 2] false := by
  refine (roundTrips_iff false Zlib.storing_lawful twoRows_image (twoRows_fits false)).mpr
    ⟨by decide, fun stream opened => ?_, ?_⟩
  · rw [twoRows_packed stream opened]
    decide
  · rw [if_pos (by decide)]
    exact .inl rfl

/-- Packed and unpacked upwards, the rows are exchanged. -/
theorem twoRows_exchanged : Zlib.storing.Lawful ∧ Image twoRows [1, 2] ∧
    PngTools.pack Zlib.storing false [1, 2] twoRows true ≠ .throws PngTools.packedTooLarge ∧
    ¬ RoundTrips Zlib.storing false twoRows [1, 2] true := by
  refine ⟨Zlib.storing_lawful, twoRows_image, twoRows_fits true, fun trips => ?_⟩
  have back := ((roundTrips_iff_restored true Zlib.storing_lawful twoRows_image
    (twoRows_fits true)).mp trips).2.2.1
  exact absurd back (by decide)

end TwoRows

end Voxen.Assets
