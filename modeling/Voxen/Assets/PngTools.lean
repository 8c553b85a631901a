import Voxen.Lib.FlatRows
import Voxen.Util.Hash

/-!
# PNG streams

Packing a raw image to a PNG stream of one `IDAT` chunk, and unpacking such streams.  Where
the code would read or write outside of its buffers, or breaks an assertion, the outcome is
undefined.
-/

namespace Voxen.Assets

/-- The error conditions of `VoxenErrc` that are thrown here. -/
inductive VoxenErrc where
  | invalidData
  | outOfResource
  | dataTooLarge
  | externalLibFailure
  deriving DecidableEq

/-- `Exception::fromError(ec, details)`. -/
structure Exception where
  ec : VoxenErrc
  details : String
  deriving DecidableEq

/-- How a call ends. -/
inductive Ending (α : Type) where
  | returns (value : α)
  | throws (exception : Exception)
  | undefined

namespace Ending

variable {α β : Type}

def bind (ending : Ending α) (next : α → Ending β) : Ending β :=
  match ending with
  | .returns value => next value
  | .throws exception => .throws exception
  | .undefined => .undefined

@[simp]
theorem bind_returns (value : α) (next : α → Ending β) : (returns value).bind next = next value :=
  rfl

end Ending

/-- `Resolution`. -/
structure Resolution where
  width : BitVec 32
  height : BitVec 32
  deriving DecidableEq

/-- `Resolution::valid()`. -/
def Resolution.Valid (resolution : Resolution) : Prop :=
  0 < resolution.width.toInt ∧ 0 < resolution.height.toInt

instance (resolution : Resolution) : Decidable resolution.Valid :=
  inferInstanceAs (Decidable (_ ∧ _))

/-- `PngInfo`. -/
structure PngInfo where
  resolution : Resolution
  is16bpc : Bool
  channels : BitVec 8
  deriving DecidableEq

namespace PngInfo

/-- The assertions of `PngTools::numRawBytes`. -/
def Valid (info : PngInfo) : Prop :=
  info.resolution.Valid ∧ 0 < info.channels.toNat ∧ info.channels.toNat ≤ 4

instance (info : PngInfo) : Decidable info.Valid :=
  inferInstanceAs (Decidable (_ ∧ _ ∧ _))

/-- `PngTools::numRawBytes(info)`. -/
def numRawBytes (info : PngInfo) : BitVec 64 :=
  let pixels := info.resolution.width.signExtend 64 * info.resolution.height.signExtend 64
  pixels * info.channels.setWidth 64 * (if info.is16bpc then 2 else 1)

/-- `row_bytes`. -/
def rowBytes (info : PngInfo) : BitVec 32 :=
  info.resolution.width * info.channels.setWidth 32 * (if info.is16bpc then 2 else 1)

end PngInfo

section Rows

/-- `first_y`. -/
def firstY (height : Int) (flipY : Bool) : Int :=
  if flipY then height - 1 else 0

/-- `last_y`. -/
def lastY (height : Int) (flipY : Bool) : Int :=
  if flipY then -1 else height

/-- `y_step`. -/
def yStep (flipY : Bool) : Int :=
  if flipY then -1 else 1

/-- `y` in a turn of the loop `for (y = first_y; y != last_y; y += y_step)`. -/
def rowIndex (height : Int) (flipY : Bool) (turn : Nat) : Int :=
  firstY height flipY + turn * yStep flipY

/-- The values of `y` in that loop, `last_y` excluded. -/
def rowIndices (height : Int) (flipY : Bool) : List Int :=
  (List.range height.toNat).map (rowIndex height flipY)

end Rows

section Packing

variable (z : Zlib) (bigEndian : Bool)

/-- `input_buffer` with the first row of `input`, behind the filter type. -/
def inputRow (is16bpc : Bool) (rowBytes : Nat) (input : List Byte) : List Byte :=
  let inputBuffer := 0 :: List.replicate rowBytes 0
  if !bigEndian && is16bpc then
    -- `for (i = 0; i < row_bytes; i += 2)`
    CountedLoop.run ((rowBytes + 1) / 2) inputBuffer fun inputBuffer k =>
      (inputBuffer.set (2 * k + 1) (input.getD (2 * k + 1) 0)).set (2 * k + 2)
        (input.getD (2 * k) 0)
  else
    FlatRows.writeAt inputBuffer 1 (input.take rowBytes)

/-- The loop over rows of `zlibPack`. -/
def packRows (is16bpc : Bool) (rowBytes : Nat) (lastY yStep : Int) :
    List Int → z.Deflate → List Byte → Ending (List Byte)
  | [], _, _ => .returns []
  | y :: rest, stream, input =>
    -- `input.subspan(row_bytes)`
    if input.length < rowBytes then .undefined
    else
      let deflated := z.doDeflate (if y + yStep = lastY then .finish else .noFlush) stream
        (inputRow bigEndian is16bpc rowBytes input)
      (packRows is16bpc rowBytes lastY yStep rest deflated.1 (input.drop rowBytes)).bind
        fun output => .returns (deflated.2 ++ output)

/-- `zlibPack(input, info, flip_y, level)`. -/
def zlibPack (input : List Byte) (info : PngInfo) (flipY : Bool) (level : Int) :
    Ending (List Byte) :=
  match z.deflateInit level with
  | none => .throws ⟨.externalLibFailure, "'zlib/deflateInit' failed"⟩
  | some stream =>
    let height := info.resolution.height.toInt
    -- the buffer of `1 + row_bytes` bytes, a sum that may wrap around
    if (1 + info.rowBytes).toNat < 1 + info.rowBytes.toNat then .undefined
    else packRows z bigEndian info.is16bpc info.rowBytes.toNat (lastY height flipY)
      (yStep flipY) (rowIndices height flipY) stream input

/-- The row in `row_chunk`, written to `output` at `offset`. -/
def outputRow (is16bpc : Bool) (rowBytes : Nat) (rowChunk output : List Byte) (offset : Nat) :
    List Byte :=
  if !bigEndian && is16bpc then
    CountedLoop.run ((rowBytes + 1) / 2) output fun output k =>
      (output.set (2 * k + offset) (rowChunk.getD (2 * k + 2) 0)).set (2 * k + offset + 1)
        (rowChunk.getD (2 * k + 1) 0)
  else
    FlatRows.writeAt output offset ((rowChunk.drop 1).take rowBytes)

/-- The loop over rows of `zlibUnpackFixed`: the input that is left, and the output. -/
def unpackRows (is16bpc : Bool) (rowBytes : BitVec 32) :
    List Int → z.Inflate → List Byte → List Byte → Ending (List Byte × List Byte)
  | [], _, input, output => .returns (input, output)
  | y :: rest, stream, input, output =>
    let room := (rowBytes + 1).toNat
    let inflated := z.inflate stream input room
    if inflated.1 = .failure then .throws ⟨.invalidData, "'zlib/inflate' failed"⟩
    else if inflated.2.written.length ≠ room then
      .throws ⟨.invalidData, "packed PNG data likely mismatches info"⟩
    else match inflated.2.written with
      | [] => .undefined
      | filter :: row =>
        if filter ≠ 0 then .throws ⟨.outOfResource, "TODO: unsupported PNG stream"⟩
        else if row.length < rowBytes.toNat ∨
            output.length < y.toNat * rowBytes.toNat + rowBytes.toNat then .undefined
        else unpackRows is16bpc rowBytes rest inflated.2.stream inflated.2.input
          (outputRow bigEndian is16bpc rowBytes.toNat (filter :: row) output
            (y.toNat * rowBytes.toNat))

/-- `zlibUnpackFixed(packed, info, flip_y)`. -/
def zlibUnpackFixed (packed : List Byte) (info : PngInfo) (flipY : Bool) :
    Ending (List Byte) :=
  match z.inflateInit with
  | none => .throws ⟨.externalLibFailure, "'zlib/inflateInit' failed"⟩
  | some stream =>
    if ¬ info.Valid then .undefined
    else
      let output := List.replicate info.numRawBytes.toNat 0
      (unpackRows z bigEndian info.is16bpc info.rowBytes
        (rowIndices info.resolution.height.toInt flipY) stream packed output).bind
        fun done =>
          if done.1 ≠ [] then
            .throws ⟨.invalidData, "packed PNG data likely mismatches info"⟩
          else .returns done.2

end Packing

section Chunks

def bigEndianPack (input : BitVec 32) : List Byte :=
  [(input >>> 24).setWidth 8, (input >>> 16).setWidth 8, (input >>> 8).setWidth 8,
    input.setWidth 8]

/-- `bigEndianUnpack(input)`. -/
def bigEndianUnpack (input : List Byte) : BitVec 32 :=
  let byte := fun i => (input.getD i 0).setWidth 32
  byte 0 <<< 24 ||| byte 1 <<< 16 ||| byte 2 <<< 8 ||| byte 3

theorem bigEndianUnpack_pack (input : BitVec 32) (rest : List Byte) :
    bigEndianUnpack (bigEndianPack input ++ rest) = input := by
  apply BitVec.eq_of_getLsbD_eq
  intro i less
  simp only [bigEndianUnpack, bigEndianPack, List.cons_append, List.getD_cons_zero,
    List.getD_cons_succ, BitVec.getLsbD_or, BitVec.getLsbD_shiftLeft, BitVec.getLsbD_setWidth,
    BitVec.getLsbD_ushiftRight]
  grind

/-- `PNG_HEADER`. -/
def pngHeader : List Byte := [0x89, 0x50, 0x4E, 0x47, 0x0D, 0x0A, 0x1A, 0x0A]

/-- `PNG_IDAT_TYPE`. -/
def pngIdatType : List Byte := [0x49, 0x44, 0x41, 0x54]

/-- `IhdrChunk`. -/
structure IhdrChunk where
  chunkLength : List Byte := [0x00, 0x00, 0x00, 0x0D]
  chunkType : List Byte := [0x49, 0x48, 0x44, 0x52]
  width : List Byte
  height : List Byte
  bitDepth : Byte
  colourType : Byte
  compressionMethod : Byte := 0
  filterMethod : Byte := 0
  interlaceMethod : Byte := 0
  chunkCrc : List Byte := [0, 0, 0, 0]

namespace IhdrChunk

/-- `ihdr_crc_zone`: everything from the type field up to the crc field. -/
def crcZone (ihdr : IhdrChunk) : List Byte :=
  ihdr.chunkType ++ ihdr.width ++ ihdr.height ++
    [ihdr.bitDepth, ihdr.colourType, ihdr.compressionMethod, ihdr.filterMethod,
      ihdr.interlaceMethod]

/-- The chunk in memory. -/
def toBytes (ihdr : IhdrChunk) : List Byte :=
  ihdr.chunkLength ++ ihdr.crcZone ++ ihdr.chunkCrc

/-- The 25 bytes at `bytes` as a chunk. -/
def ofBytes (bytes : List Byte) : IhdrChunk where
  chunkLength := bytes.take 4
  chunkType := (bytes.drop 4).take 4
  width := (bytes.drop 8).take 4
  height := (bytes.drop 12).take 4
  bitDepth := bytes.getD 16 0
  colourType := bytes.getD 17 0
  compressionMethod := bytes.getD 18 0
  filterMethod := bytes.getD 19 0
  interlaceMethod := bytes.getD 20 0
  chunkCrc := (bytes.drop 21).take 4

end IhdrChunk

/-- `IendChunk`. -/
def iendChunk : List Byte := [0, 0, 0, 0, 0x49, 0x45, 0x4E, 0x44, 0xAE, 0x42, 0x60, 0x82]

/-- `CHANNELS_GREY`, `CHANNELS_GREY_ALPHA`, `CHANNELS_RGB` and `CHANNELS_RGBA` for the number
of channels. -/
def colourTypeOf (channels : BitVec 8) : Option Byte :=
  if channels = 1 then some 0
  else if channels = 2 then some 4
  else if channels = 3 then some 2
  else if channels = 4 then some 6
  else none

/-- The number of channels of a colour type. -/
def channelsOf (colourType : Byte) : Option (BitVec 8) :=
  if colourType = 0 then some 1
  else if colourType = 4 then some 2
  else if colourType = 2 then some 3
  else if colourType = 6 then some 4
  else none

theorem channelsOf_colourTypeOf {channels : BitVec 8} (positive : 0 < channels.toNat)
    (few : channels.toNat ≤ 4) :
    ∃ colourType, colourTypeOf channels = some colourType ∧
      channelsOf colourType = some channels := by
  have cases : channels = 1 ∨ channels = 2 ∨ channels = 3 ∨ channels = 4 := by bv_omega
  rcases cases with rfl | rfl | rfl | rfl
  · exact ⟨0, rfl, rfl⟩
  · exact ⟨4, rfl, rfl⟩
  · exact ⟨2, rfl, rfl⟩
  · exact ⟨6, rfl, rfl⟩

end Chunks

namespace PngTools

variable (z : Zlib) (bigEndian : Bool)

/-- The exception for images that are packed to more than the length field of a chunk holds. -/
def packedTooLarge : Exception := ⟨.dataTooLarge, "packed image too large"⟩

/-- The `IHDR` chunk that is written for an image. -/
def ihdrChunk (info : PngInfo) (colourType : Byte) : IhdrChunk :=
  let ihdr : IhdrChunk :=
    { width := bigEndianPack info.resolution.width
      height := bigEndianPack info.resolution.height
      bitDepth := if info.is16bpc then 16 else 8
      colourType := colourType }
  { ihdr with chunkCrc := bigEndianPack (checksumCrc32 z ihdr.crcZone) }

/-- The `IDAT` chunk: its length, its type and contents, and their checksum. -/
def idatChunk (packedImage : List Byte) : List Byte :=
  let idat := pngIdatType ++ packedImage
  bigEndianPack (BitVec.ofNat 32 packedImage.length) ++ idat ++
    bigEndianPack (checksumCrc32 z idat)

/-- `PngTools::pack(bytes, info, flip_y)`. -/
def pack (bytes : List Byte) (info : PngInfo) (flipY : Bool) : Ending (List Byte) :=
  if ¬ info.Valid ∨ bytes.length ≠ info.numRawBytes.toNat then .undefined
  else (zlibPack z bigEndian bytes info flipY 6).bind fun packedImage =>
    if 2 ^ 32 - 1 < packedImage.length then .throws packedTooLarge
    else match colourTypeOf info.channels with
      | none => .undefined
      | some colourType =>
        .returns (pngHeader ++ (ihdrChunk z info colourType).toBytes ++
          idatChunk z packedImage ++ iendChunk)

/-- `PngTools::unpack(bytes, info, flip_y)`, with `info` as it is left. -/
def unpack (bytes : List Byte) (info : PngInfo) (flipY : Bool) :
    Ending (List Byte) × PngInfo :=
  if bytes.length < 8 + 25 then (.throws ⟨.invalidData, "PNG data has too few bytes"⟩, info)
  else if bytes.take 8 ≠ pngHeader then
    (.throws ⟨.invalidData, "PNG magic header mismatch"⟩, info)
  else
    let ihdr := IhdrChunk.ofBytes (bytes.drop 8)
    if ihdr.chunkType ≠ [0x49, 0x48, 0x44, 0x52] then
      (.throws ⟨.invalidData, "PNG first chunk is not IHDR"⟩, info)
    else if bigEndianUnpack ihdr.chunkLength ≠ 13 then
      (.throws ⟨.invalidData, "PNG IHDR chunk length mismatch"⟩, info)
    else if bigEndianUnpack ihdr.chunkCrc ≠ checksumCrc32 z ihdr.crcZone then
      (.throws ⟨.invalidData, "PNG IHDR CRC mismatch"⟩, info)
    else if ihdr.compressionMethod ≠ 0 ∨ ihdr.filterMethod ≠ 0 ∨ ihdr.interlaceMethod ≠ 0 then
      (.throws ⟨.outOfResource, "TODO: unsupported PNG stream"⟩, info)
    else if ihdr.bitDepth ≠ 8 ∧ ihdr.bitDepth ≠ 16 then
      (.throws ⟨.outOfResource, "TODO: unsupported PNG stream"⟩, info)
    else
      let info := { info with
        resolution := ⟨bigEndianUnpack ihdr.width, bigEndianUnpack ihdr.height⟩
        is16bpc := ihdr.bitDepth = 16 }
      match channelsOf ihdr.colourType with
      | none => (.returns [], info)
      | some channels =>
        let info := { info with channels := channels }
        let idatBytes := bytes.drop (8 + 25)
        -- the length and type fields are read without a check
        if idatBytes.length < 8 then (.undefined, info)
        else
          let packedImageSize := bigEndianUnpack idatBytes
          if (idatBytes.drop 4).take 4 ≠ pngIdatType then
            (.throws ⟨.outOfResource, "TODO: unsupported PNG stream"⟩, info)
          else if idatBytes.length < 4 + (4 + packedImageSize).toNat ∨
              idatBytes.length < 8 + packedImageSize.toNat + 4 then (.undefined, info)
          else if checksumCrc32 z ((idatBytes.drop 4).take (4 + packedImageSize).toNat) ≠
              bigEndianUnpack (idatBytes.drop (8 + packedImageSize.toNat)) then
            (.throws ⟨.invalidData, "PNG IDAT CRC mismatch"⟩, info)
          else if idatBytes.length < (12 + packedImageSize).toNat then (.undefined, info)
          else if idatBytes.drop (12 + packedImageSize).toNat ≠ iendChunk then
            (.throws ⟨.outOfResource, "TODO: unsupported PNG stream"⟩, info)
          else
            (zlibUnpackFixed z bigEndian ((idatBytes.drop 8).take packedImageSize.toNat) info
              flipY, info)

end PngTools

end Voxen.Assets
