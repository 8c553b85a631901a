import Mathlib.Algebra.Group.Nat.Defs
import Mathlib.Tactic.Common

/-!
# zlib

The functions of zlib that are called here are parameters: a call gets the state of a
stream, the bytes that are available for input and the room in the output buffer.  What the
callers rely on is stated apart from them.
-/

namespace Voxen

abbrev Byte := BitVec 8

/-- `Z_NO_FLUSH`, `Z_FINISH`. -/
inductive Flush where
  | noFlush
  | finish
  deriving DecidableEq

/-- `Z_OK`, `Z_STREAM_END` or a failure. -/
inductive ZlibStatus where
  | ok
  | streamEnd
  | failure
  deriving DecidableEq

/-- What a call leaves of the stream and of its input, and what it wrote. -/
structure ZlibCall (σ : Type) where
  stream : σ
  input : List Byte
  written : List Byte

structure Zlib where
  Deflate : Type
  Inflate : Type
  deflateInit : Int → Option Deflate
  deflate : Deflate → List Byte → Nat → Flush → ZlibCall Deflate
  /-- The bytes that are still to be written for an input. -/
  owed : Deflate → List Byte → Flush → Nat
  /-- Output buffers are not filled for ever. -/
  owed_lt : ∀ stream input room flush, 0 < room →
    (deflate stream input room flush).written.length = room →
    owed (deflate stream input room flush).stream (deflate stream input room flush).input flush <
      owed stream input flush
  inflateInit : Option Inflate
  inflate : Inflate → List Byte → Nat → ZlibStatus × ZlibCall Inflate
  crc32 : BitVec 64 → List Byte → BitVec 64

namespace Zlib

variable (z : Zlib)

/-- `do_deflate(flush)` of `zlibPack`: the stream afterwards and the bytes appended to the
output. -/
def doDeflate (flush : Flush) (stream : z.Deflate) (input : List Byte) :
    z.Deflate × List Byte :=
  if (z.deflate stream input 1024 flush).written.length = 1024 then
    -- the output buffer was not enough for a single call
    let rest := doDeflate flush (z.deflate stream input 1024 flush).stream
      (z.deflate stream input 1024 flush).input
    (rest.1, (z.deflate stream input 1024 flush).written ++ rest.2)
  else
    ((z.deflate stream input 1024 flush).stream, (z.deflate stream input 1024 flush).written)
termination_by z.owed stream input flush
decreasing_by exact z.owed_lt stream input 1024 flush (by decide) (by assumption)

theorem doDeflate_of_full {flush : Flush} {stream : z.Deflate} {input : List Byte}
    (full : (z.deflate stream input 1024 flush).written.length = 1024) :
    (z.doDeflate flush stream input).2 = (z.deflate stream input 1024 flush).written ++
      (z.doDeflate flush (z.deflate stream input 1024 flush).stream
        (z.deflate stream input 1024 flush).input).2 := by
  rw [doDeflate, if_pos full]

theorem doDeflate_of_room {flush : Flush} {stream : z.Deflate} {input : List Byte}
    (room : (z.deflate stream input 1024 flush).written.length ≠ 1024) :
    z.doDeflate flush stream input =
      ((z.deflate stream input 1024 flush).stream,
        (z.deflate stream input 1024 flush).written) := by
  rw [doDeflate, if_neg room]

/-- What a stream makes of pieces of data that are fed to it one after the other. -/
def deflateAll : z.Deflate → List (List Byte) → List Byte
  | _, [] => []
  | stream, [piece] => (z.doDeflate .finish stream piece).2
  | stream, piece :: next :: pieces =>
    (z.doDeflate .noFlush stream piece).2 ++
      deflateAll (z.doDeflate .noFlush stream piece).1 (next :: pieces)

/-- Calls of `inflate` with room for one piece after the other return these pieces, and the
last one leaves nothing of the input. -/
def Delivers : z.Inflate → List Byte → List (List Byte) → Prop
  | _, input, [] => input = []
  | stream, input, piece :: pieces =>
    (z.inflate stream input piece.length).1 ≠ .failure ∧
      (z.inflate stream input piece.length).2.written = piece ∧
      Delivers (z.inflate stream input piece.length).2.stream
        (z.inflate stream input piece.length).2.input pieces

/-- Buffers that are not empty and whose size fits the 32 bits of the counters. -/
def Countable (piece : List Byte) : Prop :=
  piece ≠ [] ∧ piece.length < 2 ^ 32

/-- `inflate` inverts `deflate`: whatever the data was cut into when it was packed, it is
delivered in the pieces that are asked for, with the whole stream consumed at their end. -/
structure Lawful : Prop where
  deflateInit_succeeds : ∀ level, 0 ≤ level → level ≤ 9 →
    ∃ stream, z.deflateInit level = some stream
  inflate_deflate : ∀ level stream, z.deflateInit level = some stream →
    ∀ pieces, pieces ≠ [] → (∀ piece ∈ pieces, Countable piece) →
    (z.deflateAll stream pieces).length < 2 ^ 32 →
    ∃ opened, z.inflateInit = some opened ∧
      ∀ asked : List (List Byte), (∀ piece ∈ asked, Countable piece) →
        asked.flatten = pieces.flatten → z.Delivers opened (z.deflateAll stream pieces) asked

section Storing

/-- Streams that hold the data as it is. -/
def storing : Zlib where
  Deflate := List Byte
  Inflate := Unit
  deflateInit _ := some []
  deflate stream input room flush := match flush with
    | .noFlush => ⟨stream ++ input, [], []⟩
    | .finish => ⟨(stream ++ input).drop room, [], (stream ++ input).take room⟩
  owed stream input _ := (stream ++ input).length
  owed_lt stream input room flush := by
    intro positive full
    cases flush with
    | noFlush => exact absurd full (Nat.ne_of_lt positive)
    | finish =>
      simp only [List.length_take, List.append_nil, List.length_drop] at full ⊢
      omega
  inflateInit := some ()
  inflate _ input room := (.ok, ⟨(), input.drop room, input.take room⟩)
  crc32 crc bytes := bytes.foldl (fun crc byte => crc * 31 + byte.setWidth 64) crc

theorem storing_finish (stream input : List Byte) :
    (storing.doDeflate .finish stream input).2 = stream ++ input := by
  induction held : (stream ++ input).length using Nat.strongRecOn generalizing stream input with
  | ind length ih =>
    have written : (storing.deflate stream input 1024 .finish).written.length =
        min 1024 (stream ++ input).length := List.length_take
    by_cases full : (storing.deflate stream input 1024 .finish).written.length = 1024
    · rw [doDeflate_of_full storing full]
      have less : ((stream ++ input).drop 1024 ++ []).length < length := by
        rw [List.append_nil, List.length_drop]
        omega
      rw [show (storing.doDeflate .finish (storing.deflate stream input 1024 .finish).stream
          (storing.deflate stream input 1024 .finish).input).2 = _ from ih _ less _ _ rfl]
      change (stream ++ input).take 1024 ++ ((stream ++ input).drop 1024 ++ []) = _
      rw [List.append_nil, List.take_append_drop]
    · rw [doDeflate_of_room storing full]
      exact List.take_of_length_le (by omega)

theorem storing_deflateAll (stream : List Byte) {pieces : List (List Byte)}
    (some : pieces ≠ []) : storing.deflateAll stream pieces = stream ++ pieces.flatten := by
  induction pieces generalizing stream with
  | nil => exact absurd rfl some
  | cons piece pieces ih =>
    cases pieces with
    | nil =>
      change (storing.doDeflate .finish stream piece).2 = _
      rw [storing_finish, List.flatten_cons, List.flatten_nil, List.append_nil]
    | cons next pieces =>
      have noFlush : storing.doDeflate .noFlush stream piece = (stream ++ piece, []) :=
        doDeflate_of_room storing (by change 0 ≠ 1024; decide)
      change (storing.doDeflate .noFlush stream piece).2 ++ storing.deflateAll
        (storing.doDeflate .noFlush stream piece).1 (next :: pieces) = _
      rw [noFlush, ih _ (List.cons_ne_nil _ _), List.flatten_cons (l := piece)]
      simp

theorem storing_delivers (asked : List (List Byte)) :
    storing.Delivers () asked.flatten asked := by
  induction asked with
  | nil => rfl
  | cons piece asked ih =>
    refine ⟨nofun, List.take_left, ?_⟩
    change storing.Delivers () ((piece ++ asked.flatten).drop piece.length) asked
    rw [List.drop_left]
    exact ih

theorem storing_lawful : storing.Lawful := by
  refine ⟨fun level _ _ => ⟨[], rfl⟩, ?_⟩
  intro level stream opened pieces some _ _
  refine ⟨(), rfl, fun asked _ same => ?_⟩
  cases opened
  rw [storing_deflateAll [] some, List.nil_append, ← same]
  exact storing_delivers asked

end Storing

end Zlib

end Voxen
