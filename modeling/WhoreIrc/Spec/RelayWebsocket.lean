import WhoreIrc.Framework.Digits
import WhoreIrc.Impl.RelayWebsocket

/-!
# What websocket frames are

A frame begins with its type and the length of its data, on 7, 16 or 64 bits;
four masks and the data follow. The frames of a buffer are taken one after the
other from its start.
-/

namespace Wirc

open Framework

/-! ## Frames in a buffer -/

/-- The number of bytes of the length after the two first bytes. -/
def lengthSize (b1 : Byte) : Nat :=
  if (b1 &&& 127).toNat = 126 then 2 else if (b1 &&& 127).toNat = 127 then 8 else 0

/-- The length of the data, with the bytes after the two first ones. -/
def dataLength (b1 : Byte) (rest : List Byte) : Nat :=
  if lengthSize b1 = 0 then (b1 &&& 127).toNat else lengthFrame (rest.take (lengthSize b1))

/-- The bytes that begin with a frame that fits in them, of this size. -/
def FrameFits (size : Nat) : List Byte → Prop
  | _ :: b1 :: rest =>
    lengthSize b1 ≤ rest.length ∧ size = 2 + lengthSize b1 + 4 + dataLength b1 rest ∧ size ≤ 2 + rest.length
  | _ => False

/-- A frame of the buffer starts here, after frames that fit. -/
inductive FrameAt (buffer : List Byte) : Nat → Prop
  | start : FrameAt buffer 0
  | next {index size : Nat} (h : FrameAt buffer index) (hfits : FrameFits size (buffer.drop index)) :
    FrameAt buffer (index + size)

/-- A frame of the buffer does not fit in the rest of it. -/
def FrameCut (buffer : List Byte) : Prop :=
  ∃ index, FrameAt buffer index ∧ index < buffer.length ∧ ∀ size, ¬ FrameFits size (buffer.drop index)

/-- The decoder ends, reads nothing outside the buffer, writes no more than is
said, and returns 0 if a frame does not fit. -/
def DecodesInside (buffer : List Byte) : Prop :=
  ∃ rc decoded, relayWebsocketDecodeFrame buffer = some (some (rc, decoded)) ∧
    decoded.length ≤ 2 * buffer.length + 1 ∧ (FrameCut buffer → rc = false)

/-- The two checks, that count no position, reject the frame that begins here. -/
def FrameRejected (bufferLength : Nat) : List Byte → Prop
  | _ :: b1 :: rest =>
    (lengthSize b1 ≠ 0 ∧ bufferLength < 1 + lengthSize b1) ∨
      lengthSize b1 ≤ rest.length ∧ bufferLength < ullong (1 + max 1 (lengthSize b1) + 4 + dataLength b1 rest)
  | _ => False

/-- The frame that begins here is masked. -/
def FrameMasked : List Byte → Prop
  | _ :: b1 :: _ => b1 &&& 128 ≠ 0
  | _ => False

/-- Up to the first frame that is not masked, each frame fits in the rest of the
buffer, or is rejected by the checks; at the end, two more bytes can be counted. -/
inductive FramesChecked (bufferLength : Nat) : List Byte → Prop
  | nil : bufferLength + 2 < 18446744073709551616 → FramesChecked bufferLength []
  | unmasked {b0 b1 : Byte} {rest : List Byte} : b1 &&& 128 = 0 → FramesChecked bufferLength (b0 :: b1 :: rest)
  | rejected {bytes : List Byte} : FrameMasked bytes → FrameRejected bufferLength bytes →
    FramesChecked bufferLength bytes
  | frame {size : Nat} {bytes : List Byte} : FrameMasked bytes → FrameFits size bytes →
    FramesChecked bufferLength (bytes.drop size) → FramesChecked bufferLength bytes

/-! ## Frames of clients -/

/-- Some bytes of a number, the highest first. -/
def beBytes (width n : Nat) : List Byte := (leBytes width n).reverse

/-- The length of the data as RFC 6455 writes it, with the bit of the mask. -/
def encodeLength (maskBit length : Nat) : List Byte :=
  if length ≤ 125 then [UInt8.ofNat (maskBit + length)]
  else if length ≤ 65535 then UInt8.ofNat (maskBit + 126) :: beBytes 2 length
  else UInt8.ofNat (maskBit + 127) :: beBytes 8 length

/-- A frame that a client sends: the byte with its type and flags, the masks and
the data. The highest bit of a length of 64 bits is 0. -/
structure ClientFrame where
  head : Byte
  masks : List Byte
  payload : List Byte
  masks_length : masks.length = 4
  payload_length : payload.length < 9223372036854775808

/-- The type of the frame. -/
def ClientFrame.opcode (frame : ClientFrame) : Byte := frame.head &&& 15

/-- The data is masked with the masks in turn. -/
def maskData (masks payload : List Byte) : List Byte := payload.mapIdx fun i b => b ^^^ masks.getD (i % 4) 0

def ClientFrame.encode (frame : ClientFrame) : List Byte :=
  frame.head :: encodeLength 128 frame.payload.length ++ frame.masks ++ maskData frame.masks frame.payload

/-- What is decoded of a frame. -/
def ClientFrame.decoded (frame : ClientFrame) : List Byte :=
  decodedType frame.opcode :: frame.payload ++ [0]

/-- The data of a frame of the server, which has no masks. -/
def serverPayload : List Byte → Option (List Byte)
  | _ :: b1 :: rest =>
    if lengthSize b1 ≤ rest.length ∧ rest.length = lengthSize b1 + dataLength b1 rest then
      some (rest.drop (lengthSize b1))
    else none
  | _ => none

end Wirc
