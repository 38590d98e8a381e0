import WhoreIrc.Framework.Loop
import WhoreIrc.Impl.CString

/-!
# Websocket frames (`plugins/relay/relay-websocket.c`)

`relay_websocket_decode_frame` reads the frames of a buffer one after the other,
`relay_websocket_encode_frame` writes one. An `unsigned long long` has 64 bits,
and a buffer is shorter than that: only sums that are not positions in it are
taken modulo 2⁶⁴.
-/

namespace Wirc

open Framework

/-- `WEBSOCKET_FRAME_OPCODE_*`. -/
def websocketFrameOpcodeText : Byte := 0x01
def websocketFrameOpcodeBinary : Byte := 0x02
def websocketFrameOpcodeClose : Byte := 0x08
def websocketFrameOpcodePing : Byte := 0x09
def websocketFrameOpcodePong : Byte := 0x0A

/-- `enum t_relay_client_msg_type`. -/
def relayClientMsgStandard : Byte := 0
def relayClientMsgPing : Byte := 1
def relayClientMsgPong : Byte := 2
def relayClientMsgClose : Byte := 3

/-- A sum in an `unsigned long long`. -/
def ullong (n : Nat) : Nat := n % 18446744073709551616

/-- The bytes `buffer[index]` to `buffer[index + n - 1]`, read one after the
other; `none` if one of them is not in the buffer. -/
def readBytes (buffer : List Byte) (index n : Nat) : Option (List Byte) :=
  if n = 0 ∨ index + n ≤ buffer.length then some ((buffer.drop index).take n) else none

/-- The length on 2 or 8 bytes, the highest first. -/
def lengthFrame : List Byte → Nat
  | [] => 0
  | b :: bytes => (b.toNat <<< (bytes.length * 8)) + lengthFrame bytes

/-- `switch (opcode)`. -/
def decodedType (opcode : Byte) : Byte :=
  if opcode = websocketFrameOpcodePing then relayClientMsgPing
  else if opcode = websocketFrameOpcodeClose then relayClientMsgClose
  else relayClientMsgStandard

/-- `buffer[i] ^ masks[i % 4]`. -/
def decodeData (masks data : List Byte) : List Byte := data.mapIdx fun i b => b ^^^ masks.getD (i % 4) 0

/-- What reading a frame gives: a byte that is not in the buffer is read, an
error, or the decoded bytes and the index after the frame. -/
inductive FrameRead
  | outside
  | error
  | frame (decoded : List Byte) (index : Nat)

section

variable (buffer : List Byte)

/-- The masks and the data of a frame, from `index`. -/
def relayWebsocketDecodeData (opcode : Byte) (lengthFrameSize length index : Nat) : FrameRead :=
  if buffer.length < ullong (1 + lengthFrameSize + 4 + length) then .error
  else
    match readBytes buffer index 4 with
    | some masks =>
      match readBytes buffer (index + 4) length with
      | some data => .frame (decodedType opcode :: decodeData masks data ++ [0]) (index + 4 + length)
      | none => .outside
    | none => .outside

/-- The frame at `index`. -/
def relayWebsocketReadFrame (index : Nat) : FrameRead :=
  match readBytes buffer index 2 with
  | some [b0, b1] =>
    -- a frame that is not masked is rejected
    if b1 &&& 128 = 0 then .error
    else
      let length := (b1 &&& 127).toNat
      if length = 126 ∨ length = 127 then
        let lengthFrameSize := if length = 126 then 2 else 8
        if buffer.length < 1 + lengthFrameSize then .error
        else
          match readBytes buffer (index + 2) lengthFrameSize with
          | some bytes =>
            relayWebsocketDecodeData buffer (b0 &&& 15) lengthFrameSize (lengthFrame bytes)
              (index + 2 + lengthFrameSize)
          | none => .outside
      else relayWebsocketDecodeData buffer (b0 &&& 15) 1 length (index + 2)
  | _ => .outside

/-- A round of `while (index_buffer + 2 <= buffer_length)`, with the index and
the decoded bytes; the result is `none` if a byte is read outside the buffer. -/
def relayWebsocketDecodeRound (s : Nat × List Byte) : Round (Nat × List Byte) (Option (Bool × List Byte)) :=
  if ullong (s.1 + 2) ≤ buffer.length then
    match relayWebsocketReadFrame buffer s.1 with
    | .outside => .done none
    | .error => .done (some (false, s.2))
    | .frame decoded index => .next (index, s.2 ++ decoded)
  else .done (some (true, s.2))

/-- `relay_websocket_decode_frame`: what it returns, and the decoded bytes. -/
def relayWebsocketDecodeFrame : Option (Option (Bool × List Byte)) :=
  runLoop (relayWebsocketDecodeRound buffer) (buffer.length + 1) (0, [])

end

/-- The byte of `length` at some bits, `(length >> bits) & 0xFF`. -/
def lengthByte (length bits : Nat) : Byte := UInt8.ofNat ((length >>> bits) &&& 0xFF)

/-- `relay_websocket_encode_frame`. -/
def relayWebsocketEncodeFrame (opcode : Byte) (buffer : List Byte) : List Byte :=
  let length := buffer.length
  (0x80 ||| opcode) ::
    (if length ≤ 125 then [UInt8.ofNat length]
      else if length ≤ 65535 then [126, lengthByte length 8, lengthByte length 0]
      else 127 :: [56, 48, 40, 32, 24, 16, 8, 0].map (lengthByte length)) ++ buffer

end Wirc
