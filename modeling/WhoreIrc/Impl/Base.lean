import WhoreIrc.Impl.CString

/-!
# Base16, base32 and base64 (`core/wee-string.c`)

Each function returns the length it returns in C and the bytes it writes
before the final `\0`. The bytes to encode are an array with its length, so
they may hold zero bytes; the text to decode is a C string.
-/

namespace Wirc

/-! ## Base16 -/

def hexa : Str := lit "0123456789ABCDEF"

/-- The loop of `string_base16_encode`. -/
def base16EncodeLoop : List Byte → Str
  | [] => []
  | b :: rest => hexa.getD (b.toNat / 16) 0 :: hexa.getD (b.toNat % 16) 0 :: base16EncodeLoop rest

def stringBase16Encode (src : List Byte) : Int × Str :=
  let to' := base16EncodeLoop src
  (to'.length, to')

/-- The four bits of a hexadecimal digit, 0 for another character. -/
def base16Digit (c : Byte) : Byte :=
  if ch '0' ≤ c && c ≤ ch '9' then c - ch '0'
  else if ch 'a' ≤ c && c ≤ ch 'f' then c - ch 'a' + 10
  else if ch 'A' ≤ c && c ≤ ch 'F' then c - ch 'A' + 10
  else 0

/-- The loop of `string_base16_decode`: `strlen (from) / 2` pairs of digits. -/
def base16DecodeLoop : Str → List Byte
  | a :: b :: rest => (base16Digit a <<< 4 ||| base16Digit b) :: base16DecodeLoop rest
  | _ => []

def stringBase16Decode (src : Str) : Int × List Byte :=
  let to' := base16DecodeLoop src
  (to'.length, to')

/-! ## Base32 -/

/-- What `string_base32_decode` makes of a character. -/
inductive Base32Char where
  | digit (v : Byte)
  | padding
  | invalid
  deriving DecidableEq

def base32Char (c : Byte) : Base32Char :=
  if (ch 'A' ≤ c && c ≤ ch 'Z') || (ch 'a' ≤ c && c ≤ ch 'z') then .digit ((c &&& 0x1F) - 1)
  else if ch '2' ≤ c && c ≤ ch '7' then .digit (c - (ch '2' - 26))
  else if c = ch '=' then .padding
  else .invalid

/-- The loop of `string_base32_decode`: `none` for an invalid character. -/
def base32DecodeLoop (value : BitVec 32) (bitsLeft : Nat) : Str → Option (List Byte)
  | [] => some []
  | c :: rest =>
    match base32Char c with
    | .padding => some []
    | .invalid => none
    | .digit v =>
      let value := value <<< 5 ||| v.toBitVec.setWidth 32
      if 8 ≤ bitsLeft + 5 then
        (base32DecodeLoop value (bitsLeft + 5 - 8) rest).map
          (UInt8.ofBitVec ((value.sshiftRight (bitsLeft + 5 - 8)).setWidth 8) :: ·)
      else base32DecodeLoop value (bitsLeft + 5) rest

/-- The value returned is −1 for an invalid character. -/
def stringBase32Decode (src : Str) : Int × List Byte :=
  match base32DecodeLoop 0 0 src with
  | some to' => (to'.length, to')
  | none => (-1, [])

/-! ## Base64 -/

end Wirc
