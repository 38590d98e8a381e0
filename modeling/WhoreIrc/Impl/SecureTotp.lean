import WhoreIrc.Impl.Base
import WhoreIrc.Impl.StringSplit

/-!
# One-time passwords (`core/wee-secure.c`, `plugins/plugin-api-info.c`)

`secure_totp_validate` and the info `totp_validate`. The keyed hash is a
parameter, and so is the time; libgcrypt and `malloc` do not fail, and numbers
are in memory with their low byte first.
-/

namespace Wirc

/-- HMAC-SHA1: the 20 bytes for a key and a message. -/
abbrev Hmac := (key message : List Byte) → Fin 20 → Byte

def movingFactorSwapped (movingFactor : UInt64) : UInt64 :=
  (movingFactor >>> 56)
    ||| ((movingFactor <<< 40) &&& (0x00FF000000000000 : UInt64))
    ||| ((movingFactor <<< 24) &&& (0x0000FF0000000000 : UInt64))
    ||| ((movingFactor <<< 8) &&& (0x000000FF00000000 : UInt64))
    ||| ((movingFactor >>> 8) &&& (0x00000000FF000000 : UInt64))
    ||| ((movingFactor >>> 24) &&& (0x0000000000FF0000 : UInt64))
    ||| ((movingFactor >>> 40) &&& (0x000000000000FF00 : UInt64))
    ||| (movingFactor <<< 56)

/-- The bytes of a `uint64_t` in memory. -/
def uint64Bytes (n : UInt64) : List Byte :=
  [n.toUInt8, (n >>> 8).toUInt8, (n >>> 16).toUInt8, (n >>> 24).toUInt8, (n >>> 32).toUInt8,
    (n >>> 40).toUInt8, (n >>> 48).toUInt8, (n >>> 56).toUInt8]

/-- `secure_totp_generate_internal`: the code, or `none` if error. -/
def secureTotpGenerateInternal (hmac : Hmac) (secret : List Byte) (movingFactor : UInt64) (digits : Nat) :
    Option Str :=
  let hash := hmac secret (uint64Bytes (movingFactorSwapped movingFactor))
  -- the offset is less than 16
  let offset := (hash 19 &&& 0xF).toNat
  let binCode := ((hash (Fin.ofNat 20 offset) &&& 0x7F).toNat <<< 24)
    ||| ((hash (Fin.ofNat 20 (offset + 1))).toNat <<< 16)
    ||| ((hash (Fin.ofNat 20 (offset + 2))).toNat <<< 8)
    ||| (hash (Fin.ofNat 20 (offset + 3))).toNat
  let result := fmtNatDigits digits (binCode % Nat.pow 10 digits)
  if result.length ≠ digits then none else some result

def secureTotpMinDigits : Int := 4
def secureTotpMaxDigits : Int := 10

/-- `secure_totp_validate`, at the time `now`. The loop does not overflow: times
divided by 30 are far from the largest `uint64_t` (`secureTotpValidateLoop` is
the same with the loop test by test). -/
def secureTotpValidate (hmac : Hmac) (now : Nat) (secretBase32 : Str) (totpTime window : Int) (otp : Str) : Int :=
  if secretBase32 = [] ∨ window < 0 ∨ otp = [] then 0
  else
    let digits := toInt otp.length
    if digits < secureTotpMinDigits ∨ digits > secureTotpMaxDigits then 0
    else
      let (lengthSecret, secret) := stringBase32Decode secretBase32
      if lengthSecret < 0 then 0
      else
        let totpTime := if totpTime = 0 then (now : Int) else totpTime
        let movingFactor := UInt64.ofInt (totpTime.tdiv 30)
        let start := (movingFactor - UInt64.ofInt window).toNat
        let stop := (movingFactor + UInt64.ofInt window).toNat
        if (List.range' start (stop + 1 - start)).any fun i =>
            secureTotpGenerateInternal hmac secret i.toUInt64 digits.toNat = some otp then 1
        else 0

/-- The loop of `secure_totp_validate` from the time step `i` to `stop`, or `none`
if `fuel` is less than its tests. -/
def secureTotpLoop (hmac : Hmac) (secret : List Byte) (digits : Nat) (otp : Str) (stop : UInt64) :
    (fuel : Nat) → (i : UInt64) → Option Int
  | 0, _ => none
  | fuel + 1, i =>
    if i ≤ stop then
      if secureTotpGenerateInternal hmac secret i digits = some otp then some 1
      else secureTotpLoop hmac secret digits otp stop fuel (i + 1)
    else some 0

/-- `secure_totp_validate` with its loop as it is, at the time `now`. -/
def secureTotpValidateLoop (fuel : Nat) (hmac : Hmac) (now : Nat) (secretBase32 : Str) (totpTime window : Int)
    (otp : Str) : Option Int :=
  if secretBase32 = [] ∨ window < 0 ∨ otp = [] then some 0
  else
    let digits := toInt otp.length
    if digits < secureTotpMinDigits ∨ digits > secureTotpMaxDigits then some 0
    else
      let (lengthSecret, secret) := stringBase32Decode secretBase32
      if lengthSecret < 0 then some 0
      else
        let totpTime := if totpTime = 0 then (now : Int) else totpTime
        let movingFactor := UInt64.ofInt (totpTime.tdiv 30)
        secureTotpLoop hmac secret digits.toNat otp (movingFactor + UInt64.ofInt window) fuel
          (movingFactor - UInt64.ofInt window)

/-- `number = (int)strtol (arg, &error, 10)`, or `none` if error. -/
def totpNumber (arg : Str) : Option Int :=
  let (value, error) := strtol arg
  let number := toInt value
  if error ≠ [] ∨ number < 0 then none else some number

/-- The argument `i` as a number, 0 if it is not given. -/
def totpArgument (argv : List Str) (i : Nat) : Option Int :=
  match argv[i]? with
  | some arg => totpNumber arg
  | none => some 0

/-- `plugin_api_info_totp_validate_cb`. -/
def pluginApiInfoTotpValidateCb (hmac : Hmac) (now : Nat) (arguments : Str) : Option Str := do
  let argv ← stringSplit arguments (lit ",") none ⟨true, true, true, false⟩ 0
  let ptrSecret ← argv[0]?
  let ptrOtp ← argv[1]?
  let totpTime ← totpArgument argv 2
  let window ← totpArgument argv 3
  some (fmtInt (secureTotpValidate hmac now ptrSecret totpTime window ptrOtp))

end Wirc
