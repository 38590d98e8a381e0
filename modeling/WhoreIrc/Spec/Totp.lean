import WhoreIrc.Framework.Runs
import WhoreIrc.Impl.Base
import WhoreIrc.Impl.RelayWeechat

/-!
# One-time passwords of a client

What it means that a text is a code of a key (`IsCode`), and a code for a time
step near a time (`IsCodeNear`). `FieldsAccepted` is the same for a list of
texts in which the time and the window come after the code.
-/

namespace Wirc

open Framework

/-- The text is the code of the key for a time step. -/
structure IsCode (hmac : Hmac) (key : List Byte) (step : Nat) (otp : Str) : Prop where
  minDigits : 4 ≤ otp.length
  maxDigits : otp.length ≤ 10
  code : secureTotpGenerateInternal hmac key step.toUInt64 otp.length = some otp

/-- The text is the code for one of the time steps within `window` of that of
`time`. -/
def IsCodeNear (hmac : Hmac) (key : List Byte) (time window : Nat) (otp : Str) : Prop :=
  ∃ step, time / 30 ≤ step + window ∧ step ≤ time / 30 + window ∧ IsCode hmac key step otp

/-- The text is the code of a secret in base32 for a time step. -/
structure IsSecretCode (hmac : Hmac) (secret : Str) (step : Nat) (otp : Str) : Prop where
  nonempty : secret ≠ []
  base32 : 0 ≤ (stringBase32Decode secret).1
  code : IsCode hmac (stringBase32Decode secret).2 step otp

/-- The validation ends, and its result is 1 if and only if the text is the code
for one of the time steps within `window` of that of `time`. -/
def TotpWindowRight (hmac : Hmac) (now : Nat) (secret : Str) (time window : Nat) (otp : Str) : Prop :=
  ∃ result fuel, (∀ more ≥ fuel, secureTotpValidateLoop more hmac now secret time window otp = some result) ∧
    (result = 1 ↔ ∃ step, time / 30 ≤ step + window ∧ step ≤ time / 30 + window ∧
      IsSecretCode hmac secret step otp)

/-- The first text is a code for a time and a window that are the next ones,
where the time 0 is `now`. -/
inductive FieldsAccepted (hmac : Hmac) (key : List Byte) (now : Nat) : List Str → Prop
  | intro {otp t w : Str} {rest : List Str} {time window : Nat} : totpNumber t = some (time : Int) →
      totpNumber w = some (window : Int) → window ≤ (if time = 0 then now else time) / 30 →
      IsCodeNear hmac key (if time = 0 then now else time) window otp →
      FieldsAccepted hmac key now (otp :: t :: w :: rest)

/-- The value of an option `totp=…`. -/
def totpValue (option : Str) : Option Str :=
  match strchr option (ch '=') with
  | some ptr => if strndup option (off option ptr) = lit "totp" then some ptr.tail else none
  | none => none

/-- The values of the `totp` options of a command `init`. -/
def totpValues (argvEol0 : Str) : List Str := (relayInitOptions argvEol0).filterMap totpValue

/-- The fields that a value makes: its runs between commas, then the time 0 and
the configured window. -/
def totpFields (value : Str) (window : Nat) : List Str :=
  runs (isIn (lit ",")) value ++ [lit "0", fmtNat window]

/-!
## The base32 of RFC 4648

The bits of the bytes, the most significant first, are taken by five. Zero bits
are added to the last group, and `=` up to a multiple of eight characters.
-/

end Wirc
