import WhoreIrc.Proof.StringSplit
import WhoreIrc.Spec.Totp

/-!
# One-time passwords: what the validation accepts

`secure_totp_validate` accepts the codes for the time steps around a time
(`secureTotpValidate_iff`). The info `totp_validate` takes its arguments apart
at the commas (`pluginApiInfoTotpValidateCb_iff`), those of the code included.
-/

namespace Wirc

open Framework

/-! ## Numbers -/

theorem totpNumber_fmtNat {n : Nat} (hn : n < 2147483648) : totpNumber (fmtNat n) = some (n : Int) := by
  have hint : toInt (n : Int) = n := Int.bmod_eq_of_le (by omega) (by omega)
  have hmin : min longMax (n : Int) = n := by
    rw [longMax]
    omega
  simp only [totpNumber, strtol_digits (fmtNat_ne_nil n) (fmtNat_digits n), digitsVal_fmtNat, hmin, hint]
  rw [if_neg (by simp)]

theorem totpNumber_some {s : Str} {x : Int} (h : totpNumber s = some x) : 0 ≤ x ∧ x < 2147483648 := by
  simp only [totpNumber] at h
  split at h
  · cases h
  · rename_i hc
    cases h
    have h1 := @Int.bmod_lt (strtol s).1 4294967296 (by decide)
    have h2 : ¬ toInt (strtol s).1 < 0 := fun h => hc (.inr h)
    exact ⟨Int.not_lt.mp h2, by rw [toInt]; omega⟩

/-! ## Codes -/

theorem secureTotpGenerateInternal_length {hmac : Hmac} {key : List Byte} {step : UInt64} {digits : Nat} {otp : Str}
    (h : secureTotpGenerateInternal hmac key step digits = some otp) : otp.length = digits := by
  simp only [secureTotpGenerateInternal] at h
  split at h
  · cases h
  · rename_i hlen
    cases h
    exact Decidable.not_not.mp hlen

/-- The time steps of the loop. -/
theorem totpSteps_iff {m w : Nat} (hm : m < 1152921504606846976) (hw : w < 2147483648) (i : Nat) :
    i ∈ List.range' (UInt64.ofNat m - UInt64.ofNat w).toNat
        ((UInt64.ofNat m + UInt64.ofNat w).toNat + 1 - (UInt64.ofNat m - UInt64.ofNat w).toNat) ↔
      w ≤ m ∧ m ≤ i + w ∧ i ≤ m + w := by
  have hmn : (UInt64.ofNat m).toNat = m := UInt64.toNat_ofNat'.trans (Nat.mod_eq_of_lt (by omega))
  have hwn : (UInt64.ofNat w).toNat = w := UInt64.toNat_ofNat'.trans (Nat.mod_eq_of_lt (by omega))
  rw [List.mem_range'_1, UInt64.toNat_sub, UInt64.toNat_add, hmn, hwn]
  omega

theorem uint64_ofInt_natCast (n : Nat) : UInt64.ofInt (n : Int) = UInt64.ofNat n := by
  rw [UInt64.ofInt, ← UInt64.toNat_inj, UInt64.toNat_ofNat', UInt64.toNat_ofNat']
  omega

/-- The codes that are accepted, for a time that is not now. -/
theorem secureTotpValidate_iff (hmac : Hmac) {now time window : Nat} {secret otp : Str}
    (hnow : now < 9223372036854775808) (htime : time < 9223372036854775808) (hwindow : window < 2147483648)
    (hsecret : secret ≠ []) (hkey : 0 ≤ (stringBase32Decode secret).1) :
    secureTotpValidate hmac now secret time window otp = 1 ↔
      window ≤ (if time = 0 then now else time) / 30 ∧
        IsCodeNear hmac (stringBase32Decode secret).2 (if time = 0 then now else time) window otp := by
  have hT : (if (time : Int) = 0 then (now : Int) else time) = ((if time = 0 then now else time : Nat) : Int) := by
    split <;> split <;> omega
  have hTlt : (if time = 0 then now else time) < 9223372036854775808 := by split <;> assumption
  rw [secureTotpValidate, hT]
  generalize (if time = 0 then now else time) = T at hTlt
  have hdiv : (T : Int).tdiv 30 = ((T / 30 : Nat) : Int) := rfl
  simp only [hdiv, uint64_ofInt_natCast]
  clear hT hdiv
  constructor
  · intro h
    split at h
    · cases h
    split at h
    · cases h
    rename_i hdigits
    rw [if_neg (Int.not_lt.mpr hkey)] at h
    split at h
    · rename_i hany
      obtain ⟨i, hi, hcode⟩ := List.any_eq_true.mp hany
      obtain ⟨h1, h2, h3⟩ := (totpSteps_iff (by omega) hwindow i).mp hi
      have hcode := of_decide_eq_true hcode
      have hlen := secureTotpGenerateInternal_length hcode
      simp only [secureTotpMinDigits, secureTotpMaxDigits] at hdigits
      refine ⟨h1, i, h2, h3, by omega, by omega, ?_⟩
      rw [hlen]
      exact hcode
    · cases h
  · rintro ⟨hle, i, h2, h3, hmin, hmax, hcode⟩
    have hne : otp ≠ [] := List.ne_nil_of_length_pos (by omega)
    have hint : toInt otp.length = otp.length := Int.bmod_eq_of_le (by omega) (by omega)
    have hargs : ¬ (secret = [] ∨ (window : Int) < 0 ∨ otp = []) := by simp [hsecret, hne]
    have hdigits : ¬ (toInt otp.length < secureTotpMinDigits ∨ toInt otp.length > secureTotpMaxDigits) := by
      rw [hint, secureTotpMinDigits, secureTotpMaxDigits]
      omega
    rw [if_neg hargs, if_neg hdigits, if_neg (Int.not_lt.mpr hkey), if_pos]
    refine List.any_eq_true.mpr ⟨i, (totpSteps_iff (by omega) hwindow i).mpr ⟨hle, h2, h3⟩, decide_eq_true ?_⟩
    rw [hint]
    exact hcode

theorem secureTotpValidate_cases (hmac : Hmac) (now : Nat) (secret : Str) (time window : Int) (otp : Str) :
    secureTotpValidate hmac now secret time window otp = 0 ∨
      secureTotpValidate hmac now secret time window otp = 1 := by
  simp only [secureTotpValidate]
  repeat' split
  all_goals simp

theorem fmtInt_validate (hmac : Hmac) (now : Nat) (secret : Str) (time window : Int) (otp : Str) :
    fmtInt (secureTotpValidate hmac now secret time window otp) = lit "1" ↔
      secureTotpValidate hmac now secret time window otp = 1 := by
  rcases secureTotpValidate_cases hmac now secret time window otp with h | h <;> rw [h] <;> decide

/-! ## The info -/

/-- The info, when the arguments are split. -/
theorem pluginApiInfoTotpValidateCb_split (hmac : Hmac) (now : Nat) {arguments secret otp : Str} {argv : List Str}
    (hsplit : stringSplit arguments (lit ",") none ⟨true, true, true, false⟩ 0 = some (secret :: otp :: argv)) :
    pluginApiInfoTotpValidateCb hmac now arguments =
      (totpArgument argv 0).bind fun time => (totpArgument argv 1).bind fun window =>
        some (fmtInt (secureTotpValidate hmac now secret time window otp)) := by
  unfold pluginApiInfoTotpValidateCb
  rw [hsplit]
  rfl

/-- The arguments of the info, when they are at least four. -/
theorem pluginApiInfoTotpValidateCb_four (hmac : Hmac) {now : Nat} {arguments secret otp t w : Str} {rest : List Str}
    (hnow : now < 9223372036854775808) (hsecret : secret ≠ []) (hkey : 0 ≤ (stringBase32Decode secret).1)
    (hruns : runs (isIn (lit ",")) arguments = secret :: otp :: t :: w :: rest) :
    pluginApiInfoTotpValidateCb hmac now arguments = some (lit "1") ↔
      FieldsAccepted hmac (stringBase32Decode secret).2 now (otp :: t :: w :: rest) := by
  have hsplit := stringSplit_runs arguments (by decide : lit "," ≠ []) true
  rw [hruns, if_neg (List.cons_ne_nil _ _)] at hsplit
  rw [pluginApiInfoTotpValidateCb_split hmac now hsplit]
  simp only [totpArgument, List.getElem?_cons_zero, List.getElem?_cons_succ, Option.bind_eq_some_iff]
  constructor
  · rintro ⟨time, ht, window, hw, h⟩
    have hvalid := (fmtInt_validate ..).mp (Option.some.inj h)
    obtain ⟨ht0, ht1⟩ := totpNumber_some ht
    obtain ⟨hw0, hw1⟩ := totpNumber_some hw
    obtain ⟨time, rfl⟩ := Int.eq_ofNat_of_zero_le ht0
    obtain ⟨window, rfl⟩ := Int.eq_ofNat_of_zero_le hw0
    obtain ⟨hle, hnear⟩ := (secureTotpValidate_iff hmac hnow (by omega) (by omega) hsecret hkey).mp hvalid
    exact .intro ht hw hle hnear
  · rintro (@⟨_, _, _, _, time, window, ht, hw, hle, hnear⟩)
    have ht1 := (totpNumber_some ht).2
    have hw1 := (totpNumber_some hw).2
    refine ⟨time, ht, window, hw, congrArg some ((fmtInt_validate ..).mpr ?_)⟩
    exact (secureTotpValidate_iff hmac hnow (by omega) (by omega) hsecret hkey).mpr ⟨hle, hnear⟩

/-- The commas of the code of a client separate arguments. -/
theorem runs_relayInfoTotpArgs {secret : Str} (hsecret : secret ≠ []) (hcomma : ch ',' ∉ secret) (value : Str)
    (window : Nat) :
    runs (isIn (lit ",")) (relayInfoTotpArgs secret value window) = secret :: totpFields value window := by
  have hsep : isIn (lit ",") (ch ',') = true := by decide
  have hother : ∀ s : Str, ch ',' ∉ s → ∀ c ∈ s, isIn (lit ",") c = false := by
    intro s hs c hc
    have : c ≠ ch ',' := fun h => hs (h ▸ hc)
    simpa [isIn, lit] using this
  have hdigits : ch ',' ∉ fmtNat window := fun h => absurd (fmtNat_digits window _ h) (by decide)
  have hargs : relayInfoTotpArgs secret value window =
      secret ++ ch ',' :: (value ++ ch ',' :: (lit "0" ++ ch ',' :: fmtNat window)) := by
    simp [relayInfoTotpArgs, lit]
  rw [hargs, runs_append_cons _ _ hsep, runs_append_cons _ _ hsep, runs_append_cons _ _ hsep,
    runs_word hsecret (hother secret hcomma), runs_word (by decide) (hother (lit "0") (by decide)),
    runs_word (fmtNat_ne_nil window) (hother _ hdigits)]
  rfl

/-- The info accepts what is accepted as fields. -/
theorem pluginApiInfoTotpValidateCb_iff (hmac : Hmac) {now window : Nat} {secret : Str}
    (hnow : now < 9223372036854775808) (hsecret : secret ≠ []) (hcomma : ch ',' ∉ secret)
    (hkey : 0 ≤ (stringBase32Decode secret).1) (value : Str) :
    pluginApiInfoTotpValidateCb hmac now (relayInfoTotpArgs secret value window) = some (lit "1") ↔
      FieldsAccepted hmac (stringBase32Decode secret).2 now (totpFields value window) := by
  have hruns := runs_relayInfoTotpArgs hsecret hcomma value window
  rw [totpFields] at hruns ⊢
  cases hvalue : runs (isIn (lit ",")) value with
  | nil =>
    -- the time is taken for the code, which is too short
    rw [hvalue, List.nil_append] at hruns
    have hsplit := stringSplit_runs (relayInfoTotpArgs secret value window) (by decide : lit "," ≠ []) true
    rw [hruns, if_neg (List.cons_ne_nil _ _)] at hsplit
    rw [pluginApiInfoTotpValidateCb_split hmac now hsplit]
    constructor
    · intro h
      obtain ⟨time, ht, h⟩ := Option.bind_eq_some_iff.mp h
      obtain ⟨w, hw, h⟩ := Option.bind_eq_some_iff.mp h
      have hvalid := (fmtInt_validate ..).mp (Option.some.inj h)
      have hshort : secureTotpValidate hmac now secret time w (lit "0") = 0 := by
        have hdigits : toInt (lit "0").length < secureTotpMinDigits := by decide
        simp only [secureTotpValidate, hdigits, true_or, if_true, ite_self]
      rw [hshort] at hvalid
      cases hvalid
    · intro h
      cases h
  | cons otp fields =>
    rw [hvalue] at hruns
    cases fields with
    | nil => exact pluginApiInfoTotpValidateCb_four hmac hnow hsecret hkey hruns
    | cons t fields =>
      cases fields with
      | nil => exact pluginApiInfoTotpValidateCb_four hmac hnow hsecret hkey hruns
      | cons w rest => exact pluginApiInfoTotpValidateCb_four hmac hnow hsecret hkey hruns

end Wirc

/-!
# One-time passwords: the window

The loop of the validation ends (`secureTotpLoop_eq`, by induction on the time
steps that remain), and then the result is that of `secureTotpValidate`. Its
first time step is a difference without sign: when the window is larger than
the time step it is beyond the last one, and no code is accepted
(`totp_window_iff`).
-/

namespace Wirc

open Framework

/-- The loop tests the time steps up to the last one, by induction on their
number. -/
theorem secureTotpLoop_eq (hmac : Hmac) (secret : List Byte) (digits : Nat) (otp : Str) {stop : Nat}
    (hstop : stop + 1 < 18446744073709551616) {count start : Nat} (hcount : stop + 1 - start = count)
    (hstart : start < 18446744073709551616) {fuel : Nat} (hfuel : count < fuel) :
    secureTotpLoop hmac secret digits otp (UInt64.ofNat stop) fuel (UInt64.ofNat start) =
      some (if (List.range' start count).any fun i =>
        secureTotpGenerateInternal hmac secret i.toUInt64 digits = some otp then 1 else 0) := by
  have hstopn : (UInt64.ofNat stop).toNat = stop := UInt64.toNat_ofNat'.trans (Nat.mod_eq_of_lt (by omega))
  induction count generalizing start fuel with
  | zero =>
    obtain ⟨fuel, rfl⟩ := Nat.exists_eq_add_of_lt hfuel
    have hstartn : (UInt64.ofNat start).toNat = start := UInt64.toNat_ofNat'.trans (Nat.mod_eq_of_lt hstart)
    have hend : ¬ UInt64.ofNat start ≤ UInt64.ofNat stop := by
      rw [UInt64.le_iff_toNat_le, hstartn, hstopn]
      omega
    rw [secureTotpLoop, if_neg hend]
    rfl
  | succ count ih =>
    obtain ⟨fuel, rfl⟩ : ∃ n, fuel = n + 1 := ⟨fuel - 1, by omega⟩
    have hstartn : (UInt64.ofNat start).toNat = start := UInt64.toNat_ofNat'.trans (Nat.mod_eq_of_lt hstart)
    have hle : UInt64.ofNat start ≤ UInt64.ofNat stop := by
      rw [UInt64.le_iff_toNat_le, hstartn, hstopn]
      omega
    have hnext : UInt64.ofNat start + 1 = UInt64.ofNat (start + 1) := by simp
    rw [secureTotpLoop, if_pos hle, List.range'_succ, List.any_cons]
    by_cases hcode : secureTotpGenerateInternal hmac secret (UInt64.ofNat start) digits = some otp
    · have hcode' : secureTotpGenerateInternal hmac secret start.toUInt64 digits = some otp := hcode
      rw [if_pos hcode, decide_eq_true hcode', Bool.true_or, if_pos rfl]
    · have hcode' : ¬ secureTotpGenerateInternal hmac secret start.toUInt64 digits = some otp := hcode
      rw [if_neg hcode, decide_eq_false hcode', Bool.false_or, hnext]
      exact ih (by omega) (by omega) (by omega)

/-- The validation ends. -/
theorem secureTotpValidateLoop_eq (hmac : Hmac) (now : Nat) (secret otp : Str) {time window : Nat}
    (htime : time < 9223372036854775808) (htime0 : time ≠ 0) (hwindow : window < 2147483648) :
    ∃ fuel, ∀ more ≥ fuel, secureTotpValidateLoop more hmac now secret time window otp =
      some (secureTotpValidate hmac now secret time window otp) := by
  refine ⟨2 * window + 2, fun more hmore => ?_⟩
  have hT : (if (time : Int) = 0 then (now : Int) else time) = (time : Int) := if_neg (by omega)
  have hdiv : (time : Int).tdiv 30 = ((time / 30 : Nat) : Int) := rfl
  simp only [secureTotpValidateLoop, secureTotpValidate, hT, hdiv, uint64_ofInt_natCast]
  have hm : time / 30 < 1152921504606846976 := by omega
  generalize time / 30 = m at hm
  have hmn : (UInt64.ofNat m).toNat = m := UInt64.toNat_ofNat'.trans (Nat.mod_eq_of_lt (by omega))
  have hwn : (UInt64.ofNat window).toNat = window := UInt64.toNat_ofNat'.trans (Nat.mod_eq_of_lt (by omega))
  have hstopn : (UInt64.ofNat m + UInt64.ofNat window).toNat = m + window := by
    rw [UInt64.toNat_add, hmn, hwn]
    omega
  have hcount : m + window + 1 - (UInt64.ofNat m - UInt64.ofNat window).toNat < more := by
    rw [UInt64.toNat_sub, hmn, hwn]
    omega
  have hloop := secureTotpLoop_eq hmac (stringBase32Decode secret).2 (toInt otp.length).toNat otp
    (by omega : m + window + 1 < 18446744073709551616) rfl
    (UInt64.toNat_lt (UInt64.ofNat m - UInt64.ofNat window)) hcount
  have hstop : UInt64.ofNat (m + window) = UInt64.ofNat m + UInt64.ofNat window := by
    rw [← hstopn, UInt64.ofNat_toNat]
  rw [hstop, UInt64.ofNat_toNat] at hloop
  rw [hloop, hstopn]
  split
  · rfl
  split
  · rfl
  split
  · rfl
  · rfl

/-- A result is 1 only for a secret that is a key in base32. -/
theorem secureTotpValidate_secret {hmac : Hmac} {now : Nat} {secret : Str} {time window : Int} {otp : Str}
    (h : secureTotpValidate hmac now secret time window otp = 1) :
    secret ≠ [] ∧ 0 ≤ (stringBase32Decode secret).1 := by
  simp only [secureTotpValidate] at h
  split at h
  · cases h
  rename_i hargs
  split at h
  · cases h
  split at h
  · cases h
  rename_i hkey
  exact ⟨fun hs => hargs (.inl hs), Int.not_lt.mp hkey⟩

/-- The result of the validation, for any secret. -/
theorem secureTotpValidate_one (hmac : Hmac) {now time window : Nat} (secret otp : Str)
    (htime : time < 9223372036854775808) (htime0 : time ≠ 0) (hwindow : window < 2147483648) :
    secureTotpValidate hmac now secret time window otp = 1 ↔
      window ≤ time / 30 ∧ ∃ step, time / 30 ≤ step + window ∧ step ≤ time / 30 + window ∧
        IsSecretCode hmac secret step otp := by
  have hnow : secureTotpValidate hmac now secret time window otp =
      secureTotpValidate hmac 0 secret time window otp := by
    have hne : ¬ (time : Int) = 0 := by omega
    simp only [secureTotpValidate, if_neg hne]
  rw [hnow]
  constructor
  · intro h
    obtain ⟨hsecret, hkey⟩ := secureTotpValidate_secret h
    have hvalid := (secureTotpValidate_iff hmac (by decide) htime hwindow hsecret hkey).mp h
    rw [if_neg htime0] at hvalid
    obtain ⟨hle, step, h1, h2, hcode⟩ := hvalid
    exact ⟨hle, step, h1, h2, hsecret, hkey, hcode⟩
  · rintro ⟨hle, step, h1, h2, hsecret, hkey, hcode⟩
    rw [secureTotpValidate_iff hmac (by decide) htime hwindow hsecret hkey, if_neg htime0]
    exact ⟨hle, step, h1, h2, hcode⟩

/-- The validation accepts exactly the codes of the window, if and only if the
window is not larger than the time step, or the text is no code of the window. -/
theorem totp_window_iff (hmac : Hmac) {now time window : Nat} (secret : Str) {otp : Str}
    (htime : time < 9223372036854775808) (htime0 : 0 < time) (hwindow : window < 2147483648) :
    TotpWindowRight hmac now secret time window otp ↔
      window ≤ time / 30 ∨ ∀ step ≤ time / 30 + window, ¬ IsSecretCode hmac secret step otp := by
  have hne : time ≠ 0 := by omega
  obtain ⟨enough, hloop⟩ := secureTotpValidateLoop_eq hmac now secret otp htime hne hwindow
  have hone := @secureTotpValidate_one hmac now time window secret otp htime hne hwindow
  constructor
  · rintro ⟨result, fuel, hresult, hiff⟩
    have hsame : result = secureTotpValidate hmac now secret time window otp :=
      Option.some.inj ((hresult (max fuel enough) (Nat.le_max_left ..)).symm.trans
        (hloop (max fuel enough) (Nat.le_max_right ..)))
    rw [hsame] at hiff
    by_cases hle : window ≤ time / 30
    · exact .inl hle
    · refine .inr fun step hstep hcode => hle ?_
      -- every time step up to the last is within the window
      exact (hone.mp (hiff.mpr ⟨step, by omega, hstep, hcode⟩)).1
  · intro h
    refine ⟨_, enough, hloop, ?_⟩
    rw [hone]
    constructor
    · exact fun hr => hr.2
    · rintro ⟨step, h1, h2, hcode⟩
      refine ⟨?_, step, h1, h2, hcode⟩
      exact h.elim id fun hnone => absurd hcode (hnone step h2)

theorem totp_window_iff_code :
    TotpWindowRight (fun _ _ _ => 0) 0 (lit "ME") 60 2 (lit "000000") :=
  (totp_window_iff (fun _ _ _ => 0) (lit "ME") (by decide) (by decide) (by decide)).mpr
    (.inl (by decide))

/-- With a window of 2, the code of the time 30 is not accepted at the time 30. -/
theorem totp_window_fails : ¬ TotpWindowRight (fun _ _ _ => 0) 0 (lit "ME") 30 2 (lit "000000") := by
  rintro ⟨result, fuel, hresult, hiff⟩
  obtain ⟨enough, hloop⟩ := @secureTotpValidateLoop_eq (fun _ _ _ => 0) 0 (lit "ME") (lit "000000") 30 2
    (by decide) (by decide) (by decide)
  have hsame := (hresult (max fuel enough) (Nat.le_max_left ..)).symm.trans
    (hloop (max fuel enough) (Nat.le_max_right ..))
  have hzero : secureTotpValidate (fun _ _ _ => 0) 0 (lit "ME") (30 : Nat) (2 : Nat) (lit "000000") = 0 := by
    decide +kernel
  have hcode : IsSecretCode (fun _ _ _ => 0) (lit "ME") 1 (lit "000000") :=
    ⟨by decide, by decide, by decide, by decide, by decide +kernel⟩
  rw [Option.some.inj hsame, hzero] at hiff
  exact absurd (hiff.mpr ⟨1, by decide, by decide, hcode⟩) (by decide)

end Wirc
