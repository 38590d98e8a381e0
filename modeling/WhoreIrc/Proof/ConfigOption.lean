import WhoreIrc.Framework.Run
import WhoreIrc.Proof.CString
import WhoreIrc.Proof.Hashtable
import WhoreIrc.Proof.StringSplit
import WhoreIrc.Spec.ConfigOption

/-!
# Options: bounds of integers, and values that are refused

A change either stores a value, and says whether it differs from the old one
(`Stored`), or leaves the option as it is (`Refused`); only a color that is
refused with no old value does neither (`setValue_cases`). From this:
* `integerBounds_iff`: the runs that keep an integer within its bounds;
* `rejectedUntouched_iff`: the value strings that are handled as values, or
  refused as a whole.
-/

namespace Wirc

open Framework

/-! ## Numbers -/

theorem toInt_ofInt_of_within {min max : Int32} {number : Int} (h : WithinBounds min max number) :
    (Int32.ofInt number).toInt = number := by
  have h1 := min.le_toInt
  have h2 := max.toInt_lt
  obtain ⟨h3, h4⟩ := h
  exact Int32.toInt_ofInt_of_le (by omega) (by omega)

theorem withinBounds_iff {min max v : Int32} : WithinBounds min max v.toInt ↔ min ≤ v ∧ v ≤ max := by
  rw [WithinBounds, Int32.le_iff_toInt_le, Int32.le_iff_toInt_le]

/-- A number within the bounds passes the tests of every syntax. -/
theorem boundsTested_of_within {min max : Int32} {number : Int} (h : WithinBounds min max number) (value : Str) :
    BoundsTested min max value (Int32.ofInt number) := by
  obtain ⟨h1, h2⟩ := withinBounds_iff.mp ((toInt_ofInt_of_within h).symm ▸ h)
  unfold BoundsTested
  split
  · exact h2
  · split
    · exact h1
    · exact ⟨h1, h2⟩

theorem startsWith_iff {s w : Str} : startsWith s w = true ↔ ∃ t, s = w ++ t := by
  rw [startsWith, List.isPrefixOf_iff_prefix]
  exact ⟨fun ⟨t, h⟩ => ⟨t, h.symm⟩, fun ⟨t, h⟩ => ⟨t, h.symm⟩⟩

theorem parseNumber_eq_some {text : Str} {number : Int} :
    parseNumber text = some number ↔ (strtol text).2 = [] ∧ (strtol text).1 = number := by
  unfold parseNumber
  split <;> simp_all

/-- What is read as a number without being one is the empty text. -/
theorem isNumber_of_parseNumber {text : Str} {number : Int} (h : parseNumber text = some number) :
    IsNumber text ∨ text = [] := by
  rcases eq_or_ne text [] with ht | ht
  · exact .inr ht
  · exact .inl ⟨ht, (parseNumber_eq_some.mp h).1⟩

theorem configFileNewInteger_iff {min max v : Int32} {oldValue : Option Int32} {value : Str} :
    configFileNewInteger min max (oldValue.getD 0) value = some v ↔
      ∃ number, denotedNumber oldValue value = some number ∧ BoundsTested min max value (Int32.ofInt number) ∧
        v = Int32.ofInt number := by
  unfold configFileNewInteger denotedNumber BoundsTested
  split
  · cases parseNumber (value.drop 2) with
    | none => simp
    | some n => simp [eq_comm]
  · split
    · cases parseNumber (value.drop 2) with
      | none => simp
      | some n => simp [eq_comm]
    · cases parseNumber value with
      | none => simp
      | some n => simp [eq_comm]

/-! ## What a change does -/

section Changes

variable {t : ConfigOptionType} {α : Type} [DecidableEq α] {old : Option α} {r : ConfigOptionSet × Option α}

/-- A value is stored, and the result says whether it is another one. -/
def Stored (old : Option α) (r : ConfigOptionSet × Option α) : Prop :=
  ∃ v, r = (if old = some v then .okSameValue else .okChanged, some v)

/-- The value is left as it is, with an error. -/
def Refused (old : Option α) (r : ConfigOptionSet × Option α) : Prop := r = (.error, old)

theorem stored_storeInt (old : Option Int32) (v : Int32) : Stored old (configFileStoreInt old v) := by
  refine ⟨v, ?_⟩
  cases old with
  | none => simp [configFileStoreInt]
  | some o =>
    by_cases h : o = v
    · simp [configFileStoreInt, h]
    · simp [configFileStoreInt, h, Ne.symm h]

theorem stored_setString (old : Option Str) (value : Str) : Stored old (configFileSetString old value) := by
  refine ⟨value, ?_⟩
  cases old with
  | none => simp [configFileSetString]
  | some o => by_cases h : o = value <;> simp [configFileSetString, strcmp_order.eq_iff, h]

theorem setBoolean_cases (old : Option Bool) (value : Str) :
    (stringStrcasecmp value (lit "toggle") = 0 ∨ configFileStringBooleanIsValid value = true) ∧
        Stored old (configFileSetBoolean old value) ∨
      ¬ (stringStrcasecmp value (lit "toggle") = 0 ∨ configFileStringBooleanIsValid value = true) ∧
        Refused old (configFileSetBoolean old value) := by
  by_cases htoggle : stringStrcasecmp value (lit "toggle") = 0
  · refine .inl ⟨.inl htoggle, ?_⟩
    cases old with
    | none => exact ⟨true, by simp [configFileSetBoolean, htoggle]⟩
    | some o => exact ⟨!o, by simp [configFileSetBoolean, htoggle]⟩
  · cases hvalid : configFileStringBooleanIsValid value with
    | false =>
      refine .inr ⟨by simp [htoggle], ?_⟩
      cases old <;> simp [Refused, configFileSetBoolean, htoggle, hvalid]
    | true =>
      refine .inl ⟨.inr rfl, configFileStringToBoolean value, ?_⟩
      cases old with
      | none => simp [configFileSetBoolean, htoggle, hvalid]
      | some o =>
        by_cases h : configFileStringToBoolean value = o
        · simp [configFileSetBoolean, htoggle, hvalid, h]
        · simp [configFileSetBoolean, htoggle, hvalid, h, Ne.symm h]

theorem setWord_cases (words : List Str) (max : Int32) (old : Option Int32) (value : Str) :
    0 ≤ configFileWordIndex words max (old.getD 0) value ∧ Stored old (configFileSetWord words max old value) ∨
      ¬ 0 ≤ configFileWordIndex words max (old.getD 0) value ∧ Refused old (configFileSetWord words max old value) := by
  simp only [configFileSetWord]
  split
  · rename_i h
    exact .inl ⟨h, stored_storeInt ..⟩
  · rename_i h
    exact .inr ⟨h, rfl⟩

theorem setInteger_cases (min max : Int32) (old : Option Int32) (value : Str) :
    (∃ v, configFileNewInteger min max (old.getD 0) value = some v ∧
        configFileSetInteger min max old value = configFileStoreInt old v) ∨
      configFileNewInteger min max (old.getD 0) value = none ∧ Refused old (configFileSetInteger min max old value) := by
  unfold configFileSetInteger
  cases h : configFileNewInteger min max (old.getD 0) value with
  | none => exact .inr ⟨rfl, rfl⟩
  | some v => exact .inl ⟨v, rfl, rfl⟩

end Changes

section Set

variable {t : ConfigOptionType} (palette : GuiPalette) (garbage : Int32) (option : ConfigOption t)

theorem configFileOptionSet_stored {value : Str} {v : ConfigValue t} (runCallback : Bool)
    (h : configFileSetValue palette garbage option value =
      (if option.value = some v then .okSameValue else .okChanged, some v)) :
    configFileOptionSet palette garbage option (some value) true runCallback =
      configFileOptionChanged { option with value := some v }
        (if option.value = some v then .okSameValue else .okChanged) runCallback := by
  simp only [configFileOptionSet, h, Bool.not_true, Bool.false_eq_true, if_false, Option.isSome_some, Bool.and_true]
  cases hold : option.value with
  | none => simp
  | some o => simp

theorem configFileOptionSet_refused {value : Str} (runCallback : Bool)
    (h : Refused option.value (configFileSetValue palette garbage option value)) :
    configFileOptionSet palette garbage option (some value) true runCallback = ⟨.error, option, []⟩ := by
  rw [Refused] at h
  simp only [configFileOptionSet, h, Bool.not_true, Bool.false_eq_true, if_false]
  cases hold : option.value with
  | none => simp [configFileOptionChanged, ← hold]
  | some o => simp [configFileOptionChanged, ← hold]

/-- The bounds of an option, its string values and its default value never change. -/
theorem configStep_fixed (op : ConfigOp) :
    (configStep palette garbage option op).stringValues = option.stringValues ∧
      (configStep palette garbage option op).min = option.min ∧
      (configStep palette garbage option op).max = option.max ∧
      (configStep palette garbage option op).defaultValue = option.defaultValue := by
  cases op with
  | set value check runCallback =>
    simp only [configStep, ConfigOp.apply, configFileOptionSet]
    split
    · simp
    · simp [configFileOptionChanged]
  | setNull runCallback =>
    simp only [configStep, ConfigOp.apply, configFileOptionSetNull]
    split
    · split <;> simp [configFileOptionChanged]
    · simp [configFileOptionChanged]
  | reset runCallback =>
    simp only [configStep, ConfigOp.apply, configFileOptionReset]
    split
    · simp [configFileOptionChanged]
    · split
      · split <;> simp [configFileOptionChanged]
      · simp [configFileOptionChanged]

/-- A reset sets the default value. -/
theorem configFileResetValue_snd (value : Option (ConfigValue t)) (default : ConfigValue t) :
    (configFileResetValue value default).2 = some default := by
  have hint : ∀ (value : Option Int32) (default : Int32),
      (configFileResetValue.resetInt value default).2 = some default := fun value default => by
    unfold configFileResetValue.resetInt
    split
    · rename_i heq
      exact congrArg some heq
    · rfl
  cases t with
  | boolean =>
    cases value with
    | none => rfl
    | some v =>
      simp only [configFileResetValue]
      split
      · rename_i heq
        exact congrArg some heq
      · rfl
  | integer => exact hint value default
  | string => rfl
  | color => exact hint value default

/-- The value after a change: the old one, none, the default one, or what is
made of a value string. -/
theorem configStep_value (op : ConfigOp) :
    (configStep palette garbage option op).value = option.value ∨ (configStep palette garbage option op).value = none ∨
      (configStep palette garbage option op).value = option.defaultValue ∨
      ∃ value runCallback, op = .set (some value) true runCallback ∧
        (configStep palette garbage option op).value = (configFileSetValue palette garbage option value).2 := by
  cases op with
  | set value check runCallback =>
    simp only [configStep, ConfigOp.apply, configFileOptionSet]
    cases check with
    | false => exact .inl rfl
    | true =>
      cases value with
      | none =>
        simp only [configFileOptionChanged, Bool.not_true, Bool.false_eq_true, if_false]
        split
        · exact .inr (.inl rfl)
        · exact .inl rfl
      | some value => exact .inr (.inr (.inr ⟨value, runCallback, rfl, rfl⟩))
  | setNull runCallback =>
    simp only [configStep, ConfigOp.apply, configFileOptionSetNull]
    split
    · split
      · exact .inl rfl
      · exact .inr (.inl rfl)
    · exact .inl rfl
  | reset runCallback =>
    simp only [configStep, ConfigOp.apply, configFileOptionReset]
    split
    · rename_i default hdefault
      exact .inr (.inr (.inl ((configFileResetValue_snd option.value default).trans hdefault.symm)))
    · split
      · split
        · exact .inr (.inl rfl)
        · exact .inl rfl
      · exact .inl rfl

end Set

/-! ## Integers within their bounds -/

/-- The default value is within the bounds, if there is one. -/
def ConfigOption.DefaultInBounds (option : ConfigOption .integer) : Prop :=
  ∀ v, option.defaultValue = some v → WithinBounds option.min option.max v.toInt

/-- An option without string values, with its value and its default value
within the bounds. -/
structure ConfigOption.Bounded (option : ConfigOption .integer) : Prop where
  noWords : option.stringValues = none
  value : option.InBounds
  default : option.DefaultInBounds

theorem configFileInitValue_within (palette : GuiPalette) {min max : Int32} (h : min ≤ max) (text : Str) :
    WithinBounds min max (configFileInitValue palette .integer none min max text).toInt := by
  have hle := Int32.le_iff_toInt_le.mp h
  simp only [configFileInitValue]
  split
  · exact ⟨Int.le_refl _, hle⟩
  · split
    · exact ⟨hle, Int.le_refl _⟩
    · have hin : WithinBounds min max ((parseNumber text).getD 0) := ⟨by omega, by omega⟩
      rw [toInt_ofInt_of_within hin]
      exact hin

theorem configFileNewOption_some {palette : GuiPalette} {options : Option (List AnyOption)} {args : ConfigOptionArgs}
    {option : AnyOption} (hnew : configFileNewOption palette options args = some option) :
    ∃ stringValues defaultValue value, configFileStringValues option.1 args.stringValues = some stringValues ∧
      option.2 = configFileInitOption palette args (configFileOptionName args.name) options.isSome option.1
        stringValues defaultValue value := by
  simp only [configFileNewOption] at hnew
  split at hnew
  · cases hnew
  · split at hnew
    · cases hnew
    · split at hnew
      · cases hnew
      · split at hnew
        · cases hnew
        · rename_i _ _ _ defaultValue value _ _ stringValues hvalues
          cases hnew
          exact ⟨stringValues, defaultValue, value, hvalues, rfl⟩

theorem bounded_newOption {palette : GuiPalette} {options : Option (List AnyOption)} {args : ConfigOptionArgs}
    {option : ConfigOption .integer} (hnew : configFileNewOption palette options args = some ⟨.integer, option⟩)
    (hwords : option.stringValues = none) (hbounds : args.min ≤ args.max) : option.Bounded := by
  obtain ⟨stringValues, defaultValue, value, -, heq⟩ := configFileNewOption_some hnew
  replace heq : option = configFileInitOption palette args (configFileOptionName args.name) options.isSome .integer
    stringValues defaultValue value := heq
  subst heq
  obtain rfl : stringValues = none := hwords
  refine ⟨rfl, fun v hv => ?_, fun v hv => ?_⟩
  · obtain ⟨text, -, rfl⟩ := Option.map_eq_some_iff.mp hv
    exact configFileInitValue_within palette hbounds text
  · obtain ⟨text, -, rfl⟩ := Option.map_eq_some_iff.mp hv
    exact configFileInitValue_within palette hbounds text

section Bounds

variable {palette : GuiPalette} {garbage : Int32} {option : ConfigOption .integer}

/-- A change that stores no new value keeps the bounds. -/
theorem inBounds_step (h : option.Bounded) {op : ConfigOp}
    (hop : ∀ value runCallback, op ≠ .set (some value) true runCallback) :
    (configStep palette garbage option op).InBounds := by
  obtain ⟨-, hmin, hmax, -⟩ := configStep_fixed palette garbage option op
  intro v hv
  rw [hmin, hmax]
  rcases configStep_value palette garbage option op with h1 | h1 | h1 | ⟨value, runCallback, h1, -⟩
  · exact h.value v (h1 ▸ hv)
  · rw [h1] at hv
    cases hv
  · exact h.default v (h1 ▸ hv)
  · exact absurd h1 (hop value runCallback)

/-- A value string that the check callback lets through. -/
theorem boundsKept_set (h : option.Bounded) (value : Str) (runCallback : Bool) :
    BoundsKept palette garbage option (.set (some value) true runCallback) ↔
      NumberFits option (.set (some value) true runCallback) := by
  have hset : configFileSetValue palette garbage option value =
      configFileSetInteger option.min option.max option.value value := by
    simp only [configFileSetValue, h.noWords]
  rcases setInteger_cases option.min option.max option.value value with ⟨v, hv, hstore⟩ | ⟨hv, hrefused⟩
  · obtain ⟨number, hnumber, htested, rfl⟩ := configFileNewInteger_iff.mp hv
    obtain ⟨v, hstored⟩ := stored_storeInt option.value (Int32.ofInt number)
    obtain rfl : v = Int32.ofInt number := (Option.some.inj (congrArg Prod.snd hstored)).symm
    have hchange := configFileOptionSet_stored palette garbage option runCallback (hset.trans (hstore.trans hstored))
    simp only [BoundsKept, NumberFits, ConfigOp.apply, hchange, configFileOptionChanged]
    constructor
    · rintro ⟨-, hreject⟩ number' - hnumber'
      obtain rfl : number = number' := Option.some.inj (hnumber.symm.trans hnumber')
      refine .inl (Classical.byContradiction fun hout => ?_)
      have := hreject value true runCallback number rfl hnumber hout
      split at this <;> cases this
    · intro hfits
      have hin := (hfits number trivial hnumber).resolve_right fun hno => hno htested
      refine ⟨fun v hv => ?_, ?_⟩
      · obtain rfl := Option.some.inj hv
        rw [toInt_ofInt_of_within hin]
        exact hin
      · intro value' check runCallback' number' hop hnumber' hout
        obtain rfl : value = value' := by injection hop with h1; exact Option.some.inj h1
        obtain rfl : number = number' := Option.some.inj (hnumber.symm.trans hnumber')
        exact absurd hin hout
  · have hchange := configFileOptionSet_refused palette garbage option runCallback (hset ▸ hrefused)
    simp only [BoundsKept, NumberFits, ConfigOp.apply, hchange, implies_true, and_true]
    refine ⟨fun _ number _ hnumber => .inr fun htested => ?_, fun _ => h.value⟩
    have := configFileNewInteger_iff.mpr ⟨number, hnumber, htested, rfl⟩
    rw [hv] at this
    cases this

theorem boundsKept_iff (h : option.Bounded) (op : ConfigOp) :
    BoundsKept palette garbage option op ↔ NumberFits option op := by
  cases op with
  | set value check runCallback =>
    cases value with
    | none => exact iff_of_true ⟨inBounds_step h nofun, nofun⟩ trivial
    | some value =>
      cases check with
      | false => exact iff_of_true ⟨inBounds_step h nofun, fun _ _ _ _ _ _ _ => rfl⟩ nofun
      | true => exact boundsKept_set h value runCallback
  | setNull runCallback => exact iff_of_true ⟨inBounds_step h nofun, nofun⟩ trivial
  | reset runCallback => exact iff_of_true ⟨inBounds_step h nofun, nofun⟩ trivial

theorem bounded_step (h : option.Bounded) {op : ConfigOp} (hkept : BoundsKept palette garbage option op) :
    (configStep palette garbage option op).Bounded := by
  obtain ⟨hwords, hmin, hmax, hdefault⟩ := configStep_fixed palette garbage option op
  refine ⟨hwords.trans h.noWords, hkept.1, fun v hv => ?_⟩
  rw [hmin, hmax]
  exact h.default v (hdefault ▸ hv)

end Bounds

/-- A run keeps an integer option within its bounds, and rejects the numbers
outside of them, if and only if each number given to it is within the bounds or
does not pass the tests on them as an `int`. -/
theorem integerBounds_iff (palette : GuiPalette) (garbage : Int32) {options : Option (List AnyOption)}
    {args : ConfigOptionArgs} {option : ConfigOption .integer}
    (hnew : configFileNewOption palette options args = some ⟨.integer, option⟩)
    (hwords : option.stringValues = none) (hbounds : args.min ≤ args.max) (ops : List ConfigOp) :
    (option.InBounds ∧ ∀ before op after, ops = before ++ op :: after →
        BoundsKept palette garbage (configRun palette garbage option before) op) ↔
      ∀ before op after, ops = before ++ op :: after → NumberFits (configRun palette garbage option before) op := by
  have h := bounded_newOption hnew hwords hbounds
  rw [and_iff_right h.value]
  have hstep : ∀ option op, ConfigOption.Bounded option → BoundsKept palette garbage option op →
      (configStep palette garbage option op).Bounded := fun _ _ h hkept => bounded_step h hkept
  have hcongr := along_congr hstep (fun _ op h => boundsKept_iff h op) h ops
  rw [along_iff, along_iff] at hcongr
  exact hcongr

/-! ## Values that are refused -/

section Rejected

variable {palette : GuiPalette} {garbage : Int32} {t : ConfigOptionType} {option : ConfigOption t} {value : Str}

/-- A stored value is handled as one should be, if it is one. -/
theorem rejectedUntouched_stored (runCallback : Bool)
    (h : Stored option.value (configFileSetValue palette garbage option value)) :
    RejectedUntouched palette garbage option value true runCallback ↔ ValidValue palette option value := by
  obtain ⟨v, hv⟩ := h
  simp only [RejectedUntouched, configFileOptionSet_stored palette garbage option runCallback hv,
    configFileOptionChanged]
  by_cases hsame : option.value = some v
  · simp [hsame]
  · simp [hsame, Ne.symm hsame]

/-- A refused value leaves the option as it is. -/
theorem rejectedUntouched_refused (runCallback : Bool)
    (h : Refused option.value (configFileSetValue palette garbage option value)) :
    RejectedUntouched palette garbage option value true runCallback := by
  simp [RejectedUntouched, configFileOptionSet_refused palette garbage option runCallback h]

/-- An error that leaves memory behind as the value is returned as a change. -/
theorem rejectedUntouched_leaked {v : ConfigValue t} (runCallback : Bool) (hold : option.value = none)
    (h : configFileSetValue palette garbage option value = (.error, some v)) :
    RejectedUntouched palette garbage option value true runCallback ↔ ValidValue palette option value := by
  simp [RejectedUntouched, configFileOptionSet, h, hold, configFileOptionChanged]

end Rejected

theorem wordIndex_step {words : List Str} {max old : Int32} (hmax : max.toInt + 1 = words.length)
    (hold : 0 ≤ old.toInt ∧ old.toInt < words.length) :
    Int32.ofInt (old.toInt.tmod (max.toInt + 1)) = old ∧
      Int32.ofInt ((old.toInt + (max.toInt + 1)).tmod (max.toInt + 1)) = old := by
  have h1 : old.toInt.tmod (max.toInt + 1) = old.toInt := Int.tmod_eq_of_lt hold.1 (hmax ▸ hold.2)
  have h2 : (old.toInt + (max.toInt + 1)).tmod (max.toInt + 1) = old.toInt := by
    rw [Int.tmod_eq_emod_of_nonneg (by omega), Int.add_emod_right, Int.emod_eq_of_lt hold.1 (hmax ▸ hold.2)]
  rw [h1, h2]
  exact ⟨Int32.ofInt_toInt old, Int32.ofInt_toInt old⟩

theorem drop_plus {value rest : Str} (h : value = lit "++" ++ rest) : value.drop 2 = rest := by
  rw [h]
  rfl

theorem drop_minus {value rest : Str} (h : value = lit "--" ++ rest) : value.drop 2 = rest := by
  rw [h]
  rfl

/-- An index is found for a value, or for `++` and `--` without a number. -/
theorem valid_of_wordIndex {words : List Str} {max old : Int32} {value : Str}
    (h : 0 ≤ configFileWordIndex words max old value) :
    ((∃ number, (value = lit "++" ++ number ∨ value = lit "--" ++ number) ∧ IsNumber number) ∨
      ∃ word ∈ words, stringStrcasecmp word value = 0) ∨ value = lit "++" ∨ value = lit "--" := by
  have hneg : ¬ (0 : Int32) ≤ -1 := by decide
  unfold configFileWordIndex at h
  split at h
  · rename_i hplus
    obtain ⟨rest, hrest⟩ := startsWith_iff.mp hplus
    rw [drop_plus hrest] at h
    cases hparse : parseNumber rest with
    | none => rw [hparse] at h; exact absurd h hneg
    | some number =>
      rcases isNumber_of_parseNumber hparse with hnumber | hnil
      · exact .inl (.inl ⟨rest, .inl hrest, hnumber⟩)
      · exact .inr (.inl (by rw [hrest, hnil, List.append_nil]))
  · split at h
    · rename_i hminus
      obtain ⟨rest, hrest⟩ := startsWith_iff.mp hminus
      rw [drop_minus hrest] at h
      cases hparse : parseNumber rest with
      | none => rw [hparse] at h; exact absurd h hneg
      | some number =>
        rcases isNumber_of_parseNumber hparse with hnumber | hnil
        · exact .inl (.inl ⟨rest, .inr hrest, hnumber⟩)
        · exact .inr (.inr (by rw [hrest, hnil, List.append_nil]))
    · cases hfind : words.findIdx? fun word => stringStrcasecmp word value = 0 with
      | none => rw [hfind] at h; exact absurd h hneg
      | some i =>
        obtain ⟨hi, hword, -⟩ := List.findIdx?_eq_some_iff_getElem.mp hfind
        exact .inl (.inr ⟨words[i], List.getElem_mem hi, by simpa using hword⟩)

/-- `++` and `--` without a number are read as 0. -/
theorem wordIndex_no_number {words : List Str} {max old : Int32} (hmax : max.toInt + 1 = words.length)
    (hold : 0 ≤ old.toInt ∧ old.toInt < words.length) {value : Str} (hvalue : value = lit "++" ∨ value = lit "--") :
    configFileWordIndex words max old value = old := by
  obtain ⟨h1, h2⟩ := wordIndex_step hmax hold
  have hzero : (0 : Int).tmod (max.toInt + 1) = 0 := Int.zero_tmod _
  have hparse : parseNumber [] = some 0 := by decide
  rcases hvalue with rfl | rfl
  · simp only [configFileWordIndex, (by decide : startsWith (lit "++") (lit "++") = true),
      (by decide : (lit "++").drop 2 = []), hparse, hzero, Int.add_zero, if_true, h1]
  · simp only [configFileWordIndex, (by decide : startsWith (lit "--") (lit "++") = false),
      (by decide : startsWith (lit "--") (lit "--") = true), (by decide : (lit "--").drop 2 = []), hparse, hzero,
      Int.sub_zero, if_true, Bool.false_eq_true, if_false, h2]

/-- A color is found for a value, or for `++` and `--` without a number. -/
theorem valid_of_newColor {palette : GuiPalette} {option : ConfigOption .color} {value : Str} {v : Int32}
    (h : configFileNewColor palette (option.value.getD 0) value = some v) :
    ValidValue palette option value ∨ (value = lit "++" ∨ value = lit "--") ∧
      (guiColorAssignByDiff palette (guiColorGetName palette (option.value.getD 0)) 0).isSome := by
  simp only [ValidValue]
  unfold configFileNewColor at h
  split at h
  · rename_i hplus
    obtain ⟨rest, hrest⟩ := startsWith_iff.mp hplus
    rw [drop_plus hrest] at h ⊢
    cases hparse : parseNumber rest with
    | none => rw [hparse] at h; cases h
    | some number =>
      rw [hparse] at h
      obtain ⟨hend, hnumber⟩ := parseNumber_eq_some.mp hparse
      rcases isNumber_of_parseNumber hparse with hno | rfl
      · exact .inl (by rw [if_pos hplus, hnumber]; exact ⟨hno, Option.isSome_of_mem h⟩)
      · obtain rfl : 0 = number := hnumber
        exact .inr ⟨.inl (by rw [hrest, List.append_nil]), Option.isSome_of_mem h⟩
  · rename_i hplus
    split at h
    · rename_i hminus
      obtain ⟨rest, hrest⟩ := startsWith_iff.mp hminus
      rw [drop_minus hrest] at h ⊢
      cases hparse : parseNumber rest with
      | none => rw [hparse] at h; cases h
      | some number =>
        rw [hparse] at h
        obtain ⟨hend, hnumber⟩ := parseNumber_eq_some.mp hparse
        rcases isNumber_of_parseNumber hparse with hno | rfl
        · exact .inl (by rw [if_neg hplus, if_pos hminus, hnumber]; exact ⟨hno, Option.isSome_of_mem h⟩)
        · obtain rfl : 0 = number := hnumber
          exact .inr ⟨.inr (by rw [hrest, List.append_nil]), Option.isSome_of_mem h⟩
    · rename_i hminus
      exact .inl (by rw [if_neg hplus, if_neg hminus]; exact Option.isSome_of_mem h)

theorem newColor_no_number {palette : GuiPalette} {old : Int32} {value : Str}
    (hvalue : value = lit "++" ∨ value = lit "--") :
    configFileNewColor palette old value = guiColorAssignByDiff palette (guiColorGetName palette old) 0 := by
  rcases hvalue with rfl | rfl <;> rfl

section Outcome

variable (palette : GuiPalette) (garbage : Int32) {t : ConfigOptionType} (option : ConfigOption t) (value : Str)

/-- A string is stored as a value, refused, or, with no value before, neither. -/
def Outcome : Prop :=
  Stored option.value (configFileSetValue palette garbage option value) ∧
      (ValidValue palette option value ∨ Misread palette option value) ∨
    Refused option.value (configFileSetValue palette garbage option value) ∧ ¬ Misread palette option value ∨
    option.value = none ∧ Misread palette option value ∧
      ∃ v, configFileSetValue palette garbage option value = (.error, some v)

theorem outcome_integer (option : ConfigOption .integer) (hvalues : option.stringValues = none) :
    Outcome palette garbage option value := by
  have hset : configFileSetValue palette garbage option value =
      configFileSetInteger option.min option.max option.value value := by
    simp only [configFileSetValue, hvalues]
  simp only [Outcome, hset, Misread, hvalues]
  rcases setInteger_cases option.min option.max option.value value with ⟨v, hv, h⟩ | ⟨hv, h⟩
  · obtain ⟨number, hnumber, htested, -⟩ := configFileNewInteger_iff.mp hv
    exact .inl ⟨h ▸ stored_storeInt .., .inr ⟨number, hnumber, htested⟩⟩
  · refine .inr (.inl ⟨h, ?_⟩)
    rintro ⟨number, hnumber, htested⟩
    have := configFileNewInteger_iff.mpr ⟨number, hnumber, htested, rfl⟩
    rw [hv] at this
    cases this

theorem outcome_words (option : ConfigOption .integer) {words : List Str} (hvalues : option.stringValues = some words)
    (hwords : option.WordsIndexed) : Outcome palette garbage option value := by
  have hset : configFileSetValue palette garbage option value =
      configFileSetWord words option.max option.value value := by
    simp only [configFileSetValue, hvalues]
  obtain ⟨hne, hmax, hindex, -⟩ := hwords words hvalues
  have hold : 0 ≤ (option.value.getD 0).toInt ∧ (option.value.getD 0).toInt < words.length := by
    cases hold : option.value with
    | none => exact ⟨by decide, by simpa using List.length_pos_iff.mpr hne⟩
    | some v => exact hindex v hold
  simp only [Outcome, hset, ValidValue, Misread, hvalues]
  rcases setWord_cases words option.max option.value value with ⟨h0, h⟩ | ⟨h0, h⟩
  · exact .inl ⟨h, valid_of_wordIndex h0⟩
  · refine .inr (.inl ⟨h, fun hmis => ?_⟩)
    rw [wordIndex_no_number hmax hold hmis, Int32.le_iff_toInt_le] at h0
    exact h0 hold.1

theorem outcome_color (option : ConfigOption .color) : Outcome palette garbage option value := by
  cases hv : configFileNewColor palette (option.value.getD 0) value with
  | some v =>
    have hset : configFileSetValue palette garbage option value = configFileStoreInt option.value v := by
      simp only [configFileSetValue, configFileSetColor, hv]
    exact .inl ⟨hset ▸ stored_storeInt .., (valid_of_newColor hv).imp_right .inr⟩
  | none =>
    have hset : configFileSetValue palette garbage option value = (.error, some (option.value.getD garbage)) := by
      simp only [configFileSetValue, configFileSetColor, hv]
    cases hold : option.value with
    | some old =>
      refine .inr (.inl ⟨by rw [Refused, hset, hold]; rfl, ?_⟩)
      rintro (hnone | ⟨hmis, hsome⟩)
      · rw [hold] at hnone
        cases hnone
      · rw [← newColor_no_number hmis, hv] at hsome
        cases hsome
    -- the memory for the value is not freed
    | none => exact .inr (.inr ⟨hold, .inl hold, _, hset⟩)

theorem setValue_cases (hwords : option.WordsIndexed) : Outcome palette garbage option value := by
  cases t with
  | boolean =>
    rcases setBoolean_cases option.value value with ⟨hvalid, h⟩ | ⟨-, h⟩
    · exact .inl ⟨h, .inl hvalid⟩
    · exact .inr (.inl ⟨h, nofun⟩)
  | integer =>
    cases hvalues : option.stringValues with
    | none => exact outcome_integer palette garbage value option hvalues
    | some words => exact outcome_words palette garbage value option hvalues hwords
  | string => exact .inl ⟨stored_setString option.value value, .inl trivial⟩
  | color => exact outcome_color palette garbage value option

end Outcome

/-- The change of an option to a value string is right if and only if the check
callback refuses the string, or the string is a value, or the code does not
misread it. -/
theorem rejectedUntouched_iff (palette : GuiPalette) (garbage : Int32) {t : ConfigOptionType} (option : ConfigOption t)
    (hwords : option.WordsIndexed) (value : Str) (check runCallback : Bool) :
    RejectedUntouched palette garbage option value check runCallback ↔
      (check = true → ValidValue palette option value ∨ ¬ Misread palette option value) := by
  cases check with
  | false => simp [RejectedUntouched, configFileOptionSet]
  | true =>
    rw [forall_prop_of_true rfl]
    rcases setValue_cases palette garbage option value hwords with ⟨h, hor⟩ | ⟨h, hno⟩ | ⟨hold, hmis, v, hv⟩
    · rw [rejectedUntouched_stored runCallback h]
      tauto
    · exact iff_of_true (rejectedUntouched_refused runCallback h) (.inr hno)
    · rw [rejectedUntouched_leaked runCallback hold hv]
      tauto

/-! ## Indices of words in every run -/

section Indices

variable {words : List Str} {max : Int32}

theorem toInt_ofInt_tmod (hne : words ≠ []) (hmax : max.toInt + 1 = words.length) {x : Int}
    (hx : 0 ≤ Int32.ofInt (x.tmod (max.toInt + 1))) :
    0 ≤ (Int32.ofInt (x.tmod (max.toInt + 1))).toInt ∧ (Int32.ofInt (x.tmod (max.toInt + 1))).toInt < words.length := by
  have hlen := max.toInt_lt
  have hpos : 0 < max.toInt + 1 := by
    have := List.length_pos_iff.mpr hne
    omega
  have h1 := Int.tmod_lt_of_pos x hpos
  have h2 := Int.lt_tmod_of_pos x hpos
  have heq := @Int32.toInt_ofInt_of_le (x.tmod (max.toInt + 1)) (by omega) (by omega)
  rw [Int32.le_iff_toInt_le] at hx
  rw [heq] at hx ⊢
  exact ⟨hx, hmax ▸ h1⟩

/-- What is found as an index is one. -/
theorem indexOf_wordIndex (hne : words ≠ []) (hmax : max.toInt + 1 = words.length) (old : Int32) (value : Str)
    (h : 0 ≤ configFileWordIndex words max old value) :
    IndexOf words (some (configFileWordIndex words max old value)) := by
  have hneg : ¬ (0 : Int32) ≤ -1 := by decide
  have hlen := max.toInt_lt
  intro v hv
  obtain rfl := Option.some.inj hv
  revert h
  unfold configFileWordIndex
  split
  · split
    · exact toInt_ofInt_tmod hne hmax
    · exact fun h => absurd h hneg
  · split
    · split
      · exact toInt_ofInt_tmod hne hmax
      · exact fun h => absurd h hneg
    · split
      · rename_i i hfind
        obtain ⟨hi, -⟩ := List.findIdx?_eq_some_iff_getElem.mp hfind
        rw [Int32.toInt_ofNat_of_lt (by omega)]
        exact fun _ => ⟨by omega, by omega⟩
      · exact fun h => absurd h hneg

theorem indexOf_initValue (palette : GuiPalette) (min max : Int32) (hne : words ≠ []) (hlen : words.length ≤ 2147483648)
    (text : Option Str) : IndexOf words (text.map (configFileInitValue palette .integer (some words) min max)) := by
  intro v hv
  obtain ⟨text, -, rfl⟩ := Option.map_eq_some_iff.mp hv
  have hpos := List.length_pos_iff.mpr hne
  simp only [configFileInitValue]
  cases hfind : words.findIdx? fun word => stringStrcasecmp word text = 0 with
  | none => exact ⟨by decide, by simpa using hpos⟩
  | some i =>
    obtain ⟨hi, -⟩ := List.findIdx?_eq_some_iff_getElem.mp hfind
    rw [Option.getD_some, Int32.toInt_ofNat_of_lt (by omega)]
    omega

end Indices

/-- The string values of an option are not empty, and there are less of them
than bytes in the string they come from. -/
theorem configFileStringValues_words {text : Option Str} {words : List Str}
    (h : configFileStringValues .integer text = some (some words))
    (hlen : ∀ s, text = some s → s.length < 2147483648) : words ≠ [] ∧ words.length ≤ 2147483648 := by
  unfold configFileStringValues at h
  split at h
  · rename_i c s _
    obtain ⟨words, hwords, heq⟩ := Option.map_eq_some_iff.mp h
    obtain rfl := Option.some.inj heq
    rw [stringSplit_runs (c :: s) (by decide) true] at hwords
    split at hwords
    · cases hwords
    · rename_i hne
      obtain rfl := Option.some.inj hwords
      have h1 := hlen _ rfl
      have h2 := @runs_length_le _ (isIn (lit "|")) (c :: s)
      exact ⟨hne, by omega⟩
  · cases h

theorem wordsIndexed_newOption {palette : GuiPalette} {options : Option (List AnyOption)} {args : ConfigOptionArgs}
    {option : AnyOption} (hnew : configFileNewOption palette options args = some option)
    (hlen : ∀ s, args.stringValues = some s → s.length < 2147483648) : option.2.WordsIndexed := by
  obtain ⟨stringValues, defaultValue, value, hvalues, heq⟩ := configFileNewOption_some hnew
  obtain ⟨t, option⟩ := option
  simp only at hvalues heq
  cases t with
  | boolean => trivial
  | string => trivial
  | color => trivial
  | integer =>
    intro words hwords
    subst heq
    obtain rfl : stringValues = some words := hwords
    obtain ⟨hne, hle⟩ := configFileStringValues_words hvalues hlen
    have hpos := List.length_pos_iff.mpr hne
    refine ⟨hne, ?_, indexOf_initValue palette args.min args.max hne hle value,
      indexOf_initValue palette args.min args.max hne hle defaultValue⟩
    simp only [configFileInitOption, configFileBounds, if_neg hne]
    rw [Int32.toInt_ofInt_of_le (by omega) (by omega)]
    omega

theorem wordsIndexed_step (palette : GuiPalette) (garbage : Int32) {t : ConfigOptionType} (option : ConfigOption t)
    (op : ConfigOp) (h : option.WordsIndexed) : (configStep palette garbage option op).WordsIndexed := by
  cases t with
  | boolean => trivial
  | string => trivial
  | color => trivial
  | integer =>
    obtain ⟨hvalues, -, hmax, hdefault⟩ := configStep_fixed palette garbage option op
    intro words hwords
    obtain ⟨hne, hlast, hvalue, hdef⟩ := h words (hvalues ▸ hwords)
    refine ⟨hne, hmax ▸ hlast, ?_, hdefault ▸ hdef⟩
    rcases configStep_value palette garbage option op with h1 | h1 | h1 | ⟨value, runCallback, -, h1⟩
    · exact h1 ▸ hvalue
    · rw [h1]
      exact nofun
    · exact h1 ▸ hdef
    · have hset : configFileSetValue palette garbage option value =
          configFileSetWord words option.max option.value value := by
        simp only [configFileSetValue, hvalues ▸ hwords]
      rw [h1, hset, configFileSetWord]
      split
      · rename_i h0
        exact indexOf_wordIndex hne hlast _ value h0
      · exact hvalue

/-- Every option that is created and changed keeps the indices of its words. -/
theorem wordsIndexed_run {palette : GuiPalette} {options : Option (List AnyOption)} {args : ConfigOptionArgs}
    {option : AnyOption} (hnew : configFileNewOption palette options args = some option)
    (hlen : ∀ s, args.stringValues = some s → s.length < 2147483648) (garbage : Int32) (ops : List ConfigOp) :
    (configRun palette garbage option.2 ops).WordsIndexed :=
  foldl_invariant (wordsIndexed_step palette garbage) (wordsIndexed_newOption hnew hlen) ops

/-- The palette without aliases. -/
def plainPalette : GuiPalette :=
  { hashAlias := fun _ => none, colorAlias := fun _ => none, listWithAlias := guiWeechatColors }

/-- An option between 0 and 10. -/
def smallIntegerArgs : ConfigOptionArgs :=
  { name := lit "size", type := lit "integer", stringValues := none, min := 0, max := 10,
    defaultValue := some (lit "5"), value := none, nullValueAllowed := false, callbackChange := true }

def smallInteger : ConfigOption .integer :=
  { name := lit "size", stringValues := none, min := 0, max := 10, defaultValue := some 5, value := some 5,
    nullValueAllowed := false, callbackChange := true, inSection := false, loaded := true }

theorem configFileNewOption_small :
    configFileNewOption plainPalette none smallIntegerArgs = some ⟨.integer, smallInteger⟩ := by
  decide +kernel

theorem integerBounds_iff_small :
    (smallInteger.InBounds ∧ ∀ before op after, [ConfigOp.set (some (lit "++3")) true true] = before ++ op :: after →
        BoundsKept plainPalette 0 (configRun plainPalette 0 smallInteger before) op) ↔
      ∀ before op after, [ConfigOp.set (some (lit "++3")) true true] = before ++ op :: after →
        NumberFits (configRun plainPalette 0 smallInteger before) op :=
  integerBounds_iff plainPalette 0 configFileNewOption_small rfl (by decide) _

/-- `++-20` goes below the minimum: only the maximum is tested. -/
theorem integerBounds_fails :
    ¬ ∀ (palette : GuiPalette) (garbage : Int32) (options : Option (List AnyOption)) (args : ConfigOptionArgs)
      (option : ConfigOption .integer) (ops : List ConfigOp),
      configFileNewOption palette options args = some ⟨.integer, option⟩ → option.stringValues = none →
      args.min ≤ args.max →
      option.InBounds ∧ ∀ before op after, ops = before ++ op :: after →
        BoundsKept palette garbage (configRun palette garbage option before) op := by
  intro h
  have hkept := (h plainPalette 0 none smallIntegerArgs smallInteger [.set (some (lit "++-20")) true true]
    configFileNewOption_small rfl (by decide)).2 [] _ [] rfl
  have hvalue : (configStep plainPalette 0 smallInteger (.set (some (lit "++-20")) true true)).value = some (-15) := by
    decide
  have hmin := (hkept.1 _ hvalue).1
  revert hmin
  decide

theorem rejectedUntouched_iff_small :
    RejectedUntouched plainPalette 0 smallInteger (lit "12") true true ↔
      (true = true → ValidValue plainPalette smallInteger (lit "12") ∨ ¬ Misread plainPalette smallInteger (lit "12")) :=
  rejectedUntouched_iff plainPalette 0 smallInteger nofun (lit "12") true true

/-- An option without a value, of type color. -/
def noColorArgs : ConfigOptionArgs :=
  { name := lit "color", type := lit "color", stringValues := none, min := 0, max := 0, defaultValue := none,
    value := none, nullValueAllowed := true, callbackChange := true }

def noColor : ConfigOption .color :=
  { name := lit "color", stringValues := none, min := 0, max := 16, defaultValue := none, value := none,
    nullValueAllowed := true, callbackChange := true, inSection := false, loaded := true }

/-- A word that is no color gives a value to a color without one. -/
theorem rejectedUntouched_fails :
    ¬ ∀ (palette : GuiPalette) (garbage : Int32) (options : Option (List AnyOption)) (args : ConfigOptionArgs)
      (option : AnyOption) (value : Str) (check runCallback : Bool),
      configFileNewOption palette options args = some option →
      RejectedUntouched palette garbage option.2 value check runCallback := by
  intro h
  have hnew : configFileNewOption plainPalette none noColorArgs = some ⟨.color, noColor⟩ := by decide +kernel
  have hcolor : guiColorAssign plainPalette (lit "purple") = none := by decide +kernel
  have hinvalid : ¬ ValidValue plainPalette noColor (lit "purple") := by
    rw [ValidValue, if_neg (by decide), if_neg (by decide), hcolor]
    decide
  have hrc : (configFileOptionSet plainPalette 7 noColor (some (lit "purple")) true true).rc = .okChanged := by
    decide +kernel
  have := ((h plainPalette 7 none noColorArgs ⟨.color, noColor⟩ (lit "purple") true true hnew).1 hinvalid).1
  rw [hrc] at this
  cases this

end Wirc
