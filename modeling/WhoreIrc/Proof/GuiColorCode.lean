import WhoreIrc.Proof.CString
import WhoreIrc.Proof.Utf8
import WhoreIrc.Spec.GuiColorCode

/-!
# When a code is removed whole

A string without codes is left as it is (`decode_plain`). What is removed of a code
depends on the digits that are left of the foreground after its attributes: the digits
are taken from what follows when there are too few (`decodeFg_extended`,
`decodeFg_basic`), and are left when there are too many.
-/

namespace Wirc

/-! ## Strings without codes -/

theorem NoColorCode.drop {text : Str} (h : NoColorCode text) (count : Nat) : NoColorCode (text.drop count) :=
  fun c hc => h c (List.mem_of_mem_drop hc)

theorem NoColorCode.append {s t : Str} (hs : NoColorCode s) (ht : NoColorCode t) : NoColorCode (s ++ t) := by
  intro c hc
  rcases List.mem_append.mp hc with hc | hc
  · exact hs c hc
  · exact ht c hc

/-- The loop copies a string without codes, when `out` is large enough. -/
theorem decodeLoop_plain (replacement : Str) {outLength : Nat} {string : Str} (h : NoColorCode string) {out : Str}
    (hlength : out.length + string.length < outLength) :
    guiColorDecodeLoop replacement outLength string out = out ++ string := by
  induction hsize : string.length using Nat.strong_induction_on generalizing string out with
  | _ size ih =>
    cases string with
    | nil => rw [guiColorDecodeLoop, List.append_nil]
    | cons c string =>
      obtain ⟨hcolor, hset, hremove, hreset⟩ := h c List.mem_cons_self
      have hpos := utf8CharSize_pos (c :: string)
      rw [List.length_cons] at hlength hsize
      rw [guiColorDecodeLoop, if_pos (by omega), if_neg hcolor, if_neg (not_or.mpr ⟨hset, hremove⟩), if_neg hreset]
      have hdrop : ((c :: string).drop (utf8CharSize (c :: string))).length < size := by
        rw [List.length_drop, List.length_cons]
        omega
      have hsum : (out ++ (c :: string).take (utf8CharSize (c :: string))).length +
          ((c :: string).drop (utf8CharSize (c :: string))).length < outLength := by
        have hsplit := congrArg List.length (List.take_append_drop (utf8CharSize (c :: string)) (c :: string))
        rw [List.length_append, List.length_cons] at hsplit
        rw [List.length_append]
        omega
      dsimp only
      rw [ih _ hdrop (h.drop _) hsum rfl, List.append_assoc, List.take_append_drop]

theorem decode_plain {string : Str} (h : NoColorCode string) (replacement : Option Str) :
    guiColorDecode string replacement = string := by
  rw [guiColorDecode, decodeLoop_plain _ h (by rw [List.length_nil]; omega), List.nil_append]

/-- The code at the beginning is removed, and what is left has no codes. -/
theorem decode_color {rest left : Str} (hrest : guiColorDecodeColor rest = left) (hleft : NoColorCode left) :
    guiColorDecode (guiColorColorChar :: rest) none = left := by
  have hle := guiColorDecodeColor_length_le rest
  rw [hrest] at hle
  rw [guiColorDecode, guiColorDecodeLoop, if_pos (by rw [List.length_nil, List.length_cons]; omega), if_pos rfl, hrest]
  rw [decodeLoop_plain _ hleft (by
    rw [Option.getD_none, List.take_nil, List.append_nil, List.length_nil, List.length_cons]
    omega)]
  rfl

theorem decode_attr {c d : Byte} (hc : c = guiColorSetAttrChar ∨ c = guiColorRemoveAttrChar) {text : Str}
    (h : NoColorCode text) : guiColorDecode (c :: d :: text) none = text := by
  have hcolor : c ≠ guiColorColorChar := by
    rcases hc with rfl | rfl
    · decide
    · decide
  rw [guiColorDecode, guiColorDecodeLoop, if_pos (by rw [List.length_nil, List.length_cons]; omega), if_neg hcolor,
    if_pos hc, List.tail_cons]
  rw [decodeLoop_plain _ h (by
    rw [Option.getD_none, List.take_nil, List.append_nil, List.length_nil, List.length_cons, List.length_cons]
    omega)]
  rfl

theorem decode_reset {text : Str} (h : NoColorCode text) : guiColorDecode (guiColorResetChar :: text) none = text := by
  rw [guiColorDecode, guiColorDecodeLoop, if_pos (by rw [List.length_nil, List.length_cons]; omega), if_neg (by decide),
    if_neg (by decide), if_pos rfl]
  rw [decodeLoop_plain _ h (by
    rw [Option.getD_none, List.take_nil, List.append_nil, List.length_nil, List.length_cons]
    omega)]
  rfl

/-- The codes of attributes and of special colors are removed. -/
theorem decode_customCode {text : Str} (h : NoColorCode text) :
    ∀ code ∈ guiColorCustomCodes, guiColorDecode (snprintf 96 code.2 ++ text) none = text := by
  rw [guiColorCustomCodes]
  simp only [List.forall_mem_cons]
  exact ⟨decode_reset h, decode_color rfl h, decode_color rfl h, decode_attr (.inl rfl) h, decode_attr (.inr rfl) h,
    decode_attr (.inl rfl) h, decode_attr (.inr rfl) h, decode_attr (.inl rfl) h, decode_attr (.inr rfl) h,
    decode_attr (.inl rfl) h, decode_attr (.inr rfl) h, decode_color rfl h, decode_color rfl h, decode_color rfl h, nofun⟩

/-! ## Colors -/

theorem skipBytes_append {count : Nat} {s t : Str} (h : s.length = count) : skipBytes count (s ++ t) = t := by
  rw [skipBytes, if_pos (by rw [List.length_append]; omega), ← h, List.drop_left]

/-- The attributes are skipped, up to a byte that is none. -/
theorem dropWhile_attrs {attrs body : Str} (hattrs : ∀ c ∈ attrs, isColorAttr c = true)
    (hbody : ∀ c ∈ body.head?, isColorAttr c = false) : (attrs ++ body).dropWhile isColorAttr = body := by
  rw [List.dropWhile_append_of_pos hattrs]
  cases body with
  | nil => rfl
  | cons c body =>
    rw [List.dropWhile_cons_of_neg]
    rw [hbody c rfl]
    exact Bool.false_ne_true

theorem decodeFg_extended {attrs body : Str} (hattrs : ∀ c ∈ attrs, isColorAttr c = true)
    (hbody : ∀ c ∈ body.head?, isColorAttr c = false) :
    guiColorDecodeFg (guiColorExtendedChar :: (attrs ++ body)) = skipBytes 5 body := by
  rw [guiColorDecodeFg, if_pos rfl, dropWhile_attrs hattrs hbody]

theorem decodeFg_basic {attrs body : Str} (hattrs : ∀ c ∈ attrs, isColorAttr c = true)
    (hbody : ∀ c ∈ body.head?, isColorAttr c = false) (hfirst : (attrs ++ body).head? ≠ some guiColorExtendedChar) :
    guiColorDecodeFg (attrs ++ body) = skipBytes 2 body := by
  have hdrop := dropWhile_attrs hattrs hbody
  cases hall : attrs ++ body with
  | nil =>
    obtain ⟨-, rfl⟩ := List.append_eq_nil_iff.mp hall
    rfl
  | cons c string =>
    rw [hall] at hdrop hfirst
    rw [guiColorDecodeFg, if_neg (fun heq => hfirst (congrArg some heq)), hdrop]

/-! ## What is written -/

set_option maxRecDepth 10000 in
theorem isColorAttr_digit {c : Byte} (h : isdigit c = true) : isColorAttr c = false := by
  revert h
  exact byte_forall (P := fun c => isdigit c = true → isColorAttr c = false) (by decide) c

/-- The digits of a color of the foreground, after the attributes. -/
structure FgWritten (attrs kept colorFg : Str) (color : GuiCustomColor) : Prop where
  written : colorFg = (match color with | .terminal _ => [guiColorExtendedChar] | _ => []) ++ (attrs ++ kept)
  attrs : ∀ c ∈ attrs, isColorAttr c = true
  digits : ∀ c ∈ kept, isdigit c = true
  ne_nil : colorFg ≠ []
  short : colorFg.length ≤ 31

theorem customFg_written {attrs : Str} (hattrs : ∀ c ∈ attrs, isColorAttr c = true) {color : GuiCustomColor}
    (hcolor : color ≠ .unknown) :
    ∃ attrs' kept, FgWritten attrs' kept (guiColorCustomFg attrs color) color ∧
      kept.length = fgDigitsKept attrs.length color := by
  have hshort : ∀ s, (snprintf 32 s).length ≤ 31 := fun s => by
    rw [snprintf, List.length_take]
    omega
  cases color with
  | terminal number =>
    refine ⟨attrs.take 30, (fmtNatDigits 5 number).take (30 - attrs.length), ⟨?_, ?_, ?_, ?_, hshort _⟩, ?_⟩
    · rw [guiColorCustomFg, snprintf, List.take_succ_cons, List.take_append]
      rfl
    · exact fun c hc => hattrs c (List.mem_of_mem_take hc)
    · exact fun c hc => fmtNatDigits_digits _ _ c (List.mem_of_mem_take hc)
    · exact List.cons_ne_nil _ _
    · rw [List.length_take, fgDigitsKept, Nat.min_comm]
  | basic index =>
    refine ⟨attrs.take 31, (fmtNatDigits 2 index).take (31 - attrs.length), ⟨?_, ?_, ?_, ?_, hshort _⟩, ?_⟩
    · rw [guiColorCustomFg, snprintf, List.take_append]
      rfl
    · exact fun c hc => hattrs c (List.mem_of_mem_take hc)
    · exact fun c hc => fmtNatDigits_digits _ _ c (List.mem_of_mem_take hc)
    · intro hnil
      have hlength := congrArg List.length hnil
      have hpos := List.length_pos_of_ne_nil (fmtNatDigits_ne_nil 2 index)
      rw [guiColorCustomFg, snprintf, List.length_take, List.length_append, List.length_nil] at hlength
      omega
    · rw [List.length_take, fgDigitsKept, Nat.min_comm]
  | unknown => exact absurd rfl hcolor

/-- What is left after the foreground, when what follows is no attribute. -/
theorem FgWritten.removed {attrs kept colorFg rest : Str} {color : GuiCustomColor} (h : FgWritten attrs kept colorFg color)
    (hrest : kept = [] → ∀ c ∈ rest.head?, isColorAttr c = false) (hcolor : color ≠ .unknown) :
    guiColorDecodeFg (colorFg ++ rest) = skipBytes (colorDigits color) (kept ++ rest) := by
  have hbody : ∀ c ∈ (kept ++ rest).head?, isColorAttr c = false := by
    cases hkept : kept with
    | nil => exact hrest hkept
    | cons d kept' =>
      rintro c hc
      cases hc
      exact isColorAttr_digit (h.digits d (hkept ▸ List.mem_cons_self))
  cases color with
  | terminal number =>
    have hextended := decodeFg_extended h.attrs hbody
    rw [h.written, List.append_assoc, List.append_assoc]
    exact hextended
  | basic index =>
    have hwritten : colorFg = attrs ++ kept := h.written
    rw [hwritten, List.append_assoc]
    refine decodeFg_basic h.attrs hbody fun hfirst => ?_
    -- the first byte is an attribute or a digit
    have hne := hwritten ▸ h.ne_nil
    rw [← List.append_assoc] at hfirst
    cases hall : attrs ++ kept with
    | nil => exact hne hall
    | cons c string =>
      rw [hall] at hfirst
      cases hfirst
      have hmem : guiColorExtendedChar ∈ attrs ++ kept := hall ▸ List.mem_cons_self
      rcases List.mem_append.mp hmem with hmem | hmem
      · exact absurd (h.attrs _ hmem) (by decide)
      · exact absurd (h.digits _ hmem) (by decide)
  | unknown => exact absurd rfl hcolor

/-- The index of a basic color has two digits. -/
def IndexShort : GuiCustomColor → Prop
  | .basic index => index < 100
  | _ => True

theorem customColor_short (palette : GuiPalette) (name : Option Str) : IndexShort (guiColorCustomColor palette name) := by
  have hnumber : ∀ str, IndexShort (guiColorCustomColor.numberOrName str) := by
    intro str
    rw [guiColorCustomColor.numberOrName]
    split
    · trivial
    · split
      · rename_i index hindex
        obtain ⟨hlt, -⟩ := List.findIdx?_eq_some_iff_getElem.mp hindex
        exact Nat.lt_trans hlt (by decide)
      · trivial
  cases name with
  | none => trivial
  | some str =>
    rw [guiColorCustomColor]
    split
    · split
      · trivial
      · exact hnumber str
    · exact hnumber str

/-- The digits that are left of the background. -/
def bgDigitsLeft : GuiCustomColor → Str
  | .terminal number => ((fmtNatDigits 5 number).take 30).drop 5
  | _ => []

theorem index_length {index : Nat} (h : index < 100) : (fmtNatDigits 2 index).length = 2 :=
  Nat.le_antisymm (fmtNatDigits_length_le (by decide) (Nat.le_refl 2) h) (fmtNatDigits_length_ge 2 index)

theorem bgDigitsLeft_nil_iff (color : GuiCustomColor) : bgDigitsLeft color = [] ↔ BgFits color := by
  cases color with
  | terminal number =>
    have hlength := fmtNatDigits_length_ge 5 number
    rw [bgDigitsLeft, BgFits, List.drop_eq_nil_iff, List.length_take]
    omega
  | basic index => exact iff_of_true rfl trivial
  | unknown => exact iff_of_true rfl trivial

/-- The background is removed, up to the digits that are too many. -/
theorem customBg_removed {color : GuiCustomColor} (hcolor : color ≠ .unknown) (hshort : IndexShort color) (text : Str) :
    guiColorDecodeBg (guiColorCustomBg color ++ text) = bgDigitsLeft color ++ text ∧
      guiColorDecodeSeparator (ch '~' :: (guiColorCustomBg color ++ text)) = bgDigitsLeft color ++ text := by
  cases color with
  | terminal number =>
    have hlength := fmtNatDigits_length_ge 5 number
    have hkept : 5 ≤ ((fmtNatDigits 5 number).take 30).length := by
      rw [List.length_take]
      omega
    have hbg : guiColorCustomBg (.terminal number) ++ text =
        guiColorExtendedChar :: ((fmtNatDigits 5 number).take 30 ++ text) := by
      rw [guiColorCustomBg, snprintf, List.take_succ_cons, List.cons_append]
    have hdrop : ((fmtNatDigits 5 number).take 30 ++ text).drop 5 = bgDigitsLeft (.terminal number) ++ text :=
      List.drop_append_of_le_length hkept
    have hall : 5 ≤ ((fmtNatDigits 5 number).take 30 ++ text).length := by
      rw [List.length_append]
      omega
    rw [hbg]
    constructor
    · rw [guiColorDecodeBg, if_pos rfl, skipBytes, if_pos hall, hdrop]
    · rw [guiColorDecodeSeparator, if_pos (.inr rfl), List.head?_cons, if_pos rfl, if_pos (by
        rw [List.length_cons]
        omega), List.drop_succ_cons, hdrop]
  | basic index =>
    have hlength := index_length hshort
    obtain ⟨d, e, hdigits⟩ := List.length_eq_two.mp hlength
    have hfirst : d ≠ guiColorExtendedChar := by
      rintro rfl
      exact absurd (fmtNatDigits_digits 2 index _ (hdigits ▸ List.mem_cons_self)) (by decide)
    have hbg : guiColorCustomBg (.basic index) ++ text = d :: e :: text := by
      rw [guiColorCustomBg, snprintf, hdigits]
      rfl
    have htwo : 2 ≤ (d :: e :: text).length := Nat.le_add_left 2 _
    rw [hbg]
    constructor
    · rw [guiColorDecodeBg, if_neg hfirst, skipBytes, if_pos htwo]
      rfl
    · rw [guiColorDecodeSeparator, if_pos (.inr rfl), List.head?_cons, if_neg (fun heq => hfirst (Option.some.inj heq)),
        if_pos htwo]
      rfl
  | unknown => exact absurd rfl hcolor

/-- The bytes of the background. -/
theorem customBg_bytes (color : GuiCustomColor) :
    (∀ c ∈ guiColorCustomBg color, c = guiColorExtendedChar ∨ isdigit c = true) ∧
      (guiColorCustomBg color).length ≤ 31 ∧ (color ≠ .unknown → 2 ≤ (guiColorCustomBg color).length) := by
  have hshort : ∀ s, (snprintf 32 s).length ≤ 31 := fun s => by
    rw [snprintf, List.length_take]
    omega
  cases color with
  | terminal number =>
    refine ⟨fun c hc => ?_, hshort _, fun _ => ?_⟩
    · rcases List.mem_cons.mp (List.mem_of_mem_take hc) with rfl | hc
      · exact .inl rfl
      · exact .inr (fmtNatDigits_digits _ _ c hc)
    · have := fmtNatDigits_length_ge 5 number
      rw [guiColorCustomBg, snprintf, List.length_take, List.length_cons]
      omega
  | basic index =>
    refine ⟨fun c hc => .inr (fmtNatDigits_digits _ _ c (List.mem_of_mem_take hc)), hshort _, fun _ => ?_⟩
    have := fmtNatDigits_length_ge 2 index
    rw [guiColorCustomBg, snprintf, List.length_take]
    omega
  | unknown => exact ⟨nofun, Nat.zero_le _, fun h => absurd rfl h⟩

theorem separator_other {c : Byte} (h : c = guiColorExtendedChar ∨ isdigit c = true) (string : Str) :
    guiColorDecodeSeparator (c :: string) = c :: string := by
  rw [guiColorDecodeSeparator, if_neg]
  rintro (rfl | rfl)
  · exact absurd h (by decide)
  · exact absurd h (by decide)

/-! ## The code of two colors -/

theorem noColorCode_of_digits {s : Str} (h : ∀ c ∈ s, c = guiColorExtendedChar ∨ isdigit c = true) : NoColorCode s := by
  intro c hc
  rcases h c hc with rfl | hdigit
  · decide
  · refine ⟨?_, ?_, ?_, ?_⟩
    all_goals
      rintro rfl
      exact absurd hdigit (by decide)

variable {fg bg : GuiCustomColor} {attrs : Str}

/-- The code of the colors, after its first char. -/
def colorsBody (attrs : Str) (fg bg : GuiCustomColor) : Str :=
  if bg = .unknown then guiColorFgChar :: guiColorCustomFg attrs fg
  else if fg = .unknown then guiColorBgChar :: guiColorCustomBg bg
  else guiColorFgBgChar :: (guiColorCustomFg attrs fg ++ ch '~' :: guiColorCustomBg bg)

theorem decodeColor_fg (text : Str) : guiColorDecodeColor (colorsBody attrs fg .unknown ++ text) =
    guiColorDecodeFg (guiColorCustomFg attrs fg ++ text) := by
  rw [colorsBody, if_pos rfl, List.cons_append, guiColorDecodeColor, if_pos rfl]

theorem decodeColor_bg (hbg : bg ≠ .unknown) (text : Str) : guiColorDecodeColor (colorsBody attrs .unknown bg ++ text) =
    guiColorDecodeBg (guiColorCustomBg bg ++ text) := by
  rw [colorsBody, if_neg hbg, if_pos rfl, List.cons_append, guiColorDecodeColor, if_neg (by decide), if_pos rfl]

theorem decodeColor_both (hfg : fg ≠ .unknown) (hbg : bg ≠ .unknown) (text : Str) :
    guiColorDecodeColor (colorsBody attrs fg bg ++ text) = guiColorDecodeSeparator
      (guiColorDecodeFg (guiColorCustomFg attrs fg ++ ch '~' :: (guiColorCustomBg bg ++ text))) := by
  rw [colorsBody, if_neg hbg, if_neg hfg, List.cons_append, guiColorDecodeColor, if_neg (by decide), if_neg (by decide),
    if_pos rfl, List.append_assoc, List.cons_append]

/-- What is left of the digits of the foreground and of what follows them. -/
theorem decodeFg_custom (hattrs : ∀ c ∈ attrs, isColorAttr c = true) (hfg : fg ≠ .unknown) {rest : Str}
    (hrest : ∀ c ∈ rest.head?, isColorAttr c = false ∨ fgDigitsKept attrs.length fg = colorDigits fg) :
    ∃ kept : Str, (∀ c ∈ kept, isdigit c = true) ∧ kept.length = fgDigitsKept attrs.length fg ∧
      guiColorDecodeFg (guiColorCustomFg attrs fg ++ rest) = skipBytes (colorDigits fg) (kept ++ rest) := by
  obtain ⟨attrs', kept, hwritten, hlength⟩ := customFg_written hattrs hfg
  refine ⟨kept, hwritten.digits, hlength, hwritten.removed (fun hnil c hc => (hrest c hc).resolve_right fun hfits => ?_) hfg⟩
  rw [hnil, hfits] at hlength
  cases fg with
  | terminal number => cases hlength
  | basic index => cases hlength
  | unknown => exact hfg rfl

/-- The code is removed whole when the colors fit. -/
theorem colors_removed (hattrs : ∀ c ∈ attrs, isColorAttr c = true) (hshort : IndexShort bg)
    (hfits : fgDigitsKept attrs.length fg = colorDigits fg) (hbg : BgFits bg) (hsome : fg ≠ .unknown ∨ bg ≠ .unknown)
    (text : Str) : guiColorDecodeColor (colorsBody attrs fg bg ++ text) = text := by
  have hleft : bgDigitsLeft bg = [] := (bgDigitsLeft_nil_iff bg).mpr hbg
  have hfg : fg ≠ .unknown → ∀ rest, guiColorDecodeFg (guiColorCustomFg attrs fg ++ rest) = rest := by
    intro hknown rest
    obtain ⟨kept, -, hlength, hremoved⟩ := @decodeFg_custom _ _ hattrs hknown rest fun _ _ => .inr hfits
    rw [hremoved, skipBytes_append (hlength.trans hfits)]
  by_cases hbgUnknown : bg = .unknown
  · subst hbgUnknown
    rw [decodeColor_fg, hfg (hsome.resolve_right (not_not.mpr rfl))]
  · have hremoved := customBg_removed hbgUnknown hshort text
    rw [hleft, List.nil_append] at hremoved
    by_cases hfgUnknown : fg = .unknown
    · subst hfgUnknown
      rw [decodeColor_bg hbgUnknown, hremoved.1]
    · rw [decodeColor_both hfgUnknown hbgUnknown, hfg hfgUnknown, hremoved.2]

/-! ## Codes that do not fit -/

/-- A text that begins with a separator. -/
def separatorText : Str := lit "~abcdef"

theorem separatorText_plain : NoColorCode separatorText := by
  rw [NoColorCode]
  decide

theorem separator_plain {string : Str} (h : NoColorCode string) : NoColorCode (guiColorDecodeSeparator string) := by
  cases string with
  | nil => exact h
  | cons c string =>
    have hrest : NoColorCode string := fun d hd => h d (List.mem_cons_of_mem c hd)
    rw [guiColorDecodeSeparator]
    split
    · split
      · split
        · exact hrest.drop 6
        · exact h
      · split
        · exact hrest.drop 2
        · exact h
    · exact h

/-- Bytes of the text are taken with the separator. -/
theorem separator_shorter (count : Nat) : (guiColorDecodeSeparator (separatorText.drop count)).length < separatorText.length := by
  cases count with
  | zero => decide
  | succ count =>
    refine (guiColorDecodeSeparator_length_le _).trans_lt ?_
    rw [List.length_drop]
    exact Nat.sub_lt (by decide) (Nat.succ_pos count)

/-- Another text is left. -/
structure LeavesOther (left : Str) : Prop where
  other : left ≠ separatorText
  plain : NoColorCode left

theorem leavesOther_of_length {left : Str} (hlength : left.length ≠ separatorText.length) (hplain : NoColorCode left) :
    LeavesOther left :=
  ⟨fun h => hlength (congrArg List.length h), hplain⟩

theorem noColorCode_digits {s : Str} (h : ∀ c ∈ s, isdigit c = true) : NoColorCode s :=
  noColorCode_of_digits fun c hc => .inr (h c hc)

/-- Digits of the background are left before the text. -/
theorem leavesOther_digits {color : GuiCustomColor} (h : ¬ BgFits color) : LeavesOther (bgDigitsLeft color ++ separatorText) := by
  have hne : bgDigitsLeft color ≠ [] := fun hnil => h ((bgDigitsLeft_nil_iff color).mp hnil)
  have hpos := List.length_pos_of_ne_nil hne
  refine leavesOther_of_length (by rw [List.length_append]; omega) (.append (noColorCode_digits ?_) separatorText_plain)
  cases color with
  | terminal number => exact fun c hc => fmtNatDigits_digits _ _ c (List.mem_of_mem_take (List.mem_of_mem_drop hc))
  | basic index => exact absurd trivial h
  | unknown => exact absurd trivial h

/-- A byte of a color and what follows it are left. -/
theorem leavesOther_colors {colors : Str} (hcolors : ∀ c ∈ colors, c = guiColorExtendedChar ∨ isdigit c = true)
    (hne : colors ≠ []) {rest : Str} (hrest : NoColorCode rest) (hlength : separatorText.length ≤ rest.length) :
    LeavesOther (guiColorDecodeSeparator (colors ++ rest)) := by
  cases colors with
  | nil => exact absurd rfl hne
  | cons c colors =>
    rw [List.cons_append, separator_other (hcolors c List.mem_cons_self)]
    refine leavesOther_of_length ?_ (NoColorCode.append (noColorCode_of_digits hcolors) hrest)
    rw [List.length_cons, List.length_append]
    omega

/-- Too few or too many digits of the foreground, before the separator and the background. -/
theorem leavesOther_both {kept colors : Str} {count : Nat} (hkept : ∀ c ∈ kept, isdigit c = true)
    (hcount : kept.length ≠ count) (hle : count ≤ 5)
    (hcolors : ∀ c ∈ colors, c = guiColorExtendedChar ∨ isdigit c = true) :
    LeavesOther (guiColorDecodeSeparator (skipBytes count (kept ++ ch '~' :: (colors ++ separatorText)))) := by
  have hplain : NoColorCode (colors ++ separatorText) := .append (noColorCode_of_digits hcolors) separatorText_plain
  have hseven : separatorText.length = 7 := rfl
  have hall : count ≤ (kept ++ ch '~' :: (colors ++ separatorText)).length := by
    rw [List.length_append, List.length_cons, List.length_append]
    omega
  rw [skipBytes, if_pos hall]
  rcases Nat.lt_or_gt_of_ne hcount with hlt | hgt
  · -- bytes are taken from what follows the digits
    obtain ⟨more, hmore⟩ : ∃ more, count = kept.length + (more + 1) := ⟨count - kept.length - 1, by omega⟩
    rw [hmore, ← List.drop_drop, List.drop_left, List.drop_succ_cons]
    by_cases hbefore : more < colors.length
    · rw [List.drop_append_of_le_length hbefore.le]
      refine leavesOther_colors (fun c hc => hcolors c (List.mem_of_mem_drop hc)) ?_ separatorText_plain (Nat.le_refl _)
      exact fun hnil => absurd (List.drop_eq_nil_iff.mp hnil) (Nat.not_le_of_lt hbefore)
    · obtain ⟨after, rfl⟩ := Nat.exists_eq_add_of_le (Nat.le_of_not_lt hbefore)
      rw [← List.drop_drop, List.drop_left]
      exact leavesOther_of_length (Nat.ne_of_lt (separator_shorter after)) (separator_plain (separatorText_plain.drop after))
  · -- digits are left before the separator
    rw [List.drop_append_of_le_length (Nat.le_of_lt hgt)]
    refine leavesOther_colors (fun c hc => .inr (hkept c (List.mem_of_mem_drop hc))) ?_ ?_ ?_
    · exact fun hnil => absurd (List.drop_eq_nil_iff.mp hnil) (Nat.not_le_of_lt hgt)
    · intro c hc
      rcases List.mem_cons.mp hc with rfl | hc
      · decide
      · exact hplain c hc
    · rw [List.length_cons, List.length_append]
      omega

/-- The code is not removed whole when the colors do not fit. -/
theorem colors_left (hattrs : ∀ c ∈ attrs, isColorAttr c = true) (hshort : IndexShort bg)
    (hnot : ¬ (fgDigitsKept attrs.length fg = colorDigits fg ∧ BgFits bg)) :
    LeavesOther (guiColorDecodeColor (colorsBody attrs fg bg ++ separatorText)) := by
  have hfive : colorDigits fg ≤ 5 := by
    cases fg with
    | terminal number => exact Nat.le_refl 5
    | basic index => exact Nat.le_add_left 2 3
    | unknown => exact Nat.zero_le 5
  have hseven : separatorText.length = 7 := rfl
  have hhead : ∀ {rest : Str} {P : Prop}, ∀ c ∈ (ch '~' :: rest).head?, isColorAttr c = false ∨ P := by
    rintro rest P c hc
    cases hc
    exact .inl (by decide)
  by_cases hfgUnknown : fg = .unknown
  · subst hfgUnknown
    have hbg : ¬ BgFits bg := fun h => hnot ⟨rfl, h⟩
    have hbgUnknown : bg ≠ .unknown := by
      rintro rfl
      exact hbg trivial
    rw [decodeColor_bg hbgUnknown, (customBg_removed hbgUnknown hshort _).1]
    exact leavesOther_digits hbg
  · by_cases hbgUnknown : bg = .unknown
    · subst hbgUnknown
      obtain ⟨kept, hkept, hlength, hremoved⟩ := @decodeFg_custom _ _ hattrs hfgUnknown separatorText hhead
      have hne : kept.length ≠ colorDigits fg := fun h => hnot ⟨hlength ▸ h, trivial⟩
      have hall : colorDigits fg ≤ (kept ++ separatorText).length := by
        rw [List.length_append]
        omega
      rw [decodeColor_fg, hremoved, skipBytes, if_pos hall]
      refine leavesOther_of_length ?_ (NoColorCode.drop (.append (noColorCode_digits hkept) separatorText_plain) _)
      rw [List.length_drop, List.length_append]
      omega
    · rw [decodeColor_both hfgUnknown hbgUnknown]
      obtain ⟨kept, hkept, hlength, hremoved⟩ := @decodeFg_custom _ _ hattrs hfgUnknown
        (ch '~' :: (guiColorCustomBg bg ++ separatorText)) hhead
      rw [hremoved]
      by_cases hfits : kept.length = colorDigits fg
      · have hbg : ¬ BgFits bg := fun h => hnot ⟨hlength ▸ hfits, h⟩
        rw [skipBytes_append hfits, (customBg_removed hbgUnknown hshort _).2]
        exact leavesOther_digits hbg
      · exact leavesOther_both hkept hfits hfive (customBg_bytes bg).1

/-! ## Names -/

theorem snprintf_short {size : Nat} {s : Str} (h : s.length < size) : snprintf size s = s := by
  rw [snprintf, List.take_of_length_le (by omega)]

theorem customFg_unknown {color : GuiCustomColor} : guiColorCustomFg attrs color = [] ↔ color = .unknown := by
  cases color with
  | terminal number => exact iff_of_false (List.cons_ne_nil _ _) nofun
  | basic index =>
    refine iff_of_false (fun hnil => ?_) nofun
    have hpos := List.length_pos_of_ne_nil (fmtNatDigits_ne_nil 2 index)
    have hlength := congrArg List.length hnil
    rw [guiColorCustomFg, snprintf, List.length_take, List.length_append, List.length_nil] at hlength
    omega
  | unknown => exact iff_of_true rfl rfl

theorem customBg_unknown {color : GuiCustomColor} : guiColorCustomBg color = [] ↔ color = .unknown := by
  refine ⟨fun hnil => ?_, fun h => by rw [h]; rfl⟩
  by_contra hknown
  have htwo := (customBg_bytes color).2.2 hknown
  rw [hnil] at htwo
  exact absurd htwo (by decide)

/-- The code of a name that is none of the special ones. -/
theorem getCustom_colors (palette : GuiPalette) {colorName : Str} (hne : colorName ≠ [])
    (hcode : ¬ ∃ code ∈ guiColorCustomCodes, stringStrcasecmp (colorName.dropWhile isColorAttr) code.1 = 0)
    (hfg : guiColorCustomColor palette (guiColorCustomNames (colorName.dropWhile isColorAttr)).1 = fg)
    (hbg : guiColorCustomColor palette (guiColorCustomNames (colorName.dropWhile isColorAttr)).2 = bg) :
    guiColorGetCustom palette colorName =
      if fg = .unknown ∧ bg = .unknown then []
      else guiColorColorChar :: colorsBody (colorName.takeWhile isColorAttr) fg bg := by
  have hnone : (guiColorCustomCodes.find? fun code => stringStrcasecmp (colorName.dropWhile isColorAttr) code.1 = 0) = none :=
    List.find?_eq_none.mpr fun code hmem h => hcode ⟨code, hmem, of_decide_eq_true h⟩
  have hfgShort : (guiColorCustomFg (colorName.takeWhile isColorAttr) fg).length ≤ 31 := by
    cases fg with
    | unknown => exact Nat.zero_le _
    | terminal number => exact List.length_take_le ..
    | basic index => exact List.length_take_le ..
  have hbgShort := (customBg_bytes bg).2.1
  rw [guiColorGetCustom, if_neg hne, hnone]
  dsimp only
  rw [hfg, hbg]
  by_cases hfgUnknown : fg = .unknown
  · have hfgNil : guiColorCustomFg (colorName.takeWhile isColorAttr) fg = [] := customFg_unknown.mpr hfgUnknown
    rw [if_neg (fun h => h.1 hfgNil), if_neg (not_not.mpr hfgNil)]
    by_cases hbgUnknown : bg = .unknown
    · rw [if_neg (not_not.mpr (customBg_unknown.mpr hbgUnknown)), if_pos ⟨hfgUnknown, hbgUnknown⟩]
    · rw [if_pos (fun h => hbgUnknown (customBg_unknown.mp h)), if_neg (fun h => hbgUnknown h.2), colorsBody,
        if_neg hbgUnknown, if_pos hfgUnknown]
      refine snprintf_short ?_
      rw [List.length_cons, List.length_cons]
      omega
  · have hfgSome : guiColorCustomFg (colorName.takeWhile isColorAttr) fg ≠ [] := fun h =>
      hfgUnknown (customFg_unknown.mp h)
    by_cases hbgUnknown : bg = .unknown
    · rw [if_neg (fun h => h.2 (customBg_unknown.mpr hbgUnknown)), if_pos hfgSome, if_neg (fun h => hfgUnknown h.1),
        colorsBody, if_pos hbgUnknown]
      refine snprintf_short ?_
      rw [List.length_cons, List.length_cons]
      omega
    · rw [if_pos ⟨hfgSome, fun h => hbgUnknown (customBg_unknown.mp h)⟩, if_neg (fun h => hfgUnknown h.1), colorsBody,
        if_neg hbgUnknown, if_neg hfgUnknown]
      refine snprintf_short ?_
      rw [List.length_cons, List.length_cons, List.length_append, List.length_cons]
      omega

/-- Removing colors undoes adding them exactly when the attributes and the digits of the
foreground fit in their buffer, and the number of the background has five digits. -/
theorem removesCode_iff (palette : GuiPalette) (colorName : Str) :
    RemovesCode palette colorName ↔ CodeFits palette colorName := by
  by_cases hnil : colorName = []
  · refine iff_of_true (fun text _ _ hplain => ?_) (.inl hnil)
    rw [guiColorGetCustom, if_pos hnil, List.nil_append]
    exact decode_plain hplain none
  by_cases hcode : ∃ code ∈ guiColorCustomCodes, stringStrcasecmp (colorName.dropWhile isColorAttr) code.1 = 0
  · refine iff_of_true (fun text _ _ hplain => ?_) (.inr (.inl hcode))
    have hsome : (guiColorCustomCodes.find? fun code =>
        stringStrcasecmp (colorName.dropWhile isColorAttr) code.1 = 0).isSome = true := by
      rw [List.find?_isSome]
      obtain ⟨code, hmem, hname⟩ := hcode
      exact ⟨code, hmem, decide_eq_true hname⟩
    obtain ⟨code, hfind⟩ := Option.isSome_iff_exists.mp hsome
    rw [guiColorGetCustom, if_neg hnil, hfind]
    exact decode_customCode hplain code (List.mem_of_find?_eq_some hfind)
  -- the code is made of colors
  have hattrs : ∀ c ∈ colorName.takeWhile isColorAttr, isColorAttr c = true := fun c hc => List.mem_takeWhile_imp hc
  have hshort := customColor_short palette (guiColorCustomNames (colorName.dropWhile isColorAttr)).2
  have hgetCustom := getCustom_colors palette hnil hcode rfl rfl
  have hfits : CodeFits palette colorName ↔ fgDigitsKept (colorName.takeWhile isColorAttr).length
      (guiColorCustomColor palette (guiColorCustomNames (colorName.dropWhile isColorAttr)).1) =
      colorDigits (guiColorCustomColor palette (guiColorCustomNames (colorName.dropWhile isColorAttr)).1) ∧
      BgFits (guiColorCustomColor palette (guiColorCustomNames (colorName.dropWhile isColorAttr)).2) := by
    rw [CodeFits]
    simp only [hnil, hcode, false_or]
  rw [hfits]
  generalize guiColorCustomColor palette (guiColorCustomNames (colorName.dropWhile isColorAttr)).1 = fg at hgetCustom
  generalize guiColorCustomColor palette (guiColorCustomNames (colorName.dropWhile isColorAttr)).2 = bg at hgetCustom hshort
  by_cases hunknown : fg = .unknown ∧ bg = .unknown
  · obtain ⟨rfl, rfl⟩ := hunknown
    refine iff_of_true (fun text _ _ hplain => ?_) ⟨rfl, trivial⟩
    rw [hgetCustom, if_pos ⟨rfl, rfl⟩, List.nil_append]
    exact decode_plain hplain none
  rw [if_neg hunknown] at hgetCustom
  constructor
  · intro hremoves
    by_contra hnot
    have hother := colors_left hattrs hshort hnot
    have hplain := hremoves separatorText (utf8IsValid_ascii (by decide)) (by decide) separatorText_plain
    rw [hgetCustom, List.cons_append, decode_color rfl hother.plain] at hplain
    exact hother.other hplain
  · rintro ⟨hfg, hbg⟩ text - - hplain
    rw [hgetCustom, List.cons_append]
    exact decode_color (colors_removed hattrs hshort hfg hbg (not_and_or.mp hunknown) text) hplain

/-- A palette without aliases. -/
def noPalette : GuiPalette := ⟨fun _ => none, fun _ => none, []⟩

set_option maxRecDepth 10000 in
/-- Thirty attributes take the place of the digits: five bytes of the text are removed instead. -/
theorem removesCode_thirty : ¬ RemovesCode noPalette (List.replicate 30 (ch '*') ++ lit "5") := by
  have hcode : ¬ ∃ code ∈ guiColorCustomCodes, stringStrcasecmp (lit "5") code.1 = 0 := by
    rintro ⟨code, hmem, hname⟩
    have hfirst : ∀ code ∈ guiColorCustomCodes, utf8Charcasecmp (lit "5") code.1 ≠ 0 ∧ code.1 ≠ [] := by decide
    obtain ⟨hother, hne⟩ := hfirst code hmem
    have hfive : lit "5" ≠ [] := by decide
    rw [stringStrcasecmp, dif_neg (not_or.mpr ⟨hfive, hne⟩)] at hname
    dsimp only at hname
    rw [if_pos hother] at hname
    split at hname
    · cases hname
    · cases hname
  have hattrs : ∀ c ∈ List.replicate 30 (ch '*'), isColorAttr c = true := by decide
  have hother := @colors_left (.terminal 5) .unknown _ hattrs trivial fun h => absurd h.1 (by decide)
  intro hremoves
  have hplain := hremoves separatorText (utf8IsValid_ascii (by decide)) (by decide) separatorText_plain
  have hgetCustom := @getCustom_colors (.terminal 5) .unknown noPalette (List.replicate 30 (ch '*') ++ lit "5")
    (by decide) hcode rfl rfl
  rw [hgetCustom, if_neg (fun h => nomatch h.1), List.cons_append] at hplain
  exact hother.other ((decode_color rfl hother.plain).symm.trans hplain)

end Wirc
