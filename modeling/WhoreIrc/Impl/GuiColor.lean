import WhoreIrc.Impl.Utf8

/-!
# Names of colors (`gui/gui-color.c`, `gui/curses/gui-curses-color.c`)

A color of an option is an `int`: an index in the table of basic colors, or a
number of the terminal with `GUI_COLOR_EXTENDED_FLAG`, and the flags of the
attributes.
-/

namespace Wirc

def guiColorExtendedBoldFlag : Int32 := 0x0200000
def guiColorExtendedReverseFlag : Int32 := 0x0400000
def guiColorExtendedItalicFlag : Int32 := 0x0800000
def guiColorExtendedUnderlineFlag : Int32 := 0x1000000
def guiColorExtendedKeepattrFlag : Int32 := 0x2000000
def guiColorExtendedFlag : Int32 := 0x0100000
def guiColorExtendedMask : Int32 := 0x00FFFFF
def guiColorExtendedMax : Int32 := 99999

/-- `gui_weechat_colors[].string`: the same names in both tables. -/
def guiWeechatColors : List Str :=
  [lit "default", lit "black", lit "darkgray", lit "red", lit "lightred", lit "green", lit "lightgreen",
   lit "brown", lit "yellow", lit "blue", lit "lightblue", lit "magenta", lit "lightmagenta", lit "cyan",
   lit "lightcyan", lit "gray", lit "white"]

/-- The palette: `gui_color_hash_palette_alias`, the alias of each number of
`gui_color_hash_palette_color`, and `gui_color_list_with_alias`. -/
structure GuiPalette where
  hashAlias : Str → Option Int32
  colorAlias : Int32 → Option Str
  listWithAlias : List Str

/-- `gui_color_get_weechat_colors_number`. -/
def guiColorGetWeechatColorsNumber : Int32 := 17

/-- `gui_color_attr_get_flag`, `none` for 0. -/
def guiColorAttrGetFlag (c : Byte) : Option Int32 :=
  if c = ch '*' then some guiColorExtendedBoldFlag
  else if c = ch '!' then some guiColorExtendedReverseFlag
  else if c = ch '/' then some guiColorExtendedItalicFlag
  else if c = ch '_' then some guiColorExtendedUnderlineFlag
  else if c = ch '|' then some guiColorExtendedKeepattrFlag
  else none

/-- `gui_color_attr_build_string`. -/
def guiColorAttrBuildString (color : Int32) : Str :=
  (if color &&& guiColorExtendedBoldFlag ≠ 0 then [ch '*'] else []) ++
  (if color &&& guiColorExtendedReverseFlag ≠ 0 then [ch '!'] else []) ++
  (if color &&& guiColorExtendedItalicFlag ≠ 0 then [ch '/'] else []) ++
  (if color &&& guiColorExtendedUnderlineFlag ≠ 0 then [ch '_'] else []) ++
  (if color &&& guiColorExtendedKeepattrFlag ≠ 0 then [ch '|'] else [])

/-- `gui_color_search`, `none` for -1. -/
def guiColorSearch (colorName : Str) : Option Nat :=
  guiWeechatColors.findIdx? fun word => stringStrcasecmp word colorName = 0

/-- The attributes at the beginning of a name, added to `extraAttr`, and the
rest of the name. -/
def guiColorReadAttrs (extraAttr : Int32) : (colorName : Str) → Int32 × Str
  | [] => (extraAttr, [])
  | c :: colorName =>
    match guiColorAttrGetFlag c with
    | some flag => guiColorReadAttrs (extraAttr ||| flag) colorName
    | none => (extraAttr, c :: colorName)

/-- `gui_color_assign`: the color, or `none` for 0. -/
def guiColorAssign (palette : GuiPalette) (colorName : Str) : Option Int32 :=
  let (extraAttr, colorName) := guiColorReadAttrs 0 colorName
  match palette.hashAlias colorName with
  | some number => if 0 ≤ number then some (number ||| guiColorExtendedFlag ||| extraAttr) else guiColorOther extraAttr colorName
  | none => guiColorOther extraAttr colorName
where
  /-- A number, or a basic color. -/
  guiColorOther (extraAttr : Int32) (colorName : Str) : Option Int32 :=
    let number := Int32.ofInt (strtol colorName).1
    if colorName ≠ [] ∧ (strtol colorName).2 = [] ∧ 0 ≤ number then
      let number := if guiColorExtendedMax < number then guiColorExtendedMax else number
      some (number ||| guiColorExtendedFlag ||| extraAttr)
    else (guiColorSearch colorName).map fun colorIndex => Int32.ofNat colorIndex ||| extraAttr

/-- `gui_color_get_name`, in a buffer of 64 bytes. -/
def guiColorGetName (palette : GuiPalette) (numColor : Int32) : Str :=
  let strAttr := guiColorAttrBuildString numColor
  let number := numColor &&& guiColorExtendedMask
  (if numColor &&& guiColorExtendedFlag ≠ 0 then
    match palette.colorAlias number with
    | some name => strAttr ++ name
    | none => strAttr ++ fmtInt number.toInt
  else strAttr ++ guiWeechatColors.getD number.toInt.toNat []).take 63

/-- `gui_color_assign_by_diff`. The list with the aliases is never empty, and
each of the two loops that bring the index into the list runs at most once. -/
def guiColorAssignByDiff (palette : GuiPalette) (colorName : Str) (diff : Int32) : Option Int32 :=
  let index : Int := (palette.listWithAlias.idxOf? colorName).getD 0
  let listSize : Int := palette.listWithAlias.length
  let diff := diff.toInt.tmod (listSize + 1)
  let index :=
    if 0 < diff then
      let index := (index + diff).tmod (listSize + 1)
      if listSize - 1 < index then index - listSize else index
    else
      let index := (index + listSize + diff).tmod listSize
      if index < 0 then index + listSize else index
  match palette.listWithAlias[index.toNat]? with
  | some name => guiColorAssign palette name
  | none => none

/-! ## Color codes in strings

A color name gives a code: a char that begins it, the kind of the code, attributes and
numbers of colors. A code is built in buffers of 32 and 96 bytes, and it is parsed again
to remove it from a string. Strings have no `\0`: a byte is there if the string is not
at its end.
-/

def guiColorColorChar : Byte := 0x19
def guiColorSetAttrChar : Byte := 0x1A
def guiColorRemoveAttrChar : Byte := 0x1B
def guiColorResetChar : Byte := 0x1C

def guiColorAttrBoldChar : Byte := 0x01
def guiColorAttrReverseChar : Byte := 0x02
def guiColorAttrItalicChar : Byte := 0x03
def guiColorAttrUnderlineChar : Byte := 0x04

def guiColorFgChar : Byte := ch 'F'
def guiColorBgChar : Byte := ch 'B'
def guiColorFgBgChar : Byte := ch '*'
def guiColorExtendedChar : Byte := ch '@'
def guiColorEmphasisChar : Byte := ch 'E'
def guiColorBarChar : Byte := ch 'b'
def guiColorBarFgChar : Byte := ch 'F'
def guiColorBarDelimChar : Byte := ch 'D'
def guiColorBarBgChar : Byte := ch 'B'

/-- `gui_color_attr_get_flag (c) > 0`. -/
def isColorAttr (c : Byte) : Bool := (guiColorAttrGetFlag c).isSome

/-! ## Names -/

/-- The names of attributes and of special colors, in the order they are searched, and
their codes. -/
def guiColorCustomCodes : List (Str × Str) :=
  [(lit "reset", [guiColorResetChar]),
   (lit "resetcolor", [guiColorColorChar, guiColorResetChar]),
   (lit "emphasis", [guiColorColorChar, guiColorEmphasisChar]),
   (lit "bold", [guiColorSetAttrChar, guiColorAttrBoldChar]),
   (lit "-bold", [guiColorRemoveAttrChar, guiColorAttrBoldChar]),
   (lit "reverse", [guiColorSetAttrChar, guiColorAttrReverseChar]),
   (lit "-reverse", [guiColorRemoveAttrChar, guiColorAttrReverseChar]),
   (lit "italic", [guiColorSetAttrChar, guiColorAttrItalicChar]),
   (lit "-italic", [guiColorRemoveAttrChar, guiColorAttrItalicChar]),
   (lit "underline", [guiColorSetAttrChar, guiColorAttrUnderlineChar]),
   (lit "-underline", [guiColorRemoveAttrChar, guiColorAttrUnderlineChar]),
   (lit "bar_fg", [guiColorColorChar, guiColorBarChar, guiColorBarFgChar]),
   (lit "bar_delim", [guiColorColorChar, guiColorBarChar, guiColorBarDelimChar]),
   (lit "bar_bg", [guiColorColorChar, guiColorBarChar, guiColorBarBgChar])]

/-- A color of a name: `fg_term` or `fg`, `bg_term` or `bg`, or -1 in both. -/
inductive GuiCustomColor
  | terminal (number : Nat)
  | basic (index : Nat)
  | unknown
  deriving DecidableEq

section

variable (palette : GuiPalette)

/-- The color of a name, `none` for NULL. -/
def guiColorCustomColor : Option Str → GuiCustomColor
  | none => .unknown
  | some str =>
    match palette.hashAlias str with
    | some number => if 0 ≤ number then .terminal number.toInt.toNat else numberOrName str
    | none => numberOrName str
where
  /-- A number of the terminal, or the name of a basic color. -/
  numberOrName (str : Str) : GuiCustomColor :=
    if (strtol str).2 = [] then
      let termColor := (Int32.ofInt (strtol str).1).toInt
      .terminal (min (max termColor 0) guiColorExtendedMax.toInt).toNat
    else
      match guiColorSearch str with
      | some index => .basic index
      | none => .unknown

/-- `strchr`, as what is before and after the char. -/
def strchrSplit (c : Byte) (string : Str) : Option (Str × Str) :=
  (string.idxOf? c).map fun pos => (string.take pos, string.drop (pos + 1))

/-- The names of the foreground and of the background: `str_fg` and `pos_bg`. -/
def guiColorCustomNames (name : Str) : Option Str × Option Str :=
  match (strchrSplit (ch ',') name).or (strchrSplit (ch ':') name) with
  | some ([], bg) => (none, some bg)
  | some (fg, bg) => (some fg, some bg)
  | none => (some name, none)

/-- `color_fg`. -/
def guiColorCustomFg (attrs : Str) : GuiCustomColor → Str
  | .terminal number => snprintf 32 (guiColorExtendedChar :: (attrs ++ fmtNatDigits 5 number))
  | .basic index => snprintf 32 (attrs ++ fmtNatDigits 2 index)
  | .unknown => []

/-- `color_bg`. -/
def guiColorCustomBg : GuiCustomColor → Str
  | .terminal number => snprintf 32 (guiColorExtendedChar :: fmtNatDigits 5 number)
  | .basic index => snprintf 32 (fmtNatDigits 2 index)
  | .unknown => []

/-- `gui_color_get_custom`, of a name that is not NULL. -/
def guiColorGetCustom (colorName : Str) : Str :=
  let colorAttr := colorName.takeWhile isColorAttr
  let ptrColorName := colorName.dropWhile isColorAttr
  if colorName = [] then []
  else
    match guiColorCustomCodes.find? fun code => stringStrcasecmp ptrColorName code.1 = 0 with
    | some code => snprintf 96 code.2
    | none =>
      let names := guiColorCustomNames ptrColorName
      let colorFg := guiColorCustomFg colorAttr (guiColorCustomColor palette names.1)
      let colorBg := guiColorCustomBg (guiColorCustomColor palette names.2)
      if colorFg ≠ [] ∧ colorBg ≠ [] then
        snprintf 96 (guiColorColorChar :: guiColorFgBgChar :: (colorFg ++ ch '~' :: colorBg))
      else if colorFg ≠ [] then snprintf 96 (guiColorColorChar :: guiColorFgChar :: colorFg)
      else if colorBg ≠ [] then snprintf 96 (guiColorColorChar :: guiColorBgChar :: colorBg)
      else []

end

/-! ## Codes that are removed -/

/-- Some bytes are skipped, if they are all there. -/
def skipBytes (count : Nat) (string : Str) : Str := if count ≤ string.length then string.drop count else string

/-- The foreground, with its attributes. -/
def guiColorDecodeFg : Str → Str
  | [] => []
  | c :: string =>
    if c = guiColorExtendedChar then skipBytes 5 (string.dropWhile isColorAttr)
    else skipBytes 2 ((c :: string).dropWhile isColorAttr)

/-- The background. -/
def guiColorDecodeBg : Str → Str
  | [] => []
  | c :: string => if c = guiColorExtendedChar then skipBytes 5 string else skipBytes 2 (c :: string)

/-- The background after a separator. -/
def guiColorDecodeSeparator : Str → Str
  | [] => []
  | c :: string =>
    if c = ch ',' ∨ c = ch '~' then
      if string.head? = some guiColorExtendedChar then
        if 6 ≤ string.length then string.drop 6 else c :: string
      else if 2 ≤ string.length then string.drop 2
      else c :: string
    else c :: string

/-- The string after a bar code. -/
def guiColorDecodeBar : Str → Str
  | [] => []
  | c :: string =>
    if c = guiColorBarFgChar ∨ c = guiColorBarBgChar ∨ c = guiColorBarDelimChar ∨ c = ch '_' ∨ c = ch '-' ∨ c = ch '#' ∨
        c = ch 'i' ∨ c = ch 'l' then string
    else c :: string

/-- The string after a code that begins with `GUI_COLOR_COLOR_CHAR`. -/
def guiColorDecodeColor : Str → Str
  | [] => []
  | c :: string =>
    if c = guiColorFgChar then guiColorDecodeFg string
    else if c = guiColorBgChar then guiColorDecodeBg string
    else if c = guiColorFgBgChar then guiColorDecodeSeparator (guiColorDecodeFg string)
    else if c = guiColorExtendedChar then
      if 5 ≤ string.length ∧ (string.take 5).all isdigit then string.drop 5 else c :: string
    else if c = guiColorEmphasisChar then string
    else if c = guiColorBarChar then guiColorDecodeBar string
    else if c = guiColorResetChar then string
    else if isdigit c ∧ (string.head?.map isdigit).getD false then string.drop 1
    else c :: string

theorem skipBytes_length_le (count : Nat) (string : Str) : (skipBytes count string).length ≤ string.length := by
  rw [skipBytes]
  split
  · rw [List.length_drop]
    exact Nat.sub_le ..
  · exact Nat.le_refl _

theorem guiColorDecodeFg_length_le (string : Str) : (guiColorDecodeFg string).length ≤ string.length := by
  cases string with
  | nil => exact Nat.le_refl _
  | cons c string =>
    rw [guiColorDecodeFg]
    split
    · exact (skipBytes_length_le _ _).trans ((List.dropWhile_suffix _).length_le.trans (Nat.le_succ _))
    · exact (skipBytes_length_le _ _).trans (List.dropWhile_suffix _).length_le

theorem guiColorDecodeBg_length_le (string : Str) : (guiColorDecodeBg string).length ≤ string.length := by
  cases string with
  | nil => exact Nat.le_refl _
  | cons c string =>
    rw [guiColorDecodeBg]
    split
    · exact (skipBytes_length_le _ _).trans (Nat.le_succ _)
    · exact skipBytes_length_le _ _

theorem guiColorDecodeSeparator_length_le (string : Str) : (guiColorDecodeSeparator string).length ≤ string.length := by
  cases string with
  | nil => exact Nat.le_refl _
  | cons c string =>
    have hdrop : ∀ count, (string.drop count).length ≤ (c :: string).length := fun count => by
      rw [List.length_drop, List.length_cons]
      omega
    rw [guiColorDecodeSeparator]
    split
    · split
      · split
        · exact hdrop 6
        · exact Nat.le_refl _
      · split
        · exact hdrop 2
        · exact Nat.le_refl _
    · exact Nat.le_refl _

theorem guiColorDecodeColor_length_le (string : Str) : (guiColorDecodeColor string).length ≤ string.length := by
  cases string with
  | nil => exact Nat.le_refl _
  | cons c string =>
    have hbar : (guiColorDecodeBar string).length ≤ string.length := by
      cases string with
      | nil => exact Nat.le_refl _
      | cons d string =>
        rw [guiColorDecodeBar]
        split
        · exact Nat.le_succ _
        · exact Nat.le_refl _
    have hdrop : ∀ count, (string.drop count).length ≤ (c :: string).length := fun count => by
      rw [List.length_drop, List.length_cons]
      omega
    have hself : string.length ≤ (c :: string).length := Nat.le_succ _
    rw [guiColorDecodeColor]
    split
    · exact (guiColorDecodeFg_length_le string).trans hself
    split
    · exact (guiColorDecodeBg_length_le string).trans hself
    split
    · exact (guiColorDecodeSeparator_length_le _).trans ((guiColorDecodeFg_length_le string).trans hself)
    split
    · split
      · exact hdrop 5
      · exact Nat.le_refl _
    split
    · exact hself
    split
    · exact hbar.trans hself
    split
    · exact hself
    split
    · exact hdrop 1
    · exact Nat.le_refl _

/-- The loop of `gui_color_decode`, with the bytes of `out`. -/
def guiColorDecodeLoop (replacement : Str) (outLength : Nat) (string out : Str) : Str :=
  match string with
  | [] => out
  | c :: string =>
    if out.length < outLength - 1 then
      if c = guiColorColorChar then
        guiColorDecodeLoop replacement outLength (guiColorDecodeColor string) (out ++ replacement.take 1)
      else if c = guiColorSetAttrChar ∨ c = guiColorRemoveAttrChar then
        guiColorDecodeLoop replacement outLength string.tail (out ++ replacement.take 1)
      else if c = guiColorResetChar then guiColorDecodeLoop replacement outLength string (out ++ replacement.take 1)
      else
        let length := utf8CharSize (c :: string)
        guiColorDecodeLoop replacement outLength ((c :: string).drop length) (out ++ (c :: string).take length)
    else out
termination_by string.length
decreasing_by
  · exact Nat.lt_succ_of_le (guiColorDecodeColor_length_le string)
  · rw [List.length_tail, List.length_cons]
    omega
  · exact Nat.lt_succ_self _
  · have := utf8CharSize_pos (c :: string)
    rw [List.length_drop, List.length_cons]
    omega

/-- `gui_color_decode`, of a string that is not NULL. -/
def guiColorDecode (string : Str) (replacement : Option Str) : Str :=
  guiColorDecodeLoop (replacement.getD []) (string.length * 2 + 1) string []

end Wirc
