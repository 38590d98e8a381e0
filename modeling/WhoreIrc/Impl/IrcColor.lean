import WhoreIrc.Impl.IrcServer
import WhoreIrc.Impl.Utf8

/-!
# Colors of IRC messages (`plugins/irc/irc-color.c`)

Colors and styles are control chars in the text, `^C` with up to two digits for each
color. They are decoded to color codes of the core, encoded, or removed. Memory is
always allocated, unless its size is a negative `int`. A result is `none` if the output
buffer is written past its end, and `some none` for NULL.
-/

namespace Wirc

/-- What decoding depends on: `weechat_color`, and the hashtable of remapped colors. -/
structure IrcColorEnv where
  weechatColor : Str → CStr
  colorMircRemap : Str → Option CStr

def ircColorToWeechat : List Str :=
  (["white", "black", "blue", "green", "lightred", "red", "magenta", "brown", "yellow", "lightgreen", "cyan",
    "lightcyan", "lightblue", "lightmagenta", "darkgray", "gray", "52", "94", "100", "58", "22", "29", "23", "24",
    "17", "54", "53", "89", "88", "130", "142", "64", "28", "35", "30", "25", "18", "91", "90", "125", "124", "166",
    "184", "106", "34", "49", "37", "33", "19", "129", "127", "161", "196", "208", "226", "154", "46", "86", "51",
    "75", "21", "171", "201", "198", "203", "215", "227", "191", "83", "122", "87", "111", "63", "177", "207",
    "205", "217", "223", "229", "193", "157", "158", "159", "153", "147", "183", "219", "212", "16", "233", "235",
    "237", "239", "241", "244", "247", "250", "254", "231", "default"]).map lit

/-- The attributes that are set. -/
structure IrcColorAttributes where
  bold : Bool
  reverse : Bool
  italic : Bool
  underline : Bool

/-- At most two digits at the beginning of a string, and what is after them. -/
def ircColorDigits (string : Str) : Str × Str :=
  let digits := (string.take 2).takeWhile isdigit
  (digits, string.drop digits.length)

theorem ircColorDigits_length_le (string : Str) : (ircColorDigits string).2.length ≤ string.length := by
  show (string.drop _).length ≤ string.length
  rw [List.length_drop]
  exact Nat.sub_le ..

/-! ## Decoding -/

/-- The digits of the background after `,`, if one is there. -/
def ircColorDecodeBg : Str → Str × Str
  | [] => ([], [])
  | c :: string =>
    if c = ch ',' ∧ (string.head?.map isdigit).getD false then ircColorDigits string else ([], c :: string)

theorem ircColorDecodeBg_length_le (string : Str) : (ircColorDecodeBg string).2.length ≤ string.length := by
  cases string with
  | nil => exact Nat.le_refl _
  | cons c string =>
    rw [ircColorDecodeBg]
    split
    · exact Nat.le_succ_of_le (ircColorDigits_length_le string)
    · exact Nat.le_refl _

/-- The number of a color from its digits, -1 if there are none. -/
def ircColorNumber (digits : Str) : Int := if digits = [] then -1 else (digitsVal 0 digits % 100 : Nat)

def ircColorName (color : Int) : Str := if color ≥ 0 then ircColorToWeechat.getD color.toNat [] else []

/-- The color code of the core for two colors. -/
def ircColorDecodeCode (env : IrcColorEnv) (strFg strBg : Str) : Str :=
  if strFg ≠ [] ∨ strBg ≠ [] then
    let fg := ircColorNumber strFg
    let bg := ircColorNumber strBg
    let strKey := snprintf 128 (fmtInt fg ++ lit "," ++ fmtInt bg)
    let strColor := match env.colorMircRemap strKey with
      | some remappedColor => snprintf 128 (lit "|" ++ remappedColor.val)
      | none => snprintf 128 (lit "|" ++ ircColorName fg ++ (if bg ≥ 0 then lit "," else []) ++ ircColorName bg)
    snprintf 128 (env.weechatColor strColor)
  else snprintf 128 (env.weechatColor (lit "resetcolor"))

/-- One turn of the loop of `irc_color_decode`, at a char: `str_to_add`, the attributes and the
rest of the string. -/
def ircColorDecodeTurn (env : IrcColorEnv) (keepColors : Bool) (attributes : IrcColorAttributes) (c : Byte) (string : Str) :
    Str × IrcColorAttributes × Str :=
  let strToAdd := fun color => if keepColors then snprintf 128 (env.weechatColor (lit color)) else []
  if c = 0x02 then
    (strToAdd (if attributes.bold then "-bold" else "bold"), { attributes with bold := !attributes.bold }, string)
  else if c = 0x0F then (strToAdd "reset", ⟨false, false, false, false⟩, string)
  else if c = 0x11 then ([], attributes, string)
  else if c = 0x16 then
    (strToAdd (if attributes.reverse then "-reverse" else "reverse"), { attributes with reverse := !attributes.reverse },
      string)
  else if c = 0x1D then
    (strToAdd (if attributes.italic then "-italic" else "italic"), { attributes with italic := !attributes.italic },
      string)
  else if c = 0x1F then
    (strToAdd (if attributes.underline then "-underline" else "underline"),
      { attributes with underline := !attributes.underline }, string)
  else if c = 0x03 then
    let (strFg, string) := ircColorDigits string
    let (strBg, string) := ircColorDecodeBg string
    (if keepColors then ircColorDecodeCode env strFg strBg else [], attributes, string)
  else
    let length := utf8CharSize (c :: string)
    ((c :: string).take length, attributes, (c :: string).drop length)

theorem ircColorDecodeTurn_length_lt (env : IrcColorEnv) (keepColors : Bool) (attributes : IrcColorAttributes) (c : Byte)
    (string : Str) : (ircColorDecodeTurn env keepColors attributes c string).2.2.length < (c :: string).length := by
  have hdigits := ircColorDigits_length_le string
  have hbg := ircColorDecodeBg_length_le (ircColorDigits string).2
  have hsize := utf8CharSize_pos (c :: string)
  simp only [ircColorDecodeTurn, apply_ite Prod.snd, apply_ite List.length, List.length_cons, List.length_drop]
  repeat' split
  all_goals omega

/-- The size of the output buffer with its content, after `str_to_add` is added; `some none` if the
buffer cannot be doubled. -/
def ircColorDecodeAdd (outLength : Nat) (out strToAdd : Str) : Option (Option (Nat × Str)) :=
  if out.length + strToAdd.length + 1 > outLength then
    -- try to double the size of "out"
    match mallocInt (2 * outLength) with
    | none => some none
    | some outLength =>
      if out.length + strToAdd.length + 1 ≤ outLength then some (some (outLength, out ++ strToAdd)) else none
  else some (some (outLength, out ++ strToAdd))

/-- The loop of `irc_color_decode`, with the output buffer of `outLength` bytes and what is in it. -/
def ircColorDecodeLoop (env : IrcColorEnv) (keepColors : Bool) (attributes : IrcColorAttributes) (outLength : Nat)
    (string out : Str) : Option Str :=
  match string with
  | [] => some out
  | c :: string =>
    let turn := ircColorDecodeTurn env keepColors attributes c string
    if turn.1 = [] then ircColorDecodeLoop env keepColors turn.2.1 outLength turn.2.2 out
    else
      match ircColorDecodeAdd outLength out turn.1 with
      | none => none
      | some none => some out
      | some (some added) => ircColorDecodeLoop env keepColors turn.2.1 added.1 turn.2.2 added.2
termination_by string.length
decreasing_by all_goals exact ircColorDecodeTurn_length_lt ..

/-- `irc_color_decode`. -/
def ircColorDecode (env : IrcColorEnv) (string : Str) (keepColors : Bool) : Option (Option Str) :=
  let outLength := toInt (2 * string.length + 1)
  let outLength := if outLength < 128 then 128 else outLength
  (ircColorDecodeLoop env keepColors ⟨false, false, false, false⟩ outLength.toNat string []).map some

/-! ## Encoding -/

/-- What is after `,`, if it is there, with at most two digits. -/
def ircColorEncodeBg : Str → Str × Str
  | [] => ([], [])
  | c :: string => if c = ch ',' then (c :: (ircColorDigits string).1, (ircColorDigits string).2) else ([], c :: string)

/-- One turn of the loop of `irc_color_encode`, at a char: what it writes, and the rest of the string. -/
def ircColorEncodeTurn (keepColors : Bool) (c : Byte) (string : Str) : Str × Str :=
  if c = 0x02 ∨ c = 0x0F ∨ c = 0x16 ∨ c = 0x1D ∨ c = 0x1F then (if keepColors then [c] else [], string)
  else if c = 0x03 then
    let (fg, string) := ircColorDigits string
    let (bg, string) := ircColorEncodeBg string
    (if keepColors then c :: (fg ++ bg) else [], string)
  else
    let length := utf8CharSize (c :: string)
    ((c :: string).take length, (c :: string).drop length)

theorem ircColorEncodeBg_length_le (string : Str) : (ircColorEncodeBg string).2.length ≤ string.length := by
  cases string with
  | nil => exact Nat.le_refl _
  | cons c string =>
    rw [ircColorEncodeBg]
    split
    · exact Nat.le_succ_of_le (ircColorDigits_length_le string)
    · exact Nat.le_refl _

theorem ircColorEncodeTurn_length_lt (keepColors : Bool) (c : Byte) (string : Str) :
    (ircColorEncodeTurn keepColors c string).2.length < (c :: string).length := by
  have hdigits := ircColorDigits_length_le string
  have hbg := ircColorEncodeBg_length_le (ircColorDigits string).2
  have hsize := utf8CharSize_pos (c :: string)
  simp only [ircColorEncodeTurn, apply_ite Prod.snd, apply_ite List.length, List.length_cons, List.length_drop]
  repeat' split
  all_goals omega

/-- The loop of `irc_color_encode`, and the `\0` after what is written. -/
def ircColorEncodeLoop (keepColors : Bool) (outLength : Nat) (string out : Str) : Option Str :=
  match string with
  | [] => if out.length < outLength then some out else none
  | c :: string =>
    if out.length + 1 < outLength then
      let turn := ircColorEncodeTurn keepColors c string
      if out.length + turn.1.length ≤ outLength then ircColorEncodeLoop keepColors outLength turn.2 (out ++ turn.1)
      else none
    else if out.length < outLength then some out
    else none
termination_by string.length
decreasing_by exact ircColorEncodeTurn_length_lt ..

/-- `irc_color_encode`. -/
def ircColorEncode (string : Str) (keepColors : Bool) : Option (Option Str) :=
  (mallocInt (2 * string.length + 1)).elim (some none) fun outLength =>
    (ircColorEncodeLoop keepColors outLength string []).map some

end Wirc
