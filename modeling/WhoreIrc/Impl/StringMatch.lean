import Mathlib.Data.List.TakeWhile
import WhoreIrc.Impl.Utf8

/-!
# Matching a string with a mask (`core/wee-string.c`)

`string_match`, whose mask may hold wildcards `*`, and the comparisons and the
search without case that it calls.
-/

namespace Wirc

/-- `string_strncasecmp`: at most `max` characters are compared. -/
def stringStrncasecmp (string1 string2 : Str) : Nat → Int
  | 0 => 0
  | max + 1 =>
    if string1 ≠ [] ∧ string2 ≠ [] then
      let diff := utf8Charcasecmp string1 string2
      if diff ≠ 0 then if diff < 0 then -1 else 1
      else stringStrncasecmp (utf8NextChar string1) (utf8NextChar string2) max
    else if string1 ≠ [] then 1 else if string2 ≠ [] then -1 else 0

/-- The loop of `string_strcasestr`. -/
def strcasestrFrom (string search : Str) (lengthSearch : Nat) : Option Str :=
  if _ : string = [] then none
  else if stringStrncasecmp string search lengthSearch = 0 then some string
  else strcasestrFrom (utf8NextChar string) search lengthSearch
termination_by string.length
decreasing_by exact utf8NextChar_length_lt ‹_›

/-- `string_strcasestr`. -/
def stringStrcasestr (string search : Str) : Option Str :=
  if utf8Strlen search = 0 then none else strcasestrFrom string search (utf8Strlen search)

/-- The search for a word of the mask. -/
def searchWord (caseSensitive : Bool) (string word : Str) : Option Str :=
  if caseSensitive then strstr string word else stringStrcasestr string word

/-- The test that a word of the mask begins the string. -/
def beginsWithWord (caseSensitive : Bool) (string word : Str) : Bool :=
  if caseSensitive then startsWith string word
  else stringStrncasecmp string word (utf8Strlen word) = 0

theorem strchr_length_le {s p : Str} {c : Byte} (h : strchr s c = some p) : p.length ≤ s.length := by
  induction s with
  | nil => cases h
  | cons b s ih =>
    simp only [strchr] at h
    split at h
    · cases h
      exact Nat.le_refl _
    · exact Nat.le_succ_of_le (ih h)

theorem strstr_suffix {s w p : Str} (h : strstr s w = some p) : p <:+ s := by
  induction s with
  | nil =>
    simp only [strstr] at h
    split at h <;> simp_all
  | cons b s ih =>
    simp only [strstr] at h
    split at h
    · cases h
      exact List.suffix_refl _
    · exact (ih h).trans (List.suffix_cons ..)

theorem strcasestrFrom_suffix {s w p : Str} {n : Nat} (h : strcasestrFrom s w n = some p) : p <:+ s := by
  induction s using strcasestrFrom.induct w n with
  | case1 => simp [strcasestrFrom] at h
  | case2 s hs hw =>
    rw [strcasestrFrom, dif_neg hs, if_pos hw] at h
    cases h
    exact List.suffix_refl _
  | case3 s hs hw ih =>
    rw [strcasestrFrom, dif_neg hs, if_neg hw] at h
    exact (ih h).trans (List.drop_suffix ..)

theorem searchWord_suffix {cs : Bool} {s w p : Str} (h : searchWord cs s w = some p) : p <:+ s := by
  simp only [searchWord, stringStrcasestr] at h
  repeat' split at h
  · exact strstr_suffix h
  · cases h
  · exact strcasestrFrom_suffix h

theorem searchWord_nil {cs : Bool} {w : Str} (hw : w ≠ []) : searchWord cs [] w = none := by
  simp [searchWord, strstr, hw, stringStrcasestr, strcasestrFrom]

/-- After a word, the search goes on in a shorter string. -/
theorem searchWord_length_lt {cs : Bool} {s w p : Str} (hw : w ≠ [])
    (h : searchWord cs (s.drop w.length) w = some p) : p.length < s.length := by
  have hp := (searchWord_suffix h).length_le
  have hw0 := List.length_pos_iff.mpr hw
  have hs : s.drop w.length ≠ [] := by
    intro h0
    rw [h0, searchWord_nil hw] at h
    cases h
  have := List.length_pos_iff.mpr hs
  rw [List.length_drop] at hp this
  omega

/-- `while (1)` in `string_match`: from the word found at `posWord`, the word is
searched again after each place where it is found. -/
def lastWord (caseSensitive : Bool) (word : Str) (hw : word ≠ []) (posWord : Str) : Str :=
  match _ : searchWord caseSensitive (posWord.drop word.length) word with
  | none => posWord
  | some posWord2 => lastWord caseSensitive word hw posWord2
termination_by posWord.length
decreasing_by exact searchWord_length_lt hw ‹_›

/-- The mask after the wildcards on which it may begin. -/
def skipWildcards (mask : Str) : Str := mask.dropWhile (· = ch '*')

/-- The mask from the next wildcard, `pos_end`. -/
def maskEnd (mask : Str) : Str := (strchr mask (ch '*')).getD []

/-- The word before the next wildcard. -/
def maskWord (mask : Str) : Str := strndup mask (off mask (maskEnd mask))

/-- After the wildcards, the mask begins with a word. -/
theorem skipWildcards_cons {m w : Str} {b : Byte} (h : skipWildcards m = b :: w) : b ≠ ch '*' := by
  have := List.head?_dropWhile_not (· = ch '*') m
  rw [← skipWildcards, h] at this
  simpa using this

theorem maskEnd_length_lt {m : Str} (h : skipWildcards m ≠ []) :
    (maskEnd (skipWildcards m)).length < (skipWildcards m).length := by
  cases hm : skipWildcards m with
  | nil => exact absurd hm h
  | cons b w =>
    rw [maskEnd, strchr, if_neg (skipWildcards_cons hm)]
    cases hc : strchr w (ch '*') with
    | none => simp
    | some p =>
      have := strchr_length_le hc
      simpa using Nat.lt_succ_of_le this

theorem maskWord_ne_nil {m : Str} (h : skipWildcards m ≠ []) : maskWord (skipWildcards m) ≠ [] := by
  have := maskEnd_length_lt h
  rw [maskWord, strndup, off, ← List.length_pos_iff, List.length_take]
  omega

theorem skipWildcards_length_le (m : Str) : (skipWildcards m).length ≤ m.length :=
  (List.dropWhile_suffix _).length_le

/-- The loop of `string_match` on the mask. -/
def stringMatchLoop (caseSensitive : Bool) (string ptrString ptrMask : Str) : Bool :=
  if ptrMask = [] then ptrString = []
  else
    let wildcard := ptrMask.head? = some (ch '*')
    let ptrWord := skipWildcards ptrMask
    if h : ptrWord = [] then true
    else if string = [] then false
    else
      let word := maskWord ptrWord
      if wildcard then
        match searchWord caseSensitive ptrString word with
        | none => false
        | some posWord =>
          let posWord := lastWord caseSensitive word (maskWord_ne_nil h) posWord
          stringMatchLoop caseSensitive string (posWord.drop word.length) (maskEnd ptrWord)
      else if beginsWithWord caseSensitive ptrString word then
        stringMatchLoop caseSensitive string (ptrString.drop word.length) (maskEnd ptrWord)
      else false
termination_by ptrMask.length
decreasing_by
  all_goals exact Nat.lt_of_lt_of_le (maskEnd_length_lt h) (skipWildcards_length_le ptrMask)

/-- `string_match`, of a string and a mask that are not NULL. -/
def stringMatch (string mask : Str) (caseSensitive : Bool) : Bool :=
  mask ≠ [] && stringMatchLoop caseSensitive string string mask

/-!
## Comparison ignoring some characters (`core/wee-string.c`)

`string_strcmp_ignore_chars`: ignored characters are skipped in both strings
before and after each comparison.
-/

/-- The value of a `char`, which is signed. -/
def charInt (b : Byte) : Int := b.toInt8.toInt

/-- `while (string[0] && strchr (chars_ignored, string[0]))`. -/
def skipIgnored (charsIgnored : Str) : (string : Str) → Str
  | [] => []
  | b :: s => if b ∈ charsIgnored then skipIgnored charsIgnored (utf8NextChar (b :: s)) else b :: s
termination_by string => string.length
decreasing_by exact utf8NextChar_length_lt (List.cons_ne_nil b s)

theorem skipIgnored_length_le (charsIgnored string : Str) :
    (skipIgnored charsIgnored string).length ≤ string.length := by
  fun_induction skipIgnored charsIgnored string with
  | case1 => exact Nat.le_refl _
  | case2 b s _ ih => exact Nat.le_trans ih (Nat.le_of_lt (utf8NextChar_length_lt (List.cons_ne_nil b s)))
  | case3 => exact Nat.le_refl _

/-- `diff`, for the characters at the start of two strings. -/
def charDiff (string1 string2 : Str) (caseSensitive : Bool) : Int :=
  if caseSensitive then charInt (string1.headD 0) - charInt (string2.headD 0) else utf8Charcasecmp string1 string2

/-- `string_strcmp_ignore_chars`, of strings that are not NULL. -/
def stringStrcmpIgnoreChars (string1 string2 charsIgnored : Str) (caseSensitive : Bool) : Int :=
  if string1 ≠ [] ∧ string2 ≠ [] then
    let rest1 := skipIgnored charsIgnored string1
    let rest2 := skipIgnored charsIgnored string2
    if h : rest1 = [] then if rest2 = [] then 0 else -1
    else if rest2 = [] then 1
    else
      let diff := charDiff rest1 rest2 caseSensitive
      if diff ≠ 0 then if diff < 0 then -1 else 1
      else
        stringStrcmpIgnoreChars (skipIgnored charsIgnored (utf8NextChar rest1)) (skipIgnored charsIgnored (utf8NextChar rest2))
          charsIgnored caseSensitive
  else if string2 ≠ [] then -1
  else if string1 ≠ [] then 1
  else 0
termination_by string1.length
decreasing_by
  have hskip := skipIgnored_length_le charsIgnored string1
  have hnext := utf8NextChar_length_lt h
  have hrest := skipIgnored_length_le charsIgnored (utf8NextChar (skipIgnored charsIgnored string1))
  exact Nat.lt_of_le_of_lt hrest (Nat.lt_of_lt_of_le hnext hskip)

end Wirc
