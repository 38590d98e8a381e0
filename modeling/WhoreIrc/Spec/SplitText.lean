import Mathlib.Logic.Relation
import WhoreIrc.Framework.Lines
import WhoreIrc.Impl.Utf8

/-!
# Cutting a text into pieces

What cutting a text into pieces of at most `B` bytes means, without the loops
of the code: a piece ends at the last delimiter that is in reach, which is
dropped, or after the last whole character that fits (`IsCut`). `Pieces` are
the pieces of a text that is cut to its end, `Starts` the places where its
pieces begin, whether or not the end is reached. Lines end at a line feed.
-/

namespace Wirc

/-- `q` is where a character of `p` begins, or the end of `p`. -/
def Boundary : Str → Str → Prop :=
  Relation.ReflTransGen fun s t => s ≠ [] ∧ t = utf8NextChar s

/-- A delimiter of `p` within its first `B` bytes, or right after them: the
text before it is `a`, the text after it `q`. -/
structure DelimiterAt (B : Int) (d : Byte) (p a q : Str) : Prop where
  split : p = a ++ d :: q
  boundary : Boundary p (d :: q)
  reach : a.length ≤ B

/-- The first piece `a` of `p`, whether a delimiter was dropped after it, and
the text `q` after that. -/
inductive IsCut (B : Int) (d : Byte) (p : Str) : Str → Bool → Str → Prop
  | fits : p.length ≤ B → IsCut B d p p false []
  | delimiter {a q : Str} : B < p.length → DelimiterAt B d p a q →
      (∀ a' q', DelimiterAt B d p a' q' → a'.length ≤ a.length) → IsCut B d p a true q
  | whole {a q : Str} : B < p.length → p = a ++ q → Boundary p q → a.length ≤ B →
      B < a.length + utf8CharSize q → (∀ a' q', ¬ DelimiterAt B d p a' q') → IsCut B d p a false q

/-- The pieces of `p`, each with whether a delimiter was dropped after it. -/
inductive Pieces (B : Int) (d : Byte) : Str → List (Str × Bool) → Prop
  | nil : Pieces B d [] []
  | cons {p a q : Str} {dropped : Bool} {ps : List (Str × Bool)} : p ≠ [] → IsCut B d p a dropped q →
      Pieces B d q ps → Pieces B d p ((a, dropped) :: ps)

/-- The places where a piece of `text` begins. -/
def Starts (B : Int) (d : Byte) : Str → Str → Prop :=
  Relation.ReflTransGen fun p q => p ≠ [] ∧ ∃ a dropped, IsCut B d p a dropped q

/-- `text` is the concatenation of the pieces, with nothing or one delimiter
between two of them. -/
inductive Joined (d : Byte) : List Str → Str → Prop
  | one (a : Str) : Joined d [a] a
  | next {ps : List Str} {text : Str} (a : Str) : Joined d ps text → Joined d (a :: ps) (a ++ text)
  | delimiter {ps : List Str} {text : Str} (a : Str) : Joined d ps text → Joined d (a :: ps) (a ++ d :: text)

/-- The bytes of one character: an ASCII byte, or a first byte and as many
continuation bytes as it announces. -/
structure IsUtf8Char (b : Byte) (t : Str) : Prop where
  size : t.length + 1 = utf8LeadSize b
  lead : b < 0x80 ∨ 0xC0 ≤ b ∧ b < 0xF8
  continuation : ∀ c ∈ t, c &&& 0xC0 = 0x80

/-- A sequence of characters. -/
inductive ValidUtf8 : Str → Prop
  | nil : ValidUtf8 []
  | char {b : Byte} {t s : Str} : IsUtf8Char b t → ValidUtf8 s → ValidUtf8 (b :: (t ++ s))

/-! ## Lines -/

def isLf (c : Byte) : Bool := c = ch '\n'

end Wirc
