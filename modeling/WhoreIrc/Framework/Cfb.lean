import Mathlib.Data.List.Basic

/-!
# Cipher feedback

A block cipher used as a stream cipher: each block of the output is the input
block combined with the encryption of the previous block of encrypted data (the
`register`). The last block may be short.
-/

namespace Wirc.Framework

/-- A block cipher, of which only encryption is used. -/
structure BlockCipher where
  size : Nat
  block : (key input : List UInt8) → List UInt8
  size_pos : 0 < size
  length_block : ∀ key input, (block key input).length = size

def xorBytes (a b : List UInt8) : List UInt8 := List.zipWith (· ^^^ ·) a b

@[simp] theorem length_xorBytes (a b : List UInt8) : (xorBytes a b).length = min a.length b.length :=
  List.length_zipWith

/-- The same bytes combined twice give the beginning of the data back. -/
theorem xorBytes_xorBytes (a b : List UInt8) : xorBytes a (xorBytes a b) = b.take a.length := by
  induction a generalizing b with
  | nil => rfl
  | cons x a ih =>
    cases b with
    | nil => rfl
    | cons y b =>
      have hxy : x ^^^ (x ^^^ y) = y := by rw [← UInt8.xor_assoc, UInt8.xor_self, UInt8.zero_xor]
      have hab := ih b
      simp only [xorBytes, List.zipWith_cons_cons, List.length_cons, List.take_succ_cons] at hab ⊢
      rw [hxy, hab]

theorem xorBytes_append (a b c : List UInt8) (h : a.length ≤ b.length) : xorBytes a (b ++ c) = xorBytes a b := by
  induction a generalizing b with
  | nil => rfl
  | cons x a ih =>
    cases b with
    | nil => cases h
    | cons y b => exact congrArg ((x ^^^ y) :: ·) (ih b (Nat.le_of_succ_le_succ h))

variable (cipher : BlockCipher) (key : List UInt8)

theorem length_drop_size {data : List UInt8} (h : data ≠ []) : (data.drop cipher.size).length < data.length := by
  have hpos := List.length_pos_iff.mpr h
  have hsize := cipher.size_pos
  rw [List.length_drop]
  omega

def cfbEncrypt (register data : List UInt8) : List UInt8 :=
  if _ : data = [] then []
  else
    let output := xorBytes (cipher.block key register) data
    output ++ cfbEncrypt output (data.drop cipher.size)
termination_by data.length
decreasing_by exact length_drop_size cipher ‹_›

def cfbDecrypt (register data : List UInt8) : List UInt8 :=
  if _ : data = [] then []
  else xorBytes (cipher.block key register) data ++ cfbDecrypt (data.take cipher.size) (data.drop cipher.size)
termination_by data.length
decreasing_by exact length_drop_size cipher ‹_›

theorem length_cfbEncrypt (register data : List UInt8) :
    (cfbEncrypt cipher key register data).length = data.length := by
  fun_induction cfbEncrypt cipher key register data with
  | case1 => rfl
  | case2 register data hne output ih =>
    rw [List.length_append, ih, length_xorBytes, cipher.length_block, List.length_drop]
    omega

theorem cfbDecrypt_cfbEncrypt (register data : List UInt8) :
    cfbDecrypt cipher key register (cfbEncrypt cipher key register data) = data := by
  fun_induction cfbEncrypt cipher key register data with
  | case1 register => rw [cfbDecrypt, dif_pos rfl]
  | case2 register data hne output ih =>
    have hlen : output.length = min cipher.size data.length := by rw [length_xorBytes, cipher.length_block]
    have hpos := List.length_pos_iff.mpr hne
    have hsize := cipher.size_pos
    have hblock : xorBytes (cipher.block key register) output = data.take cipher.size := by
      rw [xorBytes_xorBytes, cipher.length_block]
    have houtput : output ++ cfbEncrypt cipher key output (data.drop cipher.size) ≠ [] := by
      rw [← List.length_pos_iff, List.length_append]
      omega
    rw [cfbDecrypt, dif_neg houtput]
    by_cases hshort : data.length ≤ cipher.size
    · -- the last block
      have hrest : cfbEncrypt cipher key output (data.drop cipher.size) = [] := by
        rw [List.drop_eq_nil_of_le hshort, cfbEncrypt, dif_pos rfl]
      rw [hrest, List.append_nil, hblock, List.drop_eq_nil_of_le (by omega), cfbDecrypt, dif_pos rfl,
        List.append_nil, List.take_of_length_le hshort]
    · have hfull : output.length = cipher.size := by omega
      rw [xorBytes_append _ _ _ (by rw [cipher.length_block]; omega), hblock, List.take_left' hfull,
        List.drop_left' hfull, ih, List.take_append_drop]

end Wirc.Framework
