import Mathlib.Data.List.Basic
import Mathlib.Tactic.Ring

/-!
# Records of one size in a stream

A writer puts records of `n` elements in a stream, maybe a part of a record at
a time, and a reader takes `n` elements as soon as there are so many. What is
in the stream, with the part of the last record that is not written yet, is a
list of whole records (`InStream`): the reader takes them one by one
(`InStream.take`), and what it finds is never a part of two records.
-/

namespace Wirc.Framework

variable {α β : Type*} (code : α → List β) (n : Nat)

/-- The stream with the rest of its last record is these records. -/
structure InStream (stream rest : List β) (records : List α) : Prop where
  eq : stream ++ rest = records.flatMap code
  rest_lt : rest.length < n

variable {code n} {stream rest : List β} {records : List α}

theorem length_flatMap_code (hn : ∀ x, (code x).length = n) (records : List α) :
    (records.flatMap code).length = n * records.length := by
  induction records with
  | nil => rfl
  | cons x records ih =>
    rw [List.flatMap_cons, List.length_append, hn, ih, List.length_cons]
    ring

theorem InStream.nil (hn : 0 < n) : InStream code n [] [] [] := ⟨rfl, hn⟩

/-- A new record, of which a part is written. -/
theorem InStream.append (hn : ∀ x, (code x).length = n) (h : InStream code n stream [] records) (x : α) {k : Nat}
    (hk : 0 < k) : InStream code n (stream ++ (code x).take k) ((code x).drop k) (records ++ [x]) := by
  have hlen : 0 < n := h.rest_lt
  refine ⟨?_, ?_⟩
  · have heq : stream = records.flatMap code := by simpa using h.eq
    rw [List.append_assoc, List.take_append_drop, List.flatMap_append, heq, List.flatMap_cons, List.flatMap_nil,
      List.append_nil]
  · rw [List.length_drop, hn]
    omega

/-- More of the last record. -/
theorem InStream.write (h : InStream code n stream rest records) (k : Nat) :
    InStream code n (stream ++ rest.take k) (rest.drop k) records := by
  refine ⟨?_, ?_⟩
  · rw [List.append_assoc, List.take_append_drop]
    exact h.eq
  · rw [List.length_drop]
    exact Nat.lt_of_le_of_lt (Nat.sub_le ..) h.rest_lt

/-- The first record, when all of it is there. -/
theorem InStream.take (hn : ∀ x, (code x).length = n) (h : InStream code n stream rest records)
    (hlen : n ≤ stream.length) :
    ∃ x records', records = x :: records' ∧ stream.take n = code x ∧ InStream code n (stream.drop n) rest records' := by
  have heq := h.eq
  cases records with
  | nil =>
    have hnil : stream ++ rest = [] := by simpa using heq
    have hrest := h.rest_lt
    rw [(List.append_eq_nil_iff.mp hnil).1] at hlen
    exact absurd hrest (by simp only [List.length_nil] at hlen; omega)
  | cons x records' =>
    rw [List.flatMap_cons] at heq
    have htake : stream.take n = code x := by
      rw [← List.take_append_of_le_length hlen, heq, List.take_left' (hn x)]
    have hdrop : stream.drop n ++ rest = records'.flatMap code := by
      rw [← List.drop_append_of_le_length hlen, heq, List.drop_left' (hn x)]
    exact ⟨x, records', rfl, htake, hdrop, h.rest_lt⟩

/-- No record is in a stream that is too short for one. -/
theorem InStream.eq_nil (hn : ∀ x, (code x).length = n) (h : InStream code n stream [] records)
    (hlen : stream.length < n) : records = [] := by
  have heq : stream = records.flatMap code := by simpa using h.eq
  rw [heq, length_flatMap_code hn] at hlen
  cases records with
  | nil => rfl
  | cons x records =>
    rw [List.length_cons] at hlen
    exact absurd (Nat.le_mul_of_pos_right n (Nat.succ_pos records.length)) (Nat.not_le.mpr hlen)

end Wirc.Framework
