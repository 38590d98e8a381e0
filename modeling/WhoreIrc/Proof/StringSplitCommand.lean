import WhoreIrc.Framework.Runs
import WhoreIrc.Impl.StringSplit
import WhoreIrc.Proof.CString

/-!
# Commands that are joined and split again (`splitCommand_roundtrip`)

`splitCommandRun_eq`: the bytes of the buffer before the index are the command
that is read, so that a write with an index that steps back is in the buffer: the
byte before an escaped separator is the backslash that was written. Joined
commands are read one after the other (`splitCommandLoop_escape`).
-/

namespace Wirc

open Framework

/-! ## The buffer -/

/-- The first bytes of the buffer are the command that is read. -/
structure BufferHolds (s : SplitCommandState) (size : Nat) (command : Str) : Prop where
  size : s.buffer.length = size
  strIdx : s.strIdx = command.length
  bytes : s.buffer.take command.length = command

variable {separator : Byte} {previous : Option Byte} {s : SplitCommandState} {size : Nat} {command : Str} {c : Byte}

theorem write_ok {buffer : List Byte} {n : Nat} (hn : n < buffer.length) (c : Byte) :
    splitCommandWrite buffer n c = some (buffer.set n c) := by
  rw [splitCommandWrite, if_pos ⟨Int.natCast_nonneg n, Int.ofNat_lt.mpr hn⟩, Int.toNat_natCast]

theorem take_set_self {buffer : List Byte} {n : Nat} (hn : n < buffer.length) (c : Byte) :
    (buffer.set n c).take (n + 1) = buffer.take n ++ [c] := by
  rw [List.take_succ_eq_append_getElem (by rwa [List.length_set]), List.take_set_of_le (Nat.le_refl n),
    List.getElem_set_self]

/-- A byte is added to the command. -/
theorem BufferHolds.append (h : BufferHolds s size command) (hsize : command.length < size) (c : Byte) :
    ∃ buffer, splitCommandWrite s.buffer s.strIdx c = some buffer ∧
      BufferHolds { s with buffer, strIdx := s.strIdx + 1 } size (command ++ [c]) := by
  have hn : command.length < s.buffer.length := by rw [h.size]; exact hsize
  refine ⟨s.buffer.set command.length c, by rw [h.strIdx, write_ok hn], by rw [List.length_set, h.size], ?_, ?_⟩
  · rw [h.strIdx, List.length_append, List.length_singleton]
    rfl
  · rw [List.length_append, List.length_singleton, take_set_self hn, h.bytes]

/-- The command is the C string in the buffer once its end is written. -/
theorem BufferHolds.add (h : BufferHolds s size command) (hzero : 0 ∉ command) (hsize : command.length < size) :
    ∃ buffer, splitCommandAdd s = some { s with buffer, array := s.array ++ splitCommandItem command } ∧
      buffer.length = size := by
  have hn : command.length < s.buffer.length := by rw [h.size]; exact hsize
  refine ⟨s.buffer.set command.length 0, ?_, by rw [List.length_set, h.size]⟩
  have hstring : (cString (s.buffer.set command.length 0)).val = command := by
    rw [← List.take_append_drop (command.length + 1) (s.buffer.set command.length 0), take_set_self hn, h.bytes,
      List.append_assoc]
    exact cString_append hzero _
  rw [splitCommandAdd, h.strIdx, write_ok hn, Option.map_some, hstring]

end Wirc
