import Mathlib.Logic.Relation
import WhoreIrc.Spec.RelayWebsocket

/-!
# Websocket frames

What the decoder reads at a place of the buffer is said with the bytes from
there (`readFrame_unmasked`, `readFrame_rejected`, `readFrame_fits` and
`readFrame_outside`); the rest is an induction on the number of bytes left.
-/

namespace Wirc

open Framework

/-! ## Reading at a place -/

section

variable {buffer : List Byte} {index : Nat}

theorem readBytes_eq (hindex : index ≤ buffer.length) (n : Nat) :
    readBytes buffer index n =
      if n ≤ (buffer.drop index).length then some ((buffer.drop index).take n) else none := by
  rw [readBytes, List.length_drop]
  by_cases hn : n ≤ buffer.length - index
  · rw [if_pos hn, if_pos (by omega)]
  · rw [if_neg hn, if_neg (by omega)]

/-- The masks and the data are read if the check lets them. -/
theorem decodeData_eq {opcode : Byte} {size length : Nat} (hindex : index ≤ buffer.length)
    (hcheck : ¬ buffer.length < ullong (1 + size + 4 + length)) :
    relayWebsocketDecodeData buffer opcode size length index =
      if 4 + length ≤ (buffer.drop index).length then
        .frame (decodedType opcode ::
          decodeData ((buffer.drop index).take 4) (((buffer.drop index).drop 4).take length) ++ [0])
          (index + 4 + length)
      else .outside := by
  have hlength := List.length_drop (i := index) (l := buffer)
  rw [relayWebsocketDecodeData, if_neg hcheck, readBytes_eq hindex]
  by_cases hmasks : 4 ≤ (buffer.drop index).length
  · rw [if_pos hmasks]
    dsimp only
    rw [readBytes_eq (show index + 4 ≤ buffer.length by omega), ← List.drop_drop, List.length_drop]
    by_cases hdata : 4 + length ≤ (buffer.drop index).length
    · rw [if_pos hdata, if_pos (by omega)]
    · rw [if_neg hdata, if_neg (by omega)]
  · rw [if_neg hmasks, if_neg (by omega)]

end

section

variable {buffer rest : List Byte} {index : Nat} {b0 b1 : Byte}

theorem readBytes_two (hdrop : buffer.drop index = b0 :: b1 :: rest) : readBytes buffer index 2 = some [b0, b1] := by
  have hlength := congrArg List.length hdrop
  rw [List.length_drop, List.length_cons, List.length_cons] at hlength
  rw [readBytes_eq (by omega), hdrop, if_pos (by simp only [List.length_cons]; omega)]
  rfl

theorem drop_two (hdrop : buffer.drop index = b0 :: b1 :: rest) : buffer.drop (index + 2) = rest := by
  rw [← List.drop_drop, hdrop]
  rfl

theorem index_two (hdrop : buffer.drop index = b0 :: b1 :: rest) :
    index + 2 + rest.length = buffer.length := by
  have hlength := congrArg List.length hdrop
  rw [List.length_drop, List.length_cons, List.length_cons] at hlength
  omega

theorem lengthSize_cases (b1 : Byte) : lengthSize b1 = 0 ∧ ¬((b1 &&& 127).toNat = 126 ∨ (b1 &&& 127).toNat = 127) ∨
    lengthSize b1 ≠ 0 ∧ ((b1 &&& 127).toNat = 126 ∨ (b1 &&& 127).toNat = 127) ∧
      (if (b1 &&& 127).toNat = 126 then 2 else 8) = lengthSize b1 := by
  rw [lengthSize]
  by_cases h126 : (b1 &&& 127).toNat = 126
  · rw [if_pos h126, if_pos h126]
    exact .inr ⟨by decide, .inl h126, rfl⟩
  · rw [if_neg h126, if_neg h126]
    by_cases h127 : (b1 &&& 127).toNat = 127
    · rw [if_pos h127]
      exact .inr ⟨by decide, .inr h127, rfl⟩
    · rw [if_neg h127]
      exact .inl ⟨rfl, by rintro (h | h) <;> contradiction⟩

theorem readFrame_unmasked (hdrop : buffer.drop index = b0 :: b1 :: rest) (hmask : b1 &&& 128 = 0) :
    relayWebsocketReadFrame buffer index = .error := by
  rw [relayWebsocketReadFrame, readBytes_two hdrop]
  dsimp only
  rw [if_pos hmask]

/-- What is read after the two first bytes of a masked frame. -/
theorem readFrame_masked (hdrop : buffer.drop index = b0 :: b1 :: rest) (hmask : b1 &&& 128 ≠ 0) :
    relayWebsocketReadFrame buffer index =
      if lengthSize b1 ≠ 0 ∧ buffer.length < 1 + lengthSize b1 then .error
      else if lengthSize b1 ≤ rest.length then
        relayWebsocketDecodeData buffer (b0 &&& 15) (max 1 (lengthSize b1)) (dataLength b1 rest)
          (index + 2 + lengthSize b1)
      else .outside := by
  have hindex := index_two hdrop
  rw [relayWebsocketReadFrame, readBytes_two hdrop]
  dsimp only
  rw [if_neg hmask]
  rcases lengthSize_cases b1 with ⟨hzero, hnot⟩ | ⟨hsize, hlong, hsize'⟩
  · rw [if_neg hnot, if_neg (fun h => h.1 hzero), if_pos (by rw [hzero]; exact Nat.zero_le _), dataLength, if_pos hzero,
      hzero]
    rfl
  · have hmax : max 1 (lengthSize b1) = lengthSize b1 := Nat.max_eq_right (Nat.one_le_iff_ne_zero.mpr hsize)
    rw [if_pos hlong, hsize', hmax]
    by_cases hcheck : buffer.length < 1 + lengthSize b1
    · rw [if_pos hcheck, if_pos ⟨hsize, hcheck⟩]
    · rw [if_neg hcheck, if_neg (fun h => hcheck h.2), readBytes_eq (by omega), drop_two hdrop]
      by_cases hrest : lengthSize b1 ≤ rest.length
      · rw [if_pos hrest, if_pos hrest, dataLength, if_neg hsize]
      · rw [if_neg hrest, if_neg hrest]

theorem readFrame_rejected (hdrop : buffer.drop index = b0 :: b1 :: rest) (hmask : b1 &&& 128 ≠ 0)
    (hrejected : FrameRejected buffer.length (b0 :: b1 :: rest)) : relayWebsocketReadFrame buffer index = .error := by
  rw [readFrame_masked hdrop hmask]
  by_cases hcheck : lengthSize b1 ≠ 0 ∧ buffer.length < 1 + lengthSize b1
  · rw [if_pos hcheck]
  · rw [if_neg hcheck]
    rcases hrejected with hrejected | ⟨hrest, hlength⟩
    · exact absurd hrejected hcheck
    · rw [if_pos hrest, relayWebsocketDecodeData, if_pos hlength]

/-- What is decoded of a frame that fits, of this size. -/
def decodedFrame (size : Nat) : List Byte → List Byte
  | b0 :: b1 :: rest =>
    decodedType (b0 &&& 15) :: decodeData ((rest.drop (lengthSize b1)).take 4)
      ((rest.drop (lengthSize b1 + 4)).take (size - (2 + lengthSize b1 + 4))) ++ [0]
  | _ => []

/-- The checks do not reject a frame that fits. -/
theorem not_rejected_of_fits (hdrop : buffer.drop index = b0 :: b1 :: rest) {size : Nat}
    (hfits : FrameFits size (b0 :: b1 :: rest)) : ¬ FrameRejected buffer.length (b0 :: b1 :: rest) := by
  have hindex := index_two hdrop
  obtain ⟨hrest, rfl, hsize⟩ := hfits
  have hullong := Nat.mod_le (1 + max 1 (lengthSize b1) + 4 + dataLength b1 rest) 18446744073709551616
  rintro (⟨hne, hlength⟩ | ⟨-, hlength⟩)
  · omega
  · rw [ullong] at hlength
    omega

theorem readFrame_fits (hdrop : buffer.drop index = b0 :: b1 :: rest) (hmask : b1 &&& 128 ≠ 0) {size : Nat}
    (hfits : FrameFits size (b0 :: b1 :: rest)) :
    relayWebsocketReadFrame buffer index = .frame (decodedFrame size (b0 :: b1 :: rest)) (index + size) := by
  have hindex := index_two hdrop
  have hnot := not_rejected_of_fits hdrop hfits
  obtain ⟨hrest, rfl, hsize⟩ := hfits
  have hlength := List.length_drop (i := lengthSize b1) (l := rest)
  rw [readFrame_masked hdrop hmask, if_neg fun h => hnot (.inl h), if_pos hrest,
    decodeData_eq (by omega) fun h => hnot (.inr ⟨hrest, h⟩), ← List.drop_drop, drop_two hdrop, if_pos (by omega),
    decodedFrame, Nat.add_sub_cancel_left, List.drop_drop]
  congr 1
  omega

theorem readFrame_outside (hdrop : buffer.drop index = b0 :: b1 :: rest) (hmask : b1 &&& 128 ≠ 0)
    (hrejected : ¬ FrameRejected buffer.length (b0 :: b1 :: rest))
    (hfits : ∀ size, ¬ FrameFits size (b0 :: b1 :: rest)) : relayWebsocketReadFrame buffer index = .outside := by
  have hindex := index_two hdrop
  have hlength := List.length_drop (i := lengthSize b1) (l := rest)
  rw [readFrame_masked hdrop hmask, if_neg fun h => hrejected (.inl h)]
  by_cases hrest : lengthSize b1 ≤ rest.length
  · rw [if_pos hrest, decodeData_eq (by omega) fun h => hrejected (.inr ⟨hrest, h⟩), ← List.drop_drop, drop_two hdrop,
      if_neg fun h => hfits _ ⟨hrest, rfl, by omega⟩]
  · rw [if_neg hrest]

/-- Nothing is read at the end of the buffer. -/
theorem readFrame_end (hindex : index ≤ buffer.length) (hlength : (buffer.drop index).length < 2) :
    relayWebsocketReadFrame buffer index = .outside := by
  rw [relayWebsocketReadFrame, readBytes_eq hindex, if_neg (by omega)]

theorem decodeData_length (masks data : List Byte) : (decodeData masks data).length = data.length := by
  rw [decodeData, List.length_mapIdx]

theorem decodedFrame_length {size : Nat} (hfits : FrameFits size (b0 :: b1 :: rest)) :
    (decodedFrame size (b0 :: b1 :: rest)).length ≤ size := by
  obtain ⟨-, rfl, -⟩ := hfits
  rw [decodedFrame]
  simp only [List.length_append, List.length_cons, decodeData_length, List.length_take, List.length_nil]
  omega

end

/-! ## The frames one after the other -/

/-- A frame that fits starts at the first place, and the second is after it. -/
def FrameStep (buffer : List Byte) (index next : Nat) : Prop :=
  ∃ size, FrameFits size (buffer.drop index) ∧ next = index + size

theorem fits_unique {size size' : Nat} {bytes : List Byte} (h : FrameFits size bytes) (h' : FrameFits size' bytes) :
    size = size' := by
  rcases bytes with _ | ⟨b0, _ | ⟨b1, rest⟩⟩
  · cases h
  · cases h
  · exact h.2.1.trans h'.2.1.symm

theorem fits_pos {size : Nat} {bytes : List Byte} (h : FrameFits size bytes) : 2 ≤ size ∧ size ≤ bytes.length := by
  rcases bytes with _ | ⟨b0, _ | ⟨b1, rest⟩⟩
  · cases h
  · cases h
  · obtain ⟨hrest, hsize, hle⟩ := h
    simp only [List.length_cons]
    omega

theorem frameAt_iff {buffer : List Byte} {index : Nat} :
    FrameAt buffer index ↔ Relation.ReflTransGen (FrameStep buffer) 0 index := by
  constructor
  · intro h
    induction h with
    | start => exact .refl
    | next h hfits ih => exact ih.tail ⟨_, hfits, rfl⟩
  · intro h
    induction h with
    | refl => exact .start
    | tail h hstep ih =>
      obtain ⟨size, hfits, rfl⟩ := hstep
      exact ih.next hfits

section

variable {buffer rest decoded : List Byte} {index rounds : Nat}

/-- The round is entered where two bytes are left. -/
theorem round_entered (hbuffer : buffer.length < 18446744073709551616) (hlength : 2 ≤ (buffer.drop index).length) :
    ullong (index + 2) ≤ buffer.length := by
  rw [List.length_drop] at hlength
  rw [ullong, Nat.mod_eq_of_lt] <;> omega

theorem run_error (hbuffer : buffer.length < 18446744073709551616) (hlength : 2 ≤ (buffer.drop index).length)
    (hread : relayWebsocketReadFrame buffer index = .error) :
    runLoop (relayWebsocketDecodeRound buffer) (rounds + 1) (index, decoded) = some (some (false, decoded)) := by
  rw [runLoop_succ, relayWebsocketDecodeRound, if_pos (round_entered hbuffer hlength), hread]

theorem run_outside (hround : ullong (index + 2) ≤ buffer.length)
    (hread : relayWebsocketReadFrame buffer index = .outside) :
    runLoop (relayWebsocketDecodeRound buffer) (rounds + 1) (index, decoded) = some none := by
  rw [runLoop_succ, relayWebsocketDecodeRound, if_pos hround, hread]

theorem run_frame (hbuffer : buffer.length < 18446744073709551616) {b0 b1 : Byte}
    (hdrop : buffer.drop index = b0 :: b1 :: rest) (hmask : b1 &&& 128 ≠ 0) {size : Nat}
    (hfits : FrameFits size (b0 :: b1 :: rest)) :
    runLoop (relayWebsocketDecodeRound buffer) (rounds + 1) (index, decoded) =
      runLoop (relayWebsocketDecodeRound buffer) rounds
        (index + size, decoded ++ decodedFrame size (b0 :: b1 :: rest)) := by
  have hlength : 2 ≤ (buffer.drop index).length := by
    rw [hdrop]
    exact Nat.le_add_left ..
  rw [runLoop_succ, relayWebsocketDecodeRound, if_pos (round_entered hbuffer hlength), readFrame_fits hdrop hmask hfits]

/-- The loop ends at the end of the buffer. -/
theorem run_end (hindex : buffer.length + 2 < 18446744073709551616) :
    runLoop (relayWebsocketDecodeRound buffer) (rounds + 1) (buffer.length, decoded) = some (some (true, decoded)) := by
  have hround : ¬ ullong (buffer.length + 2) ≤ buffer.length := by
    rw [ullong, Nat.mod_eq_of_lt hindex]
    omega
  rw [runLoop_succ, relayWebsocketDecodeRound, if_neg hround]

/-- Frames that are checked are decoded inside the buffer. -/
theorem run_checked (hbuffer : buffer.length < 18446744073709551616) {bytes : List Byte}
    (h : FramesChecked buffer.length bytes) : ∀ (index rounds : Nat) (decoded : List Byte), bytes = buffer.drop index →
      index ≤ buffer.length → decoded.length ≤ index → bytes.length < rounds →
      ∃ rc d, runLoop (relayWebsocketDecodeRound buffer) rounds (index, decoded) = some (some (rc, d)) ∧
        d.length ≤ buffer.length ∧ (rc = true → ∀ index',
          Relation.ReflTransGen (FrameStep buffer) index index' → index' < buffer.length →
            ∃ size, FrameFits size (buffer.drop index')) := by
  induction h with
  | nil hlength =>
    rintro index (_ | rounds) decoded hdrop hindex hdecoded hrounds
    · cases hrounds
    · obtain rfl : index = buffer.length := by
        have := List.drop_eq_nil_iff.mp hdrop.symm
        omega
      refine ⟨true, decoded, run_end hlength, hdecoded, fun _ index' hfrom hlt => ?_⟩
      rcases hfrom.cases_head with rfl | ⟨next, ⟨size, hfits, -⟩, -⟩
      · exact absurd hlt (lt_irrefl _)
      · rw [← hdrop] at hfits
        cases hfits
  | unmasked hmask =>
    rintro index (_ | rounds) decoded hdrop hindex hdecoded hrounds
    · cases hrounds
    · refine ⟨false, decoded, run_error hbuffer (by rw [← hdrop]; exact Nat.le_add_left ..)
        (readFrame_unmasked hdrop.symm hmask), hdecoded.trans hindex, fun h => by cases h⟩
  | @rejected bytes hmask hrejected =>
    rintro index (_ | rounds) decoded hdrop hindex hdecoded hrounds
    · cases hrounds
    · rcases bytes with _ | ⟨b0, _ | ⟨b1, rest⟩⟩
      · cases hmask
      · cases hmask
      · refine ⟨false, decoded, run_error hbuffer (by rw [← hdrop]; exact Nat.le_add_left ..)
          (readFrame_rejected hdrop.symm hmask hrejected), hdecoded.trans hindex, fun h => by cases h⟩
  | @frame size bytes hmask hfits hrest ih =>
    rintro index (_ | rounds) decoded hdrop hindex hdecoded hrounds
    · cases hrounds
    · rcases bytes with _ | ⟨b0, _ | ⟨b1, rest⟩⟩
      · cases hmask
      · cases hmask
      · have hsize := fits_pos hfits
        have hlength := decodedFrame_length hfits
        have hdropLength := congrArg List.length hdrop
        rw [List.length_drop] at hdropLength
        obtain ⟨rc, d, hrun, hd, hchain⟩ := ih (index + size) rounds
          (decoded ++ decodedFrame size (b0 :: b1 :: rest)) (by rw [hdrop, List.drop_drop]) (by omega)
          (by rw [List.length_append]; omega) (by rw [List.length_drop]; omega)
        refine ⟨rc, d, (run_frame hbuffer hdrop.symm hmask hfits).trans hrun, hd, fun hrc index' hfrom hlt => ?_⟩
        rcases hfrom.cases_head with rfl | ⟨next, ⟨size', hfits', rfl⟩, hfrom⟩
        · exact ⟨size, hdrop ▸ hfits⟩
        · rw [← hdrop] at hfits'
          rw [fits_unique hfits' hfits] at hfrom
          exact hchain hrc index' hfrom hlt

/-- Otherwise a byte outside is read, or a frame that is cut is not an error. -/
theorem run_not_checked (hbuffer : buffer.length < 18446744073709551616) : ∀ (index rounds : Nat) (decoded : List Byte),
      ¬ FramesChecked buffer.length (buffer.drop index) → index ≤ buffer.length → FrameAt buffer index →
      (buffer.drop index).length < rounds →
      runLoop (relayWebsocketDecodeRound buffer) rounds (index, decoded) = some none ∨
        FrameCut buffer ∧ ∃ d, runLoop (relayWebsocketDecodeRound buffer) rounds (index, decoded) =
          some (some (true, d)) := by
  intro index rounds
  induction rounds generalizing index with
  | zero =>
    intro decoded hnot hindex hat hrounds
    cases hrounds
  | succ rounds ih =>
    intro decoded hnot hindex hat hrounds
    have hlength := List.length_drop (i := index) (l := buffer)
    rcases hdrop : buffer.drop index with _ | ⟨b0, _ | ⟨b1, rest⟩⟩
    · rw [hdrop] at hnot hlength
      have hwrap : ullong (index + 2) ≤ buffer.length := by
        have hn : ¬ buffer.length + 2 < 18446744073709551616 := fun h => hnot (.nil h)
        rw [List.length_nil] at hlength
        rw [ullong]
        omega
      exact .inl (run_outside hwrap (readFrame_end hindex (by rw [hdrop]; exact Nat.succ_pos _)))
    · rw [hdrop] at hlength
      rw [List.length_singleton] at hlength
      by_cases hwrap : ullong (index + 2) ≤ buffer.length
      · exact .inl (run_outside hwrap (readFrame_end hindex (by rw [hdrop]; exact Nat.lt_succ_self _)))
      · refine .inr ⟨⟨index, hat, by omega, fun size hfits => ?_⟩, decoded, ?_⟩
        · rw [hdrop] at hfits
          cases hfits
        · rw [runLoop_succ, relayWebsocketDecodeRound, if_neg hwrap]
    · rw [hdrop] at hnot
      have htwo : 2 ≤ (buffer.drop index).length := by
        rw [hdrop]
        exact Nat.le_add_left ..
      by_cases hmask : b1 &&& 128 = 0
      · exact absurd (.unmasked hmask) hnot
      by_cases hrejected : FrameRejected buffer.length (b0 :: b1 :: rest)
      · exact absurd (.rejected hmask hrejected) hnot
      by_cases hfits : ∃ size, FrameFits size (b0 :: b1 :: rest)
      · obtain ⟨size, hfits⟩ := hfits
        have hsize := fits_pos hfits
        rw [← hdrop] at hsize
        rw [run_frame hbuffer hdrop hmask hfits]
        refine ih (index + size) _ (fun h => hnot (.frame hmask hfits ?_)) (by omega)
          (hat.next (hdrop ▸ hfits)) (by rw [List.length_drop]; omega)
        rwa [← hdrop, List.drop_drop]
      · exact .inl (run_outside (round_entered hbuffer htwo)
          (readFrame_outside hdrop hmask hrejected fun size h => hfits ⟨size, h⟩))

end

/-- The decoder stays inside its buffers if and only if each frame, up to the
first that is not masked, fits in the rest of the buffer or is rejected by the
checks as they are. -/
theorem decodesInside_iff (buffer : List Byte) (hbuffer : buffer.length < 18446744073709551616) :
    DecodesInside buffer ↔ FramesChecked buffer.length buffer := by
  constructor
  · rintro ⟨rc, decoded, hdecode, hlength, hcut⟩
    by_contra hnot
    rcases run_not_checked hbuffer 0 (buffer.length + 1) [] hnot (Nat.zero_le _) .start (Nat.lt_succ_self _) with
      hrun | ⟨hframe, d, hrun⟩
    · rw [relayWebsocketDecodeFrame, hrun] at hdecode
      cases hdecode
    · rw [relayWebsocketDecodeFrame, hrun] at hdecode
      cases hdecode
      cases hcut hframe
  · intro h
    obtain ⟨rc, d, hrun, hd, hchain⟩ := run_checked hbuffer h 0 (buffer.length + 1) [] rfl (Nat.zero_le _)
      (Nat.zero_le _) (Nat.lt_succ_self _)
    refine ⟨rc, d, hrun, by omega, fun ⟨index, hat, hlt, hfits⟩ => ?_⟩
    cases rc with
    | false => rfl
    | true =>
      obtain ⟨size, hsize⟩ := hchain rfl index (frameAt_iff.mp hat) hlt
      exact absurd hsize (hfits size)

/-- An empty frame, and the two first bytes of another. -/
def cutFrame : List Byte := [129, 128, 0, 0, 0, 0, 129, 128]

theorem decodesInside_text : DecodesInside [129, 129, 0, 0, 0, 0, 97] :=
  (decodesInside_iff [129, 129, 0, 0, 0, 0, 97] (by decide)).mpr
    (.frame (show (129 : Byte) &&& 128 ≠ 0 by decide) (show FrameFits 7 _ from ⟨by decide, by decide, by decide⟩)
      (.nil (by decide)))

/-- The masks of the second frame are read after the end of the buffer. -/
theorem decodesInside_fails : ¬ DecodesInside cutFrame := by
  rintro ⟨rc, decoded, hdecode, -⟩
  have houtside : relayWebsocketDecodeFrame cutFrame = some none := by decide
  rw [houtside] at hdecode
  cases hdecode

/-! ## Frames of clients -/

theorem lengthFrame_eq (bytes : List Byte) : lengthFrame bytes = leNat bytes.reverse := by
  induction bytes with
  | nil => rfl
  | cons b bytes ih =>
    rw [lengthFrame, List.reverse_cons, leNat_append, ih, List.length_reverse, leNat, leNat, Nat.shiftLeft_eq,
      Nat.mul_comm bytes.length, pow_mul]
    norm_num
    ring

theorem length_beBytes (width n : Nat) : (beBytes width n).length = width := by
  rw [beBytes, List.length_reverse, length_leBytes]

theorem lengthFrame_beBytes {width n : Nat} (h : n < 256 ^ width) : lengthFrame (beBytes width n) = n := by
  rw [lengthFrame_eq, beBytes, List.reverse_reverse, leNat_leBytes_of_lt h]

theorem maskByte (n : Fin 128) :
    (UInt8.ofNat (128 + n.val) &&& 127).toNat = n.val ∧ UInt8.ofNat (128 + n.val) &&& 128 ≠ 0 ∧
      (UInt8.ofNat n.val &&& 127).toNat = n.val := by
  revert n
  decide

/-- The length is read back after the first byte, with the bit of the mask or not. -/
theorem encodeLength_eq {maskBit length : Nat} (hlength : length < 18446744073709551616)
    (hmask : maskBit = 0 ∨ maskBit = 128) (rest : List Byte) :
    ∃ b1 bytes, encodeLength maskBit length = b1 :: bytes ∧ (maskBit = 128 → b1 &&& 128 ≠ 0) ∧
      bytes.length = lengthSize b1 ∧ dataLength b1 (bytes ++ rest) = length := by
  have hbyte : ∀ n : Fin 128, (UInt8.ofNat (maskBit + n.val) &&& 127).toNat = n.val ∧
      (maskBit = 128 → UInt8.ofNat (maskBit + n.val) &&& 128 ≠ 0) := fun n => by
    rcases hmask with rfl | rfl
    · rw [Nat.zero_add]
      exact ⟨(maskByte n).2.2, fun h => by cases h⟩
    · exact ⟨(maskByte n).1, fun _ => (maskByte n).2.1⟩
  rw [encodeLength]
  by_cases hshort : length ≤ 125
  · obtain ⟨hvalue, hbit⟩ := hbyte ⟨length, by omega⟩
    dsimp only at hvalue hbit
    have hsize : lengthSize (UInt8.ofNat (maskBit + length)) = 0 := by
      rw [lengthSize, hvalue, if_neg (by omega), if_neg (by omega)]
    rw [if_pos hshort]
    exact ⟨_, [], rfl, hbit, hsize.symm, by rw [dataLength, if_pos hsize, hvalue]⟩
  · rw [if_neg hshort]
    by_cases hmedium : length ≤ 65535
    · obtain ⟨hvalue, hbit⟩ := hbyte ⟨126, by decide⟩
      have hsize : lengthSize (UInt8.ofNat (maskBit + 126)) = 2 := by
        rw [lengthSize, if_pos hvalue]
      rw [if_pos hmedium]
      refine ⟨_, beBytes 2 length, rfl, hbit, by rw [hsize, length_beBytes], ?_⟩
      rw [dataLength, if_neg (by rw [hsize]; decide), hsize, List.take_left' (length_beBytes 2 length),
        lengthFrame_beBytes (by omega)]
    · obtain ⟨hvalue, hbit⟩ := hbyte ⟨127, by decide⟩
      have hsize : lengthSize (UInt8.ofNat (maskBit + 127)) = 8 := by
        rw [lengthSize, hvalue]
        rfl
      rw [if_neg hmedium]
      refine ⟨_, beBytes 8 length, rfl, hbit, by rw [hsize, length_beBytes], ?_⟩
      rw [dataLength, if_neg (by rw [hsize]; decide), hsize, List.take_left' (length_beBytes 8 length),
        lengthFrame_beBytes (by omega)]

theorem xor_xor_mask (b m : Byte) : b ^^^ m ^^^ m = b := by
  rw [UInt8.xor_assoc, UInt8.xor_self, UInt8.xor_zero]

/-- Masking twice gives the data. -/
theorem decodeData_maskData (masks payload : List Byte) : decodeData masks (maskData masks payload) = payload := by
  refine List.ext_getElem ?_ fun i hi hi' => ?_
  · rw [decodeData, List.length_mapIdx, maskData, List.length_mapIdx]
  · simp only [decodeData, maskData, List.getElem_mapIdx, xor_xor_mask]

theorem maskData_length (masks payload : List Byte) : (maskData masks payload).length = payload.length := by
  rw [maskData, List.length_mapIdx]

/-- A frame of a client is masked, fits and is decoded. -/
theorem ClientFrame.encode_eq (frame : ClientFrame) (rest : List Byte) :
    ∃ b0 b1 bytes, frame.encode ++ rest = b0 :: b1 :: bytes ∧ b1 &&& 128 ≠ 0 ∧
      FrameFits frame.encode.length (b0 :: b1 :: bytes) ∧
      decodedFrame frame.encode.length (b0 :: b1 :: bytes) = frame.decoded := by
  have hpayload := frame.payload_length
  have hmasks := frame.masks_length
  have hdata := maskData_length frame.masks frame.payload
  obtain ⟨b1, bytes, hencode, hmask, hsize, hlength⟩ := encodeLength_eq
    (show frame.payload.length < 18446744073709551616 by omega) (.inr rfl)
    (frame.masks ++ (maskData frame.masks frame.payload ++ rest))
  have htotal : frame.encode.length = 2 + lengthSize b1 + 4 + frame.payload.length := by
    rw [ClientFrame.encode, hencode]
    simp only [List.length_append, List.length_cons]
    omega
  refine ⟨frame.head, b1, bytes ++ (frame.masks ++ (maskData frame.masks frame.payload ++ rest)), ?_, hmask rfl,
    ⟨?_, ?_, ?_⟩, ?_⟩
  · rw [ClientFrame.encode, hencode]
    simp only [List.append_assoc, List.cons_append]
  · rw [List.length_append]
    omega
  · rw [htotal, hlength]
  · rw [htotal]
    simp only [List.length_append]
    omega
  · rw [decodedFrame, htotal, Nat.add_sub_cancel_left, ← List.drop_drop, List.drop_left' hsize, List.take_left' hmasks,
      List.drop_left' hmasks, List.take_left' hdata, decodeData_maskData]
    rfl

section

variable {buffer decoded : List Byte} {index rounds : Nat}

/-- The frames of a client are decoded one after the other. -/
theorem run_frames (hbuffer : buffer.length + 2 < 18446744073709551616) (frames : List ClientFrame)
    (hdrop : buffer.drop index = frames.flatMap ClientFrame.encode) (hindex : index ≤ buffer.length)
    (hrounds : (buffer.drop index).length < rounds) :
    runLoop (relayWebsocketDecodeRound buffer) rounds (index, decoded) =
      some (some (true, decoded ++ frames.flatMap ClientFrame.decoded)) := by
  induction frames generalizing index decoded rounds with
  | nil =>
    obtain ⟨rounds, rfl⟩ := Nat.exists_eq_succ_of_ne_zero (Nat.ne_zero_of_lt hrounds)
    obtain rfl : index = buffer.length := by
      have := List.drop_eq_nil_iff.mp hdrop
      omega
    rw [List.flatMap_nil, List.append_nil]
    exact run_end hbuffer
  | cons frame frames ih =>
    obtain ⟨rounds, rfl⟩ := Nat.exists_eq_succ_of_ne_zero (Nat.ne_zero_of_lt hrounds)
    obtain ⟨b0, b1, bytes, hencode, hmask, hfits, hdecoded⟩ := frame.encode_eq (frames.flatMap ClientFrame.encode)
    rw [List.flatMap_cons] at hdrop
    have hsize := fits_pos hfits
    have hlength := congrArg List.length (hdrop.trans hencode)
    have hrest : buffer.drop (index + frame.encode.length) = frames.flatMap ClientFrame.encode := by
      rw [← List.drop_drop, hdrop, List.drop_left]
    rw [List.length_drop] at hlength hrounds
    rw [Nat.succ_eq_add_one, run_frame (by omega) (hdrop.trans hencode) hmask hfits, hdecoded,
      ih hrest (by omega) (by rw [List.length_drop]; omega), List.append_assoc, List.flatMap_cons]

end

/-! ## Frames of the server -/

theorem lengthByte_eq (length bits : Nat) : lengthByte length bits = UInt8.ofNat (length / 2 ^ bits) := by
  rw [lengthByte, Nat.shiftRight_eq_div_pow, Nat.and_two_pow_sub_one_eq_mod _ 8]
  exact UInt8.toNat_inj.mp (by simp only [UInt8.toNat_ofNat', Nat.mod_mod])

/-- The length is written as in the frames of clients, without the bit of the mask. -/
theorem encodeFrame_eq (opcode : Byte) (data : List Byte) :
    relayWebsocketEncodeFrame opcode data = (0x80 ||| opcode) :: encodeLength 0 data.length ++ data := by
  have hnested : ∀ a : Nat, a / 256 / 256 = a / 65536 := fun a => by rw [Nat.div_div_eq_div_mul]
  have h2 : [lengthByte data.length 8, lengthByte data.length 0] = beBytes 2 data.length := by
    simp only [lengthByte_eq, beBytes, leBytes, List.reverse_cons, List.reverse_nil, List.nil_append,
      List.cons_append, Nat.reducePow, Nat.div_one]
  have h8 : [56, 48, 40, 32, 24, 16, 8, 0].map (lengthByte data.length) = beBytes 8 data.length := by
    simp only [List.map_cons, List.map_nil, lengthByte_eq, beBytes, leBytes, List.reverse_cons, List.reverse_nil,
      List.nil_append, List.cons_append, Nat.reducePow, Nat.div_one, Nat.div_div_eq_div_mul, Nat.reduceMul]
  rw [relayWebsocketEncodeFrame, encodeLength, h2, h8, Nat.zero_add]
  rfl

theorem serverPayload_encodeFrame (opcode : Byte) {data : List Byte} (h : data.length < 18446744073709551616) :
    serverPayload (relayWebsocketEncodeFrame opcode data) = some data := by
  obtain ⟨b1, bytes, hencode, -, hsize, hlength⟩ := encodeLength_eq h (.inl rfl) data
  rw [encodeFrame_eq, hencode, List.cons_append, List.cons_append, serverPayload, hlength,
    if_pos ⟨by rw [List.length_append]; omega, by rw [List.length_append, hsize]⟩, List.drop_left' hsize]

/-- The frames of a client are decoded, and the data of a frame of the server is
read back; no object is larger than what memory can hold. -/
theorem websocket_roundtrip :
    (∀ frames : List ClientFrame, (frames.flatMap ClientFrame.encode).length ≤ ptrdiffMax →
      relayWebsocketDecodeFrame (frames.flatMap ClientFrame.encode) =
        some (some (true, frames.flatMap ClientFrame.decoded))) ∧
      ∀ (opcode : Byte) (data : List Byte), data.length ≤ ptrdiffMax →
        serverPayload (relayWebsocketEncodeFrame opcode data) = some data := by
  refine ⟨fun frames hframes => ?_, fun opcode data hdata => ?_⟩
  · rw [ptrdiffMax] at hframes
    exact run_frames (by omega) frames rfl (Nat.zero_le _) (Nat.lt_succ_self _)
  · rw [ptrdiffMax] at hdata
    exact serverPayload_encodeFrame opcode (by omega)

/-- A text. -/
def helloFrame : ClientFrame := ⟨129, [9, 8, 7, 6], lit "hello", rfl, by decide⟩

theorem websocket_roundtrip_hello :
    relayWebsocketDecodeFrame ([helloFrame].flatMap ClientFrame.encode) =
        some (some (true, [helloFrame].flatMap ClientFrame.decoded)) ∧
      serverPayload (relayWebsocketEncodeFrame websocketFrameOpcodeText (lit "hello")) = some (lit "hello") :=
  ⟨websocket_roundtrip.1 [helloFrame] (by decide), websocket_roundtrip.2 _ (lit "hello") (by decide)⟩

end Wirc
