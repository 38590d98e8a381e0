import WhoreIrc.Proof.Utf8

/-!
# The input of a buffer is consistent

`buffer.Chars chars`: the input is the concatenation of `chars`, and what is
kept of it agrees with them. Each operation is an operation on this list of
characters, and writes inside the memory of the input.
-/

namespace Wirc

/-! ## Memory -/

section

variable {memory a b c bytes : List Byte}

theorem writeBytes_eq {pos : Nat} (h : memory = a ++ (b ++ c)) (hpos : pos = a.length)
    (hlength : bytes.length = b.length) :
    writeBytes memory pos bytes = some (a ++ (bytes ++ c)) := by
  subst h hpos
  have hle : a.length + bytes.length ≤ (a ++ (b ++ c)).length := by
    rw [List.length_append, List.length_append]
    omega
  rw [writeBytes, if_pos hle, List.take_left, hlength, ← List.drop_drop, List.drop_left, List.drop_left]

/-- The bytes at `src` are copied to `dest`. -/
theorem moveBytes_eq {dest src n : Nat} (hsrc : (memory.drop src).take n = bytes) (hle : src + n ≤ memory.length)
    (h : memory = a ++ (b ++ c)) (hdest : dest = a.length) (hlength : bytes.length = b.length) :
    moveBytes memory dest src n = some (a ++ (bytes ++ c)) := by
  rw [moveBytes, if_pos hle, hsrc]
  exact writeBytes_eq h hdest hlength

theorem reallocBytes_length (garbage : Nat → Byte) (size : Nat) : (reallocBytes garbage memory size).length = size := by
  rw [reallocBytes, List.length_append, List.length_take, List.length_map, List.length_range]
  omega

/-- What is at the beginning is kept. -/
theorem reallocBytes_append (garbage : Nat → Byte) {size : Nat} (h : a.length ≤ size) :
    ∃ rest, reallocBytes garbage (a ++ b) size = a ++ rest := by
  refine ⟨b.take (size - a.length) ++ (List.range (size - (a ++ b).length)).map garbage, ?_⟩
  rw [reallocBytes, List.take_append, List.take_of_length_le h, List.append_assoc]

end

theorem cString_append_cons {s : List Byte} (hs : 0 ∉ s) (rest : List Byte) :
    (cString (s ++ rest)).1 = s ++ (cString rest).1 := by
  have hall : ∀ c ∈ s, decide (c ≠ 0) = true := fun c hc => decide_eq_true fun h => hs (h ▸ hc)
  exact List.takeWhile_append_of_pos hall

namespace GuiInput

/-- The input is the characters `chars`. -/
structure Chars (buffer : GuiInput) (chars : List Str) : Prop where
  input : buffer.input = true
  valid : ∀ c ∈ chars, IsValidChar c
  noZero : 0 ∉ chars.flatten
  bytes : ∃ rest, buffer.inputBuffer = chars.flatten ++ 0 :: rest
  memory : (buffer.inputBuffer.length : Int) = buffer.inputBufferAlloc
  size : buffer.inputBufferSize = chars.flatten.length
  length : buffer.inputBufferLength = chars.length
  pos_nonneg : 0 ≤ buffer.inputBufferPos
  pos_le : buffer.inputBufferPos ≤ chars.length

/-- No undo is changed. -/
structure SameUndos (buffer buffer' : GuiInput) : Prop where
  snap : buffer'.inputUndoSnap = buffer.inputUndoSnap
  list : buffer'.inputUndo = buffer.inputUndo
  ptr : buffer'.ptrInputUndo = buffer.ptrInputUndo
  count : buffer'.inputUndoCount = buffer.inputUndoCount

theorem SameUndos.refl (buffer : GuiInput) : SameUndos buffer buffer := ⟨rfl, rfl, rfl, rfl⟩

theorem SameUndos.trans {b1 b2 b3 : GuiInput} (h : SameUndos b1 b2) (h' : SameUndos b2 b3) : SameUndos b1 b3 :=
  ⟨h'.snap.trans h.snap, h'.list.trans h.list, h'.ptr.trans h.ptr, h'.count.trans h.count⟩

variable {buffer : GuiInput} {chars : List Str}

theorem Chars.text (h : buffer.Chars chars) : buffer.text.1 = chars.flatten := by
  obtain ⟨rest, hrest⟩ := h.bytes
  rw [GuiInput.text, hrest]
  exact cString_append h.noZero rest

theorem Chars.size_lt (h : buffer.Chars chars) : buffer.inputBufferSize < buffer.inputBufferAlloc := by
  obtain ⟨rest, hrest⟩ := h.bytes
  rw [h.size, ← h.memory, hrest, List.length_append, List.length_cons]
  omega

theorem Chars.consistent (h : buffer.Chars chars) : buffer.Consistent where
  memory := h.memory
  valid := by rw [h.text]; exact utf8IsValid_flatten h.valid
  size := by rw [h.text, h.size]
  alloc := h.size_lt
  length := by rw [h.text, h.length, utf8Strlen_flatten h.valid]
  pos_nonneg := h.pos_nonneg
  pos_le := by rw [h.length]; exact h.pos_le

theorem Consistent.exists_chars (h : buffer.Consistent) (hinput : buffer.input = true) :
    ∃ chars, buffer.Chars chars := by
  obtain ⟨chars, hchars, htext⟩ := exists_chars_of_valid h.valid
  have hlength : buffer.inputBufferLength = chars.length := by rw [h.length, htext, utf8Strlen_flatten hchars]
  refine ⟨chars, hinput, hchars, htext ▸ buffer.text.2, ?_, h.memory, by rw [h.size, htext], hlength, h.pos_nonneg, ?_⟩
  · -- there is a byte after the text, and it is not in the text
    have hlt : buffer.text.1.length < buffer.inputBuffer.length := by
      have h1 := h.size
      have h2 := h.alloc
      have h3 := h.memory
      omega
    have hsplit := List.takeWhile_append_dropWhile (p := fun c : Byte => decide (c ≠ 0)) (l := buffer.inputBuffer)
    change buffer.text.1 ++ _ = _ at hsplit
    cases hrest : buffer.inputBuffer.dropWhile fun c : Byte => decide (c ≠ 0) with
    | nil =>
      rw [hrest, List.append_nil] at hsplit
      rw [hsplit] at hlt
      exact absurd hlt (Nat.lt_irrefl _)
    | cons c rest =>
      have hzero : c = 0 := by
        have hnot := List.head_dropWhile_not (fun c : Byte => decide (c ≠ 0)) (l := buffer.inputBuffer)
          (by rw [hrest]; exact List.cons_ne_nil _ _)
        simpa only [hrest, List.head_cons, decide_eq_false_iff_not, not_not] using hnot
      refine ⟨rest, ?_⟩
      rw [← htext, ← hsplit, hrest, hzero]
  · rw [← hlength]
    exact h.pos_le

end GuiInput

open GuiInput

section

variable {env : GuiInputEnv} {buffer : GuiInput} {chars : List Str}

/-! ## Places -/

theorem addOffset_text (buffer : GuiInput) (hvalid : ∀ c ∈ chars, IsValidChar c)
    (htext : buffer.text.1 = chars.flatten) (pos : Int) :
    guiInputAddOffset buffer pos = (chars.take pos.toNat).flatten.length := by
  rw [guiInputAddOffset, htext, utf8AddOffset_drop hvalid, off,
    ← congrArg List.length (congrArg List.flatten (List.take_append_drop pos.toNat chars)),
    List.flatten_append, List.length_append, Nat.add_sub_cancel]

theorem GuiInput.Chars.addOffset (h : buffer.Chars chars) (pos : Int) :
    guiInputAddOffset buffer pos = (chars.take pos.toNat).flatten.length := addOffset_text _ h.valid h.text pos

theorem GuiInput.Chars.strlen {pre post : List Str} (h : buffer.Chars (pre ++ post)) :
    guiInputStrlen buffer pre.flatten.length = post.flatten.length := by
  rw [guiInputStrlen, h.text, List.flatten_append, List.drop_left]

theorem GuiInput.Chars.nextChar {pre post : List Str} {c : Str} (h : buffer.Chars (pre ++ c :: post)) :
    guiInputNextChar buffer pre.flatten.length = (pre ++ [c]).flatten.length := by
  rw [guiInputNextChar, h.text, List.flatten_append, List.drop_left, List.flatten_cons,
    (h.valid c (List.mem_append_right _ (List.mem_cons_self ..))).charSize, List.flatten_append, List.length_append,
    List.flatten_singleton]

theorem GuiInput.Chars.prevChar {pre post : List Str} {c : Str} (h : buffer.Chars (pre ++ c :: post)) :
    utf8PrevChar buffer.text.1 (pre ++ [c]).flatten.length = some pre.flatten.length := by
  rw [h.text, List.flatten_append, List.flatten_append, List.flatten_cons, List.flatten_singleton, List.length_append]
  exact utf8PrevChar_char (h.valid c (List.mem_append_right _ (List.mem_cons_self ..))) _ _

/-! ## Sizes -/

/-- The memory has a byte more than the size. -/
theorem lt_inputAlloc (size : Nat) : size < inputAlloc size := by
  rw [inputAlloc]
  omega

/-- The size is set, the memory is as large as it should be, and `keep` is kept. -/
theorem optimizeSize_ok (env : GuiInputEnv) {keep : List Byte} (rest : List Byte) (hinput : buffer.input = true)
    (hbytes : buffer.inputBuffer = keep ++ rest)
    (hmemory : (buffer.inputBuffer.length : Int) = buffer.inputBufferAlloc) (newSize : Nat) (newLength : Int)
    (hkeep : keep.length ≤ newSize + 1) :
    ∃ rest' : List Byte, guiInputOptimizeSize env buffer newSize newLength = (true, { buffer with
      inputBuffer := keep ++ rest', inputBufferAlloc := inputAlloc newSize, inputBufferSize := newSize,
      inputBufferLength := newLength }) ∧
      (keep ++ rest').length = inputAlloc newSize := by
  have hoptimal : (newSize : Int).tdiv guiBufferInputBlockSize * guiBufferInputBlockSize + guiBufferInputBlockSize =
      inputAlloc newSize := by
    rw [Int.tdiv_eq_ediv_of_nonneg (Int.natCast_nonneg _), inputAlloc]
    show (newSize : Int) / 256 * 256 + 256 = _
    omega
  have hif : guiInputOptimizeSize env buffer newSize newLength =
      (true, { (if buffer.inputBufferAlloc ≠ (inputAlloc newSize : Int) then
        { buffer with
          inputBuffer := reallocBytes env.garbage buffer.inputBuffer (inputAlloc newSize)
          inputBufferAlloc := inputAlloc newSize }
      else buffer) with inputBufferSize := newSize, inputBufferLength := newLength }) := by
    rw [guiInputOptimizeSize, if_pos hinput, hoptimal]
    rfl
  have hlt := lt_inputAlloc newSize
  rw [hif]
  by_cases halloc : buffer.inputBufferAlloc = (inputAlloc newSize : Int)
  · refine ⟨rest, ?_, ?_⟩
    · rw [if_neg (not_not.mpr halloc), ← hbytes, ← halloc]
    · rw [← hbytes]
      omega
  · obtain ⟨rest', hrest'⟩ := reallocBytes_append env.garbage (b := rest) (show keep.length ≤ inputAlloc newSize by omega)
    refine ⟨rest', ?_, ?_⟩
    · rw [if_pos halloc, hbytes, hrest']
    · rw [← hrest', reallocBytes_length]

/-- What an operation does on the characters, without the undos. -/
def Becomes (result : Option GuiInput) (buffer : GuiInput) (chars : List Str) : Prop :=
  ∃ buffer', result = some buffer' ∧ buffer'.Chars chars ∧ SameUndos buffer buffer'

theorem replaceInput_chars (env : GuiInputEnv) (h : buffer.Chars chars) (newInput : CStr) :
    ∃ chars', chars'.flatten = utf8Normalize newInput (ch '?') ∧
      Becomes (guiInputReplaceInput env buffer newInput) buffer chars' := by
  obtain ⟨chars', hvalid, hnormal⟩ := utf8Normalize_chars (show ch '?' < 0x80 by decide) newInput
  have hzero : 0 ∉ chars'.flatten := fun hmem => by
    rw [← hnormal] at hmem
    rcases utf8Normalize_mem hmem with h | h
    · exact absurd h (by decide)
    · exact newInput.2 h
  have halloc := lt_inputAlloc chars'.flatten.length
  obtain ⟨rest, hoptimize, hlength⟩ := optimizeSize_ok env _ h.input (List.nil_append _).symm h.memory
    chars'.flatten.length chars'.length (Nat.zero_le _)
  rw [List.nil_append] at hoptimize hlength
  have hsplit : rest = [] ++ (rest.take (chars'.flatten.length + 1) ++ rest.drop (chars'.flatten.length + 1)) := by
    rw [List.take_append_drop, List.nil_append]
  have htake : (chars'.flatten ++ [0]).length = (rest.take (chars'.flatten.length + 1)).length := by
    rw [List.length_append, List.length_singleton, List.length_take]
    omega
  have hwrite := writeBytes_eq hsplit rfl htake
  rw [List.length_nil, List.nil_append] at hwrite
  refine ⟨chars', hnormal.symm, { buffer with
    inputBuffer := chars'.flatten ++ [0] ++ rest.drop (chars'.flatten.length + 1)
    inputBufferAlloc := inputAlloc chars'.flatten.length
    inputBufferSize := chars'.flatten.length
    inputBufferLength := chars'.length
    inputBufferPos := min buffer.inputBufferPos chars'.length }, ?_, ?_, ⟨rfl, rfl, rfl, rfl⟩⟩
  · rw [guiInputReplaceInput, hnormal, utf8Strlen_flatten hvalid, hoptimize]
    dsimp only
    rw [GuiInput.write, if_pos (Int.le_refl 0), Int.toNat_zero, hwrite]
    rfl
  · refine ⟨h.input, hvalid, hzero, ⟨_, List.append_assoc _ _ _⟩, congrArg Nat.cast ?_, rfl, rfl, ?_, ?_⟩
    · show (chars'.flatten ++ [0] ++ rest.drop (chars'.flatten.length + 1)).length = inputAlloc chars'.flatten.length
      rw [← hlength, List.length_append, List.length_append, List.length_drop, List.length_singleton]
      omega
    · have := h.pos_nonneg
      show 0 ≤ min buffer.inputBufferPos chars'.length
      omega
    · show min buffer.inputBufferPos chars'.length ≤ chars'.length
      omega

/-- The size is set to that of `keep`, and the `\0` is written after it. -/
theorem optimizeSize_write (env : GuiInputEnv) {keep rest : List Byte} (hinput : buffer.input = true)
    (hbytes : buffer.inputBuffer = keep ++ rest) (hmemory : (buffer.inputBuffer.length : Int) = buffer.inputBufferAlloc)
    (newLength : Int) :
    ∃ (buffer' : GuiInput) (rest' : List Byte),
      guiInputOptimizeSize env buffer keep.length newLength = (true, buffer') ∧
      buffer'.inputBufferSize = keep.length ∧ buffer'.write keep.length [0] = some { buffer with
        inputBuffer := keep ++ 0 :: rest', inputBufferAlloc := inputAlloc keep.length, inputBufferSize := keep.length,
        inputBufferLength := newLength } ∧
      (keep ++ 0 :: rest').length = inputAlloc keep.length := by
  have halloc := lt_inputAlloc keep.length
  obtain ⟨rest', hoptimize, hlength⟩ := optimizeSize_ok env _ hinput hbytes hmemory keep.length newLength (Nat.le_succ _)
  cases rest' with
  | nil =>
    rw [List.append_nil] at hlength
    omega
  | cons x rest' =>
    refine ⟨_, rest', hoptimize, rfl, ?_, ?_⟩
    · have hwrite : writeBytes (keep ++ x :: rest') keep.length [0] = some (keep ++ ([0] ++ rest')) :=
        writeBytes_eq (b := [x]) rfl rfl rfl
      rw [GuiInput.write, if_pos (Int.natCast_nonneg _), Int.toNat_natCast, hwrite]
      rfl
    · rw [← hlength, List.length_append, List.length_append]
      rfl

/-- The characters between two places are deleted. -/
theorem delete_chars (env : GuiInputEnv) {pre mid post : List Str} (h : buffer.Chars (pre ++ mid ++ post)) {moved : Int}
    (hpos : 0 ≤ buffer.inputBufferPos - moved) (hle : buffer.inputBufferPos - moved ≤ (pre ++ post).length) :
    Becomes (guiInputDelete env buffer pre.flatten.length (pre ++ mid).flatten.length mid.length moved) buffer
      (pre ++ post) := by
  obtain ⟨rest, hbytes⟩ := h.bytes
  obtain ⟨junk, hmove, hjunk⟩ : ∃ junk, moveBytes buffer.inputBuffer pre.flatten.length (pre ++ mid).flatten.length
      post.flatten.length = some ((pre ++ post).flatten ++ junk) ∧
      ((pre ++ post).flatten ++ junk).length = buffer.inputBuffer.length := by
    have hsplit : buffer.inputBuffer = pre.flatten ++ (mid.flatten ++ (post.flatten ++ 0 :: rest)) := by
      rw [hbytes, List.flatten_append, List.flatten_append, List.append_assoc, List.append_assoc]
    have hrest : buffer.inputBuffer = (pre ++ mid).flatten ++ (post.flatten ++ 0 :: rest) := by
      rw [hsplit, List.flatten_append, List.append_assoc]
    refine ⟨(mid.flatten ++ (post.flatten ++ 0 :: rest)).drop post.flatten.length, ?_, ?_⟩
    · rw [show (pre ++ post).flatten ++ (mid.flatten ++ (post.flatten ++ 0 :: rest)).drop post.flatten.length =
          pre.flatten ++ (post.flatten ++ (mid.flatten ++ (post.flatten ++ 0 :: rest)).drop post.flatten.length) by
        rw [List.flatten_append, List.append_assoc]]
      refine moveBytes_eq (b := (mid.flatten ++ (post.flatten ++ 0 :: rest)).take post.flatten.length) ?_ ?_ ?_ rfl ?_
      · rw [hrest, List.drop_left, List.take_left]
      · rw [hrest, List.length_append, List.length_append]
        omega
      · rw [List.take_append_drop, hsplit]
      · rw [List.length_take, List.length_append, List.length_append]
        omega
    · rw [hsplit, List.flatten_append]
      simp only [List.length_append, List.length_drop, List.length_cons]
      omega
  have hsize : buffer.inputBufferSize - (((pre ++ mid).flatten.length : Int) - pre.flatten.length) =
      ((pre ++ post).flatten.length : Int) := by
    rw [h.size]
    simp only [List.flatten_append, List.length_append]
    omega
  have hcount : buffer.inputBufferLength - mid.length = ((pre ++ post).length : Int) := by
    rw [h.length]
    simp only [List.length_append]
    omega
  obtain ⟨buffer', rest', hoptimize, hset, hwrite, hlength⟩ := optimizeSize_write env
    (show ({ buffer with inputBuffer := (pre ++ post).flatten ++ junk } : GuiInput).input = true from h.input) rfl
    (show (((pre ++ post).flatten ++ junk).length : Int) = buffer.inputBufferAlloc by rw [hjunk, h.memory])
    ((pre ++ post).length : Int)
  refine ⟨{ buffer with
    inputBuffer := (pre ++ post).flatten ++ 0 :: rest'
    inputBufferAlloc := inputAlloc (pre ++ post).flatten.length
    inputBufferSize := (pre ++ post).flatten.length
    inputBufferLength := (pre ++ post).length
    inputBufferPos := buffer.inputBufferPos - moved }, ?_, ?_, ⟨rfl, rfl, rfl, rfl⟩⟩
  · rw [guiInputDelete, h.strlen, GuiInput.move, hmove]
    dsimp only [Option.map_some, Option.bind_eq_bind, Option.bind_some]
    rw [hsize, hcount, hoptimize]
    dsimp only
    rw [hset, hwrite]
    rfl
  · have hvalid : ∀ c ∈ pre ++ post, IsValidChar c := fun c hc => h.valid c (by
      rw [List.mem_append, List.mem_append]
      exact (List.mem_append.mp hc).imp_left .inl)
    have hzero : 0 ∉ (pre ++ post).flatten := fun hmem => h.noZero (by
      simp only [List.flatten_append, List.mem_append] at hmem ⊢
      exact hmem.imp_left .inl)
    exact ⟨h.input, hvalid, hzero, ⟨rest', rfl⟩, congrArg _ hlength, rfl, rfl, hpos, hle⟩

/-- After the end of a string with room for more, a gap of `size` bytes and the byte where the
longer string ends. -/
theorem exists_gap {rest : List Byte} {size : Nat} (hlt : size < (0 :: rest).length) :
    ∃ (gap : List Byte) (old : Byte) (after rest' : List Byte),
      0 :: rest = gap ++ old :: after ∧ gap.length = size ∧ gap ++ 0 :: after = 0 :: rest' := by
  obtain ⟨old, after, hdrop⟩ := List.exists_cons_of_ne_nil fun hnil : (0 :: rest).drop size = [] =>
    absurd (List.drop_eq_nil_iff.mp hnil) (Nat.not_le_of_lt hlt)
  have hsplit : 0 :: rest = (0 :: rest).take size ++ old :: after := by rw [← hdrop, List.take_append_drop]
  have hlength : ((0 :: rest).take size).length = size := by
    rw [List.length_take]
    omega
  cases size with
  | zero => exact ⟨_, old, after, _, hsplit, hlength, rfl⟩
  | succ size => exact ⟨_, old, after, _, hsplit, hlength, rfl⟩

/-- The end of a string is moved over a gap. -/
theorem moveBytes_gap {pre post gap after : List Byte} :
    moveBytes (pre ++ post ++ gap ++ after) (pre.length + gap.length) pre.length post.length =
      some (pre ++ (post ++ gap).take gap.length ++ (post ++ after)) := by
  refine moveBytes_eq (b := (post ++ gap).drop gap.length) ?_ ?_ ?_ ?_ ?_
  · simp only [List.append_assoc, List.drop_left, List.take_left]
  · simp only [List.length_append]
    omega
  · simp only [List.append_assoc]
    rw [← List.append_assoc post gap, ← List.append_assoc (List.take _ _), List.take_append_drop]
  · rw [List.length_append, List.length_take, List.length_append]
    omega
  · rw [List.length_drop, List.length_append]
    omega

/-- The place is found again when the bytes after it have moved. -/
theorem offset_moved (hvalid : ∀ c ∈ chars, IsValidChar c) (hzero : 0 ∉ chars.flatten) {gap after rest : List Byte}
    (hend : gap ++ 0 :: after = 0 :: rest) (place : Nat) {moved : List Byte}
    (hmoved : moved = (chars.take place).flatten ++ ((chars.drop place).flatten ++ gap).take gap.length ++
      ((chars.drop place).flatten ++ 0 :: after)) :
    off (cString moved).1 (utf8AddOffset (cString moved).1 place) = (chars.take place).flatten.length := by
  rw [hmoved]
  by_cases hle : place ≤ chars.length
  · have hlen : (chars.take place).length = place := List.length_take_of_le hle
    have hpre : 0 ∉ (chars.take place).flatten := fun hmem => hzero (by
      rw [← List.take_append_drop place chars, List.flatten_append]
      exact List.mem_append_left _ hmem)
    have hoffset := utf8AddOffset_flatten fun c hc => hvalid c (List.mem_of_mem_take (i := place) hc)
    rw [hlen] at hoffset
    rw [List.append_assoc, cString_append_cons hpre, hoffset, off_append]
  · have hall : chars.take place = chars := List.take_of_length_le (by omega)
    have hnone : chars.drop place = [] := List.drop_eq_nil_of_le (by omega)
    rw [hall, hnone, List.flatten_nil, List.nil_append, List.nil_append, List.take_length, List.append_assoc, hend,
      cString_append hzero, utf8AddOffset_drop hvalid, List.drop_eq_nil_of_le (by omega)]
    rfl

/-- The text with new characters. -/
theorem chars_inserted {pre post new : List Str} (h : buffer.Chars (pre ++ post)) (hnew : ∀ c ∈ new, IsValidChar c)
    (hzero : 0 ∉ new.flatten) {after : List Byte} {alloc : Int}
    (halloc : ((pre.flatten ++ (new.flatten ++ (post.flatten ++ 0 :: after))).length : Int) = alloc) :
    GuiInput.Chars { buffer with
      inputBuffer := pre.flatten ++ (new.flatten ++ (post.flatten ++ 0 :: after))
      inputBufferAlloc := alloc
      inputBufferSize := ((pre ++ post).flatten.length + new.flatten.length : Nat)
      inputBufferLength := ((pre ++ post).length + new.length : Nat)
      inputBufferPos := buffer.inputBufferPos + new.length } (pre ++ new ++ post) := by
  have hresult : (pre ++ new ++ post).flatten = pre.flatten ++ (new.flatten ++ post.flatten) := by
    rw [List.flatten_append, List.flatten_append, List.append_assoc]
  have hcount : (pre ++ new ++ post).length = (pre ++ post).length + new.length := by
    simp only [List.length_append]
    omega
  refine ⟨h.input, ?_, ?_, ⟨after, ?_⟩, halloc, ?_, congrArg _ hcount.symm, ?_, ?_⟩
  · intro c hc
    rw [List.mem_append, List.mem_append] at hc
    rcases hc with (hc | hc) | hc
    · exact h.valid c (List.mem_append_left _ hc)
    · exact hnew c hc
    · exact h.valid c (List.mem_append_right _ hc)
  · rw [hresult, List.mem_append, List.mem_append]
    rintro (hc | hc | hc)
    · exact h.noZero (by rw [List.flatten_append]; exact List.mem_append_left _ hc)
    · exact hzero hc
    · exact h.noZero (by rw [List.flatten_append]; exact List.mem_append_right _ hc)
  · rw [hresult]
    simp only [List.append_assoc]
  · rw [hresult]
    simp only [List.flatten_append, List.length_append]
    omega
  · have := h.pos_nonneg
    show 0 ≤ buffer.inputBufferPos + (new.length : Int)
    omega
  · have := h.pos_le
    rw [hcount]
    show buffer.inputBufferPos + (new.length : Int) ≤ (((pre ++ post).length + new.length : Nat) : Int)
    omega

/-- The characters of a string are inserted before a place. -/
theorem insertString_at (env : GuiInputEnv) (h : buffer.Chars chars) (string : CStr) (pos : Int) {place : Int}
    (hplace : (if pos = -1 then buffer.inputBufferPos else pos) = place) :
    ∃ (new : List Str) (buffer' : GuiInput), (∀ c ∈ new, IsValidChar c) ∧ new.flatten = utf8Normalize string (ch '?') ∧
      guiInputInsertString env buffer string pos = some buffer' ∧
      buffer'.Chars (chars.take place.toNat ++ new ++ chars.drop place.toNat) ∧ SameUndos buffer buffer' ∧
      buffer'.inputBufferPos = buffer.inputBufferPos + new.length ∧
      buffer'.inputBufferAlloc = inputAlloc (chars.flatten.length + new.flatten.length) := by
  obtain ⟨new, hnew, hnormal⟩ := utf8Normalize_chars (show ch '?' < 0x80 by decide) string
  have hzero : 0 ∉ new.flatten := fun hmem => by
    rw [← hnormal] at hmem
    rcases utf8Normalize_mem hmem with h | h
    · exact absurd h (by decide)
    · exact string.2 h
  obtain ⟨rest, hbytes⟩ := h.bytes
  have halloc := lt_inputAlloc (chars.flatten.length + new.flatten.length)
  obtain ⟨rest', hoptimize, hlength⟩ := optimizeSize_ok env rest h.input
    (show buffer.inputBuffer = chars.flatten ++ [0] ++ rest by rw [hbytes, List.append_assoc]; rfl) h.memory
    (chars.flatten.length + new.flatten.length) ((chars.length + new.length : Nat) : Int)
    (by rw [List.length_append, List.length_singleton]; omega)
  rw [List.append_assoc, List.singleton_append] at hlength hoptimize
  obtain ⟨gap, old, after, rest'', hsplit, hgap, hend⟩ := @exists_gap rest' new.flatten.length (by
    rw [List.length_append] at hlength
    omega)
  have hwrite0 : writeBytes (chars.flatten ++ 0 :: rest') (chars.flatten.length + new.flatten.length) [0] =
      some (chars.flatten ++ gap ++ ([0] ++ after)) := by
    refine writeBytes_eq (b := [old]) ?_ ?_ rfl
    · rw [hsplit, List.append_assoc]
      rfl
    · rw [List.length_append, hgap]
  -- where the string goes
  let pre := chars.take place.toNat
  let post := chars.drop place.toNat
  have hchars : chars = pre ++ post := (List.take_append_drop ..).symm
  have hflatten : chars.flatten = pre.flatten ++ post.flatten := by
    rw [← List.flatten_append, ← hchars]
  have hmove : moveBytes (chars.flatten ++ gap ++ ([0] ++ after)) (pre.flatten.length + new.flatten.length)
      pre.flatten.length post.flatten.length =
      some (pre.flatten ++ (post.flatten ++ gap).take gap.length ++ (post.flatten ++ ([0] ++ after))) := by
    rw [hflatten, ← hgap]
    exact moveBytes_gap
  have hwrite : writeBytes (pre.flatten ++ (post.flatten ++ gap).take gap.length ++ (post.flatten ++ ([0] ++ after)))
      pre.flatten.length new.flatten = some (pre.flatten ++ (new.flatten ++ (post.flatten ++ ([0] ++ after)))) := by
    refine writeBytes_eq (List.append_assoc ..) rfl ?_
    rw [List.length_take, List.length_append, hgap]
    omega
  refine ⟨new, { buffer with
    inputBuffer := pre.flatten ++ (new.flatten ++ (post.flatten ++ ([0] ++ after)))
    inputBufferAlloc := inputAlloc (chars.flatten.length + new.flatten.length)
    inputBufferSize := (chars.flatten.length + new.flatten.length : Nat)
    inputBufferLength := (chars.length + new.length : Nat)
    inputBufferPos := buffer.inputBufferPos + new.length }, hnew, hnormal.symm, ?_, ?_, ⟨rfl, rfl, rfl, rfl⟩, rfl, rfl⟩
  · have hnewSize : buffer.inputBufferSize + (new.flatten.length : Int) =
        ((chars.flatten.length + new.flatten.length : Nat) : Int) := by
      rw [h.size, Int.natCast_add]
    have hnewLength : buffer.inputBufferLength + (new.length : Int) = ((chars.length + new.length : Nat) : Int) := by
      rw [h.length, Int.natCast_add]
    have htext : (cString (chars.flatten ++ gap ++ ([0] ++ after))).1 = chars.flatten := by
      rw [List.append_assoc, List.singleton_append, hend, cString_append h.noZero]
    have hfirst := addOffset_text { buffer with
      inputBuffer := chars.flatten ++ gap ++ ([0] ++ after)
      inputBufferAlloc := inputAlloc (chars.flatten.length + new.flatten.length)
      inputBufferSize := (chars.flatten.length + new.flatten.length : Nat)
      inputBufferLength := (chars.length + new.length : Nat) } h.valid htext place
    have hstrlen : ((cString (chars.flatten ++ gap ++ ([0] ++ after))).1.drop pre.flatten.length).length =
        post.flatten.length := by
      rw [htext, hflatten, List.drop_left]
    rw [guiInputInsertString, hplace]
    dsimp only
    rw [hnormal, utf8Strlen_flatten hnew, hnewSize, hnewLength, hoptimize]
    dsimp only
    rw [GuiInput.write, if_pos (Int.natCast_nonneg _), Int.toNat_natCast, hwrite0]
    dsimp only [Option.map_some, Option.bind_eq_bind, Option.bind_some]
    rw [hfirst, guiInputStrlen, GuiInput.text, hstrlen, GuiInput.move, hmove]
    dsimp only [Option.map_some, Option.bind_eq_bind, Option.bind_some]
    have hfound : ∀ inputBuffer, inputBuffer =
        pre.flatten ++ (post.flatten ++ gap).take gap.length ++ (post.flatten ++ ([0] ++ after)) →
        off (cString inputBuffer).1 (utf8AddOffset (cString inputBuffer).1 place.toNat) = pre.flatten.length :=
      fun _ => offset_moved h.valid h.noZero hend place.toNat
    rw [guiInputAddOffset, GuiInput.text, hfound _ rfl, GuiInput.write, if_pos (Int.natCast_nonneg _),
      Int.toNat_natCast, hwrite]
    rfl
  · have hbuffer : buffer.Chars (pre ++ post) := hchars ▸ h
    rw [congrArg List.flatten hchars, congrArg List.length hchars]
    refine chars_inserted hbuffer hnew hzero (congrArg _ ?_)
    rw [← congrArg List.flatten hchars]
    show (pre.flatten ++ (new.flatten ++ (post.flatten ++ 0 :: after))).length = _
    rw [← hlength, hsplit, hflatten]
    simp only [List.length_append, List.length_cons, hgap]
    omega

/-- Characters are inserted before a place. -/
theorem insertString_chars (env : GuiInputEnv) (h : buffer.Chars chars) (string : CStr) (pos : Int) :
    ∃ pre post new : List Str, chars = pre ++ post ∧
      Becomes (guiInputInsertString env buffer string pos) buffer (pre ++ new ++ post) := by
  obtain ⟨new, buffer', -, -, hinsert, hchars, hundos, -⟩ := insertString_at env h string pos rfl
  exact ⟨_, _, new, (List.take_append_drop ..).symm, buffer', hinsert, hchars, hundos⟩

/-- The characters from one place to another are deleted. -/
theorem delete_between (env : GuiInputEnv) (h : buffer.Chars chars) {i l : Nat} (hil : i ≤ l)
    (hl : l ≤ chars.length) {moved : Int}
    (hpos : 0 ≤ buffer.inputBufferPos - moved) (hle : buffer.inputBufferPos - moved ≤ chars.length - (l - i : Int)) :
    Becomes (guiInputDelete env buffer (chars.take i).flatten.length (chars.take l).flatten.length (l - i : Int) moved)
      buffer (chars.take i ++ chars.drop l) := by
  have hmid : chars.take l = chars.take i ++ (chars.take l).drop i := by
    conv_lhs => rw [← List.take_append_drop i (chars.take l), List.take_take, min_eq_left hil]
  have hsplit : chars = chars.take i ++ (chars.take l).drop i ++ chars.drop l := by
    rw [← hmid, List.take_append_drop]
  have hcount : (((chars.take l).drop i).length : Int) = l - i := by
    rw [List.length_drop, List.length_take, min_eq_left hl]
    omega
  have hdelete := delete_chars env
    (show buffer.Chars (chars.take i ++ (chars.take l).drop i ++ chars.drop l) by rwa [← hsplit]) hpos (by rw [List.length_append, List.length_take, List.length_drop]; omega)
  rwa [hcount, ← hmid] at hdelete

/-! ## Walks -/

theorem GuiInput.Chars.prev_take (h : buffer.Chars chars) {k : Nat} (hk : k < chars.length) :
    utf8PrevChar buffer.text.1 (chars.take (k + 1)).flatten.length = some (chars.take k).flatten.length := by
  have hsplit : chars.take k ++ chars[k] :: chars.drop (k + 1) = chars := by
    rw [← List.drop_eq_getElem_cons hk, List.take_append_drop]
  rw [List.take_succ_eq_append_getElem hk]
  exact GuiInput.Chars.prevChar (show buffer.Chars (chars.take k ++ chars[k] :: chars.drop (k + 1)) by rwa [hsplit])

theorem GuiInput.Chars.next_take (h : buffer.Chars chars) {k : Nat} (hk : k < chars.length) :
    guiInputNextChar buffer (chars.take k).flatten.length = (chars.take (k + 1)).flatten.length := by
  have hsplit : chars.take k ++ chars[k] :: chars.drop (k + 1) = chars := by
    rw [← List.drop_eq_getElem_cons hk, List.take_append_drop]
  rw [List.take_succ_eq_append_getElem hk]
  exact GuiInput.Chars.nextChar (show buffer.Chars (chars.take k ++ chars[k] :: chars.drop (k + 1)) by rwa [hsplit])

theorem GuiInput.Chars.drop_take (h : buffer.Chars chars) (k : Nat) :
    buffer.text.1.drop (chars.take k).flatten.length = (chars.drop k).flatten := by
  have hsplit : chars.flatten = (chars.take k).flatten ++ (chars.drop k).flatten := by
    rw [← List.flatten_append, List.take_append_drop]
  rw [h.text, hsplit, List.drop_left]

/-- The number of characters between two places. -/
theorem GuiInput.Chars.strnlen (h : buffer.Chars chars) {i l : Nat} (hil : i ≤ l) (hl : l ≤ chars.length) :
    utf8Strnlen (buffer.text.1.drop (chars.take i).flatten.length)
      ((chars.take l).flatten.length - (chars.take i).flatten.length) = l - i := by
  have hmid : chars.take l = chars.take i ++ (chars.take l).drop i := by
    conv_lhs => rw [← List.take_append_drop i (chars.take l), List.take_take, min_eq_left hil]
  have hdrop : chars.drop i = (chars.take l).drop i ++ chars.drop l := by
    conv_lhs => rw [← List.take_append_drop l chars, List.drop_append_of_le_length (by rw [List.length_take]; omega)]
  rw [h.drop_take, hdrop, List.flatten_append, congrArg List.length (congrArg List.flatten hmid), List.flatten_append,
    List.length_append, Nat.add_sub_cancel_left,
    utf8Strnlen_flatten fun c hc => h.valid c (List.mem_of_mem_take (List.mem_of_mem_drop hc)), List.length_drop,
    List.length_take, min_eq_left hl]

theorem GuiInput.Chars.utf8Pos (h : buffer.Chars chars) {k : Nat} (hk : k ≤ chars.length) :
    utf8Pos buffer.text.1 (chars.take k).flatten.length = k := h.strnlen (Nat.zero_le k) hk

/-- The walk to the left stops at the first character without the property, or at none. -/
theorem whilePrev_stop (h : buffer.Chars chars) (P : Str → Bool) {k : Nat} (hk : k ≤ chars.length) :
    (utf8WhilePrev buffer.text.1 P (some (chars.take k).flatten.length) = none ∧
        ∀ i ≤ k, P (chars.drop i).flatten = true) ∨
      ∃ j ≤ k, utf8WhilePrev buffer.text.1 P (some (chars.take k).flatten.length) =
          some (chars.take j).flatten.length ∧
        P (chars.drop j).flatten = false ∧ ∀ i, j < i → i ≤ k → P (chars.drop i).flatten = true := by
  induction k with
  | zero =>
    rw [utf8WhilePrev, h.drop_take]
    split
    · rename_i hP
      refine .inl ⟨rfl, fun i hi => ?_⟩
      rwa [Nat.le_zero.mp hi]
    · rename_i hP
      exact .inr ⟨0, Nat.le_refl 0, rfl, Bool.eq_false_iff.mpr hP, fun i hi hi0 => by omega⟩
  | succ k ih =>
    rw [utf8WhilePrev, h.drop_take]
    split
    · rename_i hP
      have hwalk (i : Nat) (hi : i ≤ k + 1) (hrest : i ≤ k → P (chars.drop i).flatten = true) :
          P (chars.drop i).flatten = true := by
        obtain hi | rfl := Nat.le_succ_iff.mp hi
        · exact hrest hi
        · exact hP
      split
      · rename_i prev hprev
        rw [h.prev_take hk] at hprev
        cases hprev
        obtain ⟨hnone, hall⟩ | ⟨j, hj, heq, hstop, hall⟩ := ih (Nat.le_of_succ_le hk)
        · exact .inl ⟨hnone, fun i hi => hwalk i hi (hall i)⟩
        · exact .inr ⟨j, Nat.le_succ_of_le hj, heq, hstop, fun i hji hi => hwalk i hi (hall i hji)⟩
      · rename_i hnone
        rw [h.prev_take hk] at hnone
        cases hnone
    · rename_i hP
      exact .inr ⟨k + 1, Nat.le_refl _, rfl, Bool.eq_false_iff.mpr hP, fun i hi hi' => by omega⟩

theorem whilePrev_chars (h : buffer.Chars chars) (P : Str → Bool) {k : Nat} (hk : k ≤ chars.length) :
    utf8WhilePrev buffer.text.1 P (some (chars.take k).flatten.length) = none ∨
      ∃ j ≤ k, utf8WhilePrev buffer.text.1 P (some (chars.take k).flatten.length) =
        some (chars.take j).flatten.length := by
  obtain ⟨hnone, -⟩ | ⟨j, hj, heq, -⟩ := whilePrev_stop h P hk
  · exact .inl hnone
  · exact .inr ⟨j, hj, heq⟩

/-- The walk to the right stops at the first character without the property, or at the end. -/
theorem whileNext_stop (h : buffer.Chars chars) (P : Str → Bool) {k : Nat} (hk : k ≤ chars.length) (length : Nat) :
    ∃ j, k ≤ j ∧ j ≤ chars.length ∧
      utf8WhileNext buffer.text.1 P (chars.take k).flatten.length length =
        ((chars.take j).flatten.length, length + (j - k)) ∧
      (∀ i, k ≤ i → i < j → P (chars.drop i).flatten = true) ∧
      (j < chars.length → P (chars.drop j).flatten = false) := by
  induction hn : chars.length - k generalizing k length with
  | zero =>
    refine ⟨k, Nat.le_refl k, hk, ?_, fun i hki hik => by omega, fun hlt => by omega⟩
    rw [utf8WhileNext, h.drop_take, List.drop_eq_nil_of_le (by omega), dif_neg (fun hne => hne.1 rfl), Nat.sub_self,
      Nat.add_zero]
  | succ n ih =>
    rw [utf8WhileNext]
    split
    · rename_i hP
      rw [h.drop_take] at hP
      rw [show (chars.take k).flatten.length + utf8CharSize (buffer.text.1.drop (chars.take k).flatten.length) =
        (chars.take (k + 1)).flatten.length from h.next_take (show k < chars.length by omega)]
      obtain ⟨j, hkj, hj, heq, hall, hstop⟩ := ih (k := k + 1) (by omega) (length + 1) (by omega)
      refine ⟨j, by omega, hj, ?_, fun i hki hij => ?_, hstop⟩
      · rw [heq]
        exact congrArg (Prod.mk _) (by omega)
      · obtain rfl | hki := Nat.eq_or_lt_of_le hki
        · exact hP.2
        · exact hall i hki hij
    · rename_i hP
      rw [h.drop_take] at hP
      refine ⟨k, Nat.le_refl k, hk, by rw [Nat.sub_self, Nat.add_zero], fun i hki hik => by omega, fun hlt => ?_⟩
      refine Bool.eq_false_iff.mpr fun htrue => hP ⟨?_, htrue⟩
      rw [List.drop_eq_getElem_cons hlt, List.flatten_cons]
      exact List.append_ne_nil_of_left_ne_nil (h.valid _ (List.getElem_mem hlt)).ne_nil _

theorem whileNext_chars (h : buffer.Chars chars) (P : Str → Bool) {k : Nat} (hk : k ≤ chars.length) (length : Nat) :
    ∃ j, k ≤ j ∧ j ≤ chars.length ∧
      utf8WhileNext buffer.text.1 P (chars.take k).flatten.length length =
        ((chars.take j).flatten.length, length + (j - k)) := by
  obtain ⟨j, hkj, hj, heq, -⟩ := whileNext_stop h P hk length
  exact ⟨j, hkj, hj, heq⟩

/-- The places of `gui_input_delete_previous_word` and `gui_input_move_previous_word`. -/
theorem previousWord_chars (env : GuiInputEnv) (h : buffer.Chars chars) {k : Nat} (hk : k < chars.length) :
    (guiInputPreviousWord env buffer (chars.take k).flatten.length).2 = none ∨
      ∃ j ≤ k, (guiInputPreviousWord env buffer (chars.take k).flatten.length).2 = some (chars.take j).flatten.length := by
  rw [guiInputPreviousWord]
  rcases whilePrev_chars h (fun s => !env.isWordCharInput s) (Nat.le_of_lt hk) with hnone | ⟨j, hj, hsome⟩
  · rw [hnone]
    exact .inl (by rw [utf8WhilePrev])
  · rw [hsome]
    refine (whilePrev_chars h env.isWordCharInput (show j ≤ chars.length by omega)).imp_right ?_
    rintro ⟨i, hi, heq⟩
    exact ⟨i, hi.trans hj, heq⟩

/-! ## Undos -/

theorem GuiInput.UndoListed.free (h : buffer.UndoListed) (undo : Nat) : (guiBufferUndoFree buffer undo).UndoListed := by
  intro ptr hptr
  obtain ⟨old, hold, hmap⟩ := Option.bind_eq_some_iff.mp hptr
  have hlt := h old hold
  show ptr < (buffer.inputUndo.eraseIdx undo).length
  rw [List.length_eraseIdx]
  split at hmap
  · split at hmap
    · cases hmap
      rw [if_pos (by omega)]
      omega
    · split at hmap
      · cases hmap
      · cases hmap
        rw [if_pos (by omega)]
        omega
  · split at hmap
    · cases hmap
      rw [if_pos (by omega)]
      omega
    · cases hmap
      split <;> omega

theorem GuiInput.UndoListed.freeNext (h : buffer.UndoListed) (ptr count : Nat) :
    (guiBufferUndoFreeNext ptr count buffer).UndoListed := by
  induction count generalizing buffer with
  | zero => exact h
  | succ count ih => exact ih (h.free (ptr + 1))

/-- The input itself is as before. -/
structure GuiInput.SameInput (buffer buffer' : GuiInput) : Prop where
  input : buffer'.input = buffer.input
  bytes : buffer'.inputBuffer = buffer.inputBuffer
  alloc : buffer'.inputBufferAlloc = buffer.inputBufferAlloc
  size : buffer'.inputBufferSize = buffer.inputBufferSize
  length : buffer'.inputBufferLength = buffer.inputBufferLength
  pos : buffer'.inputBufferPos = buffer.inputBufferPos

theorem GuiInput.SameInput.keepsChars {buffer' : GuiInput} (hsame : buffer.SameInput buffer') (h : buffer.Chars chars) :
    buffer'.Chars chars where
  input := hsame.input.trans h.input
  valid := h.valid
  noZero := h.noZero
  bytes := by rw [hsame.bytes]; exact h.bytes
  memory := by rw [hsame.bytes, hsame.alloc]; exact h.memory
  size := hsame.size.trans h.size
  length := hsame.length.trans h.length
  pos_nonneg := by rw [hsame.pos]; exact h.pos_nonneg
  pos_le := by rw [hsame.pos]; exact h.pos_le

theorem GuiInput.SameInput.refl (buffer : GuiInput) : buffer.SameInput buffer := ⟨rfl, rfl, rfl, rfl, rfl, rfl⟩

theorem GuiInput.SameInput.trans {b1 b2 b3 : GuiInput} (h : b1.SameInput b2) (h' : b2.SameInput b3) : b1.SameInput b3 :=
  ⟨h'.input.trans h.input, h'.bytes.trans h.bytes, h'.alloc.trans h.alloc, h'.size.trans h.size,
    h'.length.trans h.length, h'.pos.trans h.pos⟩

theorem freeNext_sameInput (ptr count : Nat) (buffer : GuiInput) :
    buffer.SameInput (guiBufferUndoFreeNext ptr count buffer) := by
  induction count generalizing buffer with
  | zero => exact .refl buffer
  | succ count ih =>
    have hfree : buffer.SameInput (guiBufferUndoFree buffer (ptr + 1)) := ⟨rfl, rfl, rfl, rfl, rfl, rfl⟩
    exact hfree.trans (ih _)

theorem freeOldest_sameInput (buffer : GuiInput) : buffer.SameInput (guiBufferUndoFreeOldest env buffer) := by
  rw [guiBufferUndoFreeOldest]
  split
  · exact ⟨rfl, rfl, rfl, rfl, rfl, rfl⟩
  · exact .refl buffer

theorem freeAfter_sameInput (buffer : GuiInput) : buffer.SameInput (guiBufferUndoFreeAfter buffer) := by
  rw [guiBufferUndoFreeAfter]
  split
  · exact freeNext_sameInput _ _ _
  · exact .refl buffer

theorem undoAdd_sameInput (buffer : GuiInput) : buffer.SameInput (guiBufferUndoAdd env buffer) := by
  have hfree : buffer.SameInput (guiBufferUndoFreeAfter (guiBufferUndoFreeOldest env buffer)) :=
    (freeOldest_sameInput buffer).trans (freeAfter_sameInput _)
  rw [guiBufferUndoAdd]
  split
  · exact ⟨rfl, rfl, rfl, rfl, rfl, rfl⟩
  · split
    · exact ⟨rfl, rfl, rfl, rfl, rfl, rfl⟩
    · dsimp only
      split
      · exact ⟨hfree.input, hfree.bytes, hfree.alloc, hfree.size, hfree.length, hfree.pos⟩
      · exact ⟨hfree.input, hfree.bytes, hfree.alloc, hfree.size, hfree.length, hfree.pos⟩

theorem GuiInput.UndoListed.freeAll (h : buffer.UndoListed) :
    (guiBufferUndoFreeAfter (guiBufferUndoFreeOldest env buffer)).UndoListed := by
  have hold : (guiBufferUndoFreeOldest env buffer).UndoListed := by
    rw [guiBufferUndoFreeOldest]
    split
    · exact h.free 0
    · exact h
  rw [guiBufferUndoFreeAfter]
  split
  · exact hold.freeNext _ _
  · exact hold

theorem GuiInput.UndoListed.add (h : buffer.UndoListed) : (guiBufferUndoAdd env buffer).UndoListed := by
  rw [guiBufferUndoAdd]
  split
  · exact h
  · split
    · exact h
    · dsimp only
      split
      · exact h.freeAll
      · intro ptr hptr
        cases hptr
        show _ < (_ ++ [_]).length
        rw [List.length_append]
        exact Nat.lt_succ_self _

/-! ## Operations -/

/-- The operation writes in the memory of the input, which is consistent after it. -/
def Works (result : Option GuiInput) : Prop :=
  ∃ buffer' chars, result = some buffer' ∧ buffer'.Chars chars ∧ buffer'.UndoListed

theorem GuiInput.SameUndos.undoListed {buffer' : GuiInput} (hsame : SameUndos buffer buffer')
    (hundo : buffer.UndoListed) :
    buffer'.UndoListed := by
  intro ptr hptr
  rw [hsame.list]
  exact hundo ptr (hsame.ptr ▸ hptr)

theorem works_some (h : buffer.Chars chars) (hundo : buffer.UndoListed) : Works (some buffer) :=
  ⟨buffer, chars, rfl, h, hundo⟩

theorem Becomes.works {result : Option GuiInput} (h : Becomes result buffer chars) (hundo : buffer.UndoListed) :
    Works result := by
  obtain ⟨buffer', rfl, hchars, hsame⟩ := h
  exact works_some hchars (hsame.undoListed hundo)

theorem Works.bind {result : Option GuiInput} {f : GuiInput → Option GuiInput} (h : Works result)
    (hf : ∀ buffer' chars, buffer'.Chars chars → buffer'.UndoListed → Works (f buffer')) : Works (result >>= f) := by
  obtain ⟨buffer', chars, rfl, hchars, hundo⟩ := h
  exact hf buffer' chars hchars hundo

theorem replaceInput_works (h : buffer.Chars chars) (hundo : buffer.UndoListed) (newInput : CStr) :
    Works (guiInputReplaceInput env buffer newInput) := by
  obtain ⟨chars', -, hbecomes⟩ := replaceInput_chars env h newInput
  exact hbecomes.works hundo

theorem modifierExec_works (h : buffer.Chars chars) (hundo : buffer.UndoListed) :
    Works (guiInputModifierExec env buffer) := by
  rw [guiInputModifierExec]
  split
  · split
    · exact replaceInput_works h hundo _
    · exact works_some h hundo
  · exact works_some h hundo

theorem textChanged_works (h : buffer.Chars chars) (hundo : buffer.UndoListed) (saveUndo : Bool) :
    Works (guiInputTextChangedModifierAndSignal env buffer saveUndo) := by
  rw [guiInputTextChangedModifierAndSignal]
  split
  · exact works_some h hundo
  · split
    · exact modifierExec_works ((undoAdd_sameInput buffer).keepsChars h) hundo.add
    · exact modifierExec_works h hundo

/-- A deletion between two places, and what is done after it. -/
theorem deleted_works (env : GuiInputEnv) (moved : Int) (h : buffer.Chars chars) (hundo : buffer.UndoListed)
    {i l : Nat} (hil : i ≤ l)
    (hl : l ≤ chars.length) (hpos : 0 ≤ buffer.inputBufferPos - moved)
    (hle : buffer.inputBufferPos - moved ≤ chars.length - (l - i : Int)) :
    Works (guiInputDelete env buffer (chars.take i).flatten.length (chars.take l).flatten.length (l - i : Int) moved >>=
      fun buffer => guiInputTextChangedModifierAndSignal env buffer true) :=
  ((delete_between env h hil hl hpos hle).works hundo).bind fun _ _ hchars hundo' => textChanged_works hchars hundo' true

theorem undoSnap_sameInput (env : GuiInputEnv) (buffer : GuiInput) : buffer.SameInput (guiBufferUndoSnap env buffer) :=
  ⟨rfl, rfl, rfl, rfl, rfl, rfl⟩

/-- The place of the cursor, in characters. -/
theorem GuiInput.Chars.cursor (h : buffer.Chars chars) :
    ∃ k ≤ chars.length, buffer.inputBufferPos = (k : Int) ∧ (buffer.inputBufferPos).toNat = k := by
  have h1 := h.pos_nonneg
  have h2 := h.pos_le
  exact ⟨buffer.inputBufferPos.toNat, by omega, by omega, rfl⟩

theorem deletePreviousChar_works (h : buffer.Chars chars) (hundo : buffer.UndoListed) :
    Works (guiInputDeletePreviousChar env buffer) := by
  rw [guiInputDeletePreviousChar]
  split
  · rename_i hpos
    have hsnap := (undoSnap_sameInput env buffer).keepsChars h
    obtain ⟨k, hk, hcursor, hnat⟩ := h.cursor
    obtain ⟨k, rfl⟩ : ∃ n, k = n + 1 := ⟨k - 1, by omega⟩
    dsimp only
    rw [hsnap.addOffset, show (guiBufferUndoSnap env buffer).inputBufferPos = buffer.inputBufferPos from rfl, hnat,
      hsnap.prev_take hk]
    have hdeleted := deleted_works env 1 hsnap hundo (Nat.le_succ k) hk
      (show 0 ≤ buffer.inputBufferPos - 1 by omega)
      (show buffer.inputBufferPos - 1 ≤ chars.length - ((k + 1 : Nat) - k : Int) by omega)
    rwa [show ((k + 1 : Nat) - k : Int) = 1 by omega] at hdeleted
  · exact works_some h hundo

theorem deleteNextChar_works (h : buffer.Chars chars) (hundo : buffer.UndoListed) :
    Works (guiInputDeleteNextChar env buffer) := by
  rw [guiInputDeleteNextChar]
  split
  · rename_i hpos
    have hsnap := (undoSnap_sameInput env buffer).keepsChars h
    obtain ⟨k, hk, hcursor, hnat⟩ := h.cursor
    have hlt : k < chars.length := by
      have := h.length
      omega
    dsimp only
    rw [hsnap.addOffset, show (guiBufferUndoSnap env buffer).inputBufferPos = buffer.inputBufferPos from rfl, hnat,
      hsnap.next_take hlt]
    have hdeleted := deleted_works env 0 hsnap hundo (Nat.le_succ k) hlt
      (show 0 ≤ buffer.inputBufferPos - 0 by omega)
      (show buffer.inputBufferPos - 0 ≤ chars.length - ((k + 1 : Nat) - k : Int) by omega)
    rwa [show ((k + 1 : Nat) - k : Int) = 1 by omega] at hdeleted
  · exact works_some h hundo

/-- The word before a character begins at a character. -/
theorem wordStart_chars (env : GuiInputEnv) (h : buffer.Chars chars) {k : Nat} (hk : k < chars.length) :
    ∃ i ≤ k + 1, ((guiInputPreviousWord env buffer (chars.take k).flatten.length).2.map
      (guiInputNextChar buffer)).getD 0 = (chars.take i).flatten.length := by
  rcases previousWord_chars env h hk with hnone | ⟨j, hj, hsome⟩
  · exact ⟨0, Nat.zero_le _, by rw [hnone]; rfl⟩
  · refine ⟨j + 1, by omega, ?_⟩
    rw [hsome]
    exact h.next_take (by omega)

theorem deletePreviousWord_works (h : buffer.Chars chars) (hundo : buffer.UndoListed) :
    Works (guiInputDeletePreviousWord env buffer) := by
  rw [guiInputDeletePreviousWord]
  split
  · rename_i hpos
    have hsnap := (undoSnap_sameInput env buffer).keepsChars h
    obtain ⟨k, hk, hcursor, hnat⟩ := h.cursor
    obtain ⟨k, rfl⟩ : ∃ n, k = n + 1 := ⟨k - 1, by omega⟩
    have hstart : guiInputAddOffset (guiBufferUndoSnap env buffer) (buffer.inputBufferPos - 1) =
        (chars.take k).flatten.length := by
      rw [hsnap.addOffset, show (buffer.inputBufferPos - 1).toNat = k by omega]
    dsimp only
    rw [show (guiBufferUndoSnap env buffer).inputBufferPos = buffer.inputBufferPos from rfl, hstart, hsnap.next_take hk]
    obtain ⟨i, hi, hstring⟩ := wordStart_chars env hsnap hk
    rw [hstring, hsnap.strnlen hi hk]
    have hdeleted := deleted_works env ((k + 1 - i : Nat) : Int) hsnap hundo hi hk
      (show 0 ≤ buffer.inputBufferPos - ((k + 1 - i : Nat) : Int) by omega)
      (show buffer.inputBufferPos - ((k + 1 - i : Nat) : Int) ≤ chars.length - ((k + 1 : Nat) - i : Int) by omega)
    rwa [show (((k + 1 : Nat) : Int) - i) = ((k + 1 - i : Nat) : Int) by omega] at hdeleted
  · exact works_some h hundo

theorem deleteNextWord_works (h : buffer.Chars chars) (hundo : buffer.UndoListed) :
    Works (guiInputDeleteNextWord env buffer) := by
  rw [guiInputDeleteNextWord]
  split
  · have hsnap := (undoSnap_sameInput env buffer).keepsChars h
    obtain ⟨k, hk, hcursor, hnat⟩ := h.cursor
    obtain ⟨j, hkj, hj, hskip⟩ := whileNext_chars hsnap (fun s => !env.isWordCharInput s) hk 0
    obtain ⟨l, hjl, hl, hword⟩ := whileNext_chars hsnap env.isWordCharInput hj (0 + (j - k))
    dsimp only
    rw [hsnap.addOffset, show (guiBufferUndoSnap env buffer).inputBufferPos = buffer.inputBufferPos from rfl, hnat,
      hskip]
    dsimp only
    rw [hword]
    have hdeleted := deleted_works env 0 hsnap hundo (hkj.trans hjl) hl
      (show 0 ≤ buffer.inputBufferPos - 0 by omega)
      (show buffer.inputBufferPos - 0 ≤ chars.length - (l - k : Int) by omega)
    rwa [show (l - k : Int) = ((0 + (j - k) + (l - j) : Nat) : Int) by omega] at hdeleted
  · exact works_some h hundo

theorem deleteBeginningOfLine_works (h : buffer.Chars chars) (hundo : buffer.UndoListed) :
    Works (guiInputDeleteBeginningOfLine env buffer) := by
  rw [guiInputDeleteBeginningOfLine]
  split
  · have hsnap := (undoSnap_sameInput env buffer).keepsChars h
    obtain ⟨k, hk, hcursor, hnat⟩ := h.cursor
    have hlength : utf8Strnlen (guiBufferUndoSnap env buffer).text.1 (chars.take k).flatten.length = k :=
      hsnap.utf8Pos hk
    dsimp only
    rw [hsnap.addOffset, show (guiBufferUndoSnap env buffer).inputBufferPos = buffer.inputBufferPos from rfl,
      hnat, hlength]
    have hdeleted := deleted_works env buffer.inputBufferPos hsnap hundo
      (Nat.zero_le k) hk
      (show 0 ≤ buffer.inputBufferPos - buffer.inputBufferPos by omega)
      (show buffer.inputBufferPos - buffer.inputBufferPos ≤ chars.length - (k - (0 : Nat) : Int) by omega)
    rwa [show (k - (0 : Nat) : Int) = k by omega] at hdeleted
  · exact works_some h hundo

theorem deleteEndOfLine_works (h : buffer.Chars chars) (hundo : buffer.UndoListed) :
    Works (guiInputDeleteEndOfLine env buffer) := by
  rw [guiInputDeleteEndOfLine]
  split
  · have hsnap := (undoSnap_sameInput env buffer).keepsChars h
    obtain ⟨k, hk, hcursor, hnat⟩ := h.cursor
    obtain ⟨rest, hbytes⟩ := h.bytes
    have hvalid : ∀ c ∈ chars.take k, IsValidChar c := fun c hc => h.valid c (List.mem_of_mem_take hc)
    have hflatten : chars.flatten = (chars.take k).flatten ++ (chars.drop k).flatten := by
      rw [← List.flatten_append, List.take_append_drop]
    have hzero : 0 ∉ (chars.take k).flatten := fun hmem => h.noZero (by
      rw [hflatten]
      exact List.mem_append_left _ hmem)
    -- the byte after the cursor becomes `\0`
    obtain ⟨c, rest', hrest⟩ : ∃ c rest', (chars.drop k).flatten ++ 0 :: rest = c :: rest' :=
      List.exists_cons_of_ne_nil (List.append_ne_nil_of_right_ne_nil _ (List.cons_ne_nil _ _))
    have hsplit : buffer.inputBuffer = (chars.take k).flatten ++ ([c] ++ rest') := by
      rw [hbytes, hflatten, List.append_assoc, hrest]
      rfl
    have hwrite : writeBytes buffer.inputBuffer (chars.take k).flatten.length [0] =
        some ((chars.take k).flatten ++ ([0] ++ rest')) := writeBytes_eq hsplit rfl rfl
    let cut : GuiInput := { guiBufferUndoSnap env buffer with inputBuffer := (chars.take k).flatten ++ ([0] ++ rest') }
    have htext : cut.text.1 = (chars.take k).flatten := cString_append hzero rest'
    obtain ⟨rest'', hoptimize, hlength⟩ := optimizeSize_ok env rest'
      (show cut.input = true from h.input) (List.append_assoc ..).symm
      (show (((chars.take k).flatten ++ ([0] ++ rest')).length : Int) = buffer.inputBufferAlloc by
        rw [← h.memory, hsplit]
        simp only [List.length_append, List.length_singleton])
      (chars.take k).flatten.length (chars.take k).length (by rw [List.length_append]; exact Nat.le_refl _)
    have hlen : (chars.take k).length = k := List.length_take_of_le hk
    dsimp only
    rw [hsnap.addOffset, show (guiBufferUndoSnap env buffer).inputBufferPos = buffer.inputBufferPos from rfl, hnat,
      GuiInput.write, if_pos (Int.natCast_nonneg _), Int.toNat_natCast,
      show (guiBufferUndoSnap env buffer).inputBuffer = buffer.inputBuffer from rfl, hwrite]
    change Works (guiInputTextChangedModifierAndSignal env
      (guiInputOptimizeSize env cut cut.text.1.length (utf8Strlen cut.text.1)).2 true)
    rw [htext, utf8Strlen_flatten hvalid, hoptimize]
    have hbytes' : (chars.take k).flatten ++ [0] ++ rest'' = (chars.take k).flatten ++ 0 :: rest'' := by
      rw [List.append_assoc, List.singleton_append]
    have hle : buffer.inputBufferPos ≤ (chars.take k).length := by
      rw [hlen]
      exact Int.le_of_eq hcursor
    refine textChanged_works (?_ : GuiInput.Chars _ (chars.take k)) ?_ true
    · exact ⟨h.input, hvalid, hzero, ⟨rest'', hbytes'⟩, congrArg _ hlength, rfl, rfl, h.pos_nonneg, hle⟩
    · exact hundo
  · exact works_some h hundo

theorem deleteLine_works (h : buffer.Chars chars) (hundo : buffer.UndoListed) :
    Works (guiInputDeleteLine env buffer) := by
  rw [guiInputDeleteLine]
  split
  · obtain ⟨buffer', rest', hoptimize, -, hwrite, hlength⟩ := optimizeSize_write env
      (show (guiBufferUndoSnap env buffer).input = true from h.input) (List.nil_append _).symm h.memory 0
    have hoptimize0 : guiInputOptimizeSize env (guiBufferUndoSnap env buffer) 0 0 = (true, buffer') := hoptimize
    have hwrite0 : buffer'.write 0 [0] = _ := hwrite
    dsimp only
    rw [hoptimize0]
    dsimp only
    rw [hwrite0]
    refine textChanged_works (?_ : GuiInput.Chars _ []) ?_ true
    · exact ⟨h.input, nofun, nofun, ⟨rest', rfl⟩, congrArg _ hlength, rfl, rfl, Int.le_refl 0, Int.le_refl 0⟩
    · exact hundo
  · exact works_some h hundo

/-- Two characters are swapped in the memory of the input. -/
theorem swap_bytes {memory pre a b tail : List Byte} (h : memory = pre ++ (a ++ (b ++ tail))) :
    ∃ moved, moveBytes memory pre.length (pre ++ a).length b.length = some moved ∧
      writeBytes moved (pre.length + b.length) a = some (pre ++ (b ++ (a ++ tail))) := by
  refine ⟨pre ++ (b ++ ((a ++ b).drop b.length ++ tail)), ?_, ?_⟩
  · refine moveBytes_eq (b := (a ++ b).take b.length) ?_ ?_ ?_ rfl ?_
    · rw [h, ← List.append_assoc, List.drop_left, List.take_left]
    · rw [h]
      simp only [List.length_append]
      omega
    · rw [h, ← List.append_assoc (List.take _ _), List.take_append_drop, List.append_assoc]
    · rw [List.length_take, List.length_append]
      omega
  · rw [← List.append_assoc, ← List.append_assoc pre b]
    refine writeBytes_eq rfl (List.length_append ..).symm ?_
    rw [List.length_drop, List.length_append]
    omega

/-- The text with two characters in the other order, and the cursor after them. -/
theorem chars_transposed {pre post : List Str} {a b : Str} (h : buffer.Chars (pre ++ a :: b :: post))
    (hcursor : buffer.inputBufferPos = ((pre.length + 1 : Nat) : Int)) {rest : List Byte}
    (hsplit : buffer.inputBuffer = pre.flatten ++ (a ++ (b ++ (post.flatten ++ 0 :: rest)))) :
    GuiInput.Chars { buffer with
      inputBuffer := pre.flatten ++ (b ++ (a ++ (post.flatten ++ 0 :: rest)))
      inputBufferPos := buffer.inputBufferPos + 1 } (pre ++ b :: a :: post) := by
  have hperm : (pre ++ b :: a :: post).flatten = pre.flatten ++ (b ++ (a ++ post.flatten)) := by
    simp only [List.flatten_append, List.flatten_cons]
  have hlength : (pre ++ b :: a :: post).flatten.length = (pre ++ a :: b :: post).flatten.length := by
    simp only [List.flatten_append, List.flatten_cons, List.length_append]
    omega
  have hcount : (pre ++ b :: a :: post).length = (pre ++ a :: b :: post).length := by
    simp only [List.length_append, List.length_cons]
  refine ⟨h.input, ?_, ?_, ⟨rest, ?_⟩, ?_, ?_, ?_, ?_, ?_⟩
  · intro c hc
    refine h.valid c ?_
    simp only [List.mem_append, List.mem_cons] at hc ⊢
    rcases hc with hc | rfl | rfl | hc
    · exact .inl hc
    · exact .inr (.inr (.inl rfl))
    · exact .inr (.inl rfl)
    · exact .inr (.inr (.inr hc))
  · intro hc
    refine h.noZero ?_
    simp only [List.flatten_append, List.flatten_cons, List.mem_append] at hc ⊢
    rcases hc with hc | hc | hc | hc
    · exact .inl hc
    · exact .inr (.inr (.inl hc))
    · exact .inr (.inl hc)
    · exact .inr (.inr (.inr hc))
  · rw [hperm]
    simp only [List.append_assoc]
  · show ((pre.flatten ++ (b ++ (a ++ (post.flatten ++ 0 :: rest)))).length : Int) = buffer.inputBufferAlloc
    rw [← h.memory, hsplit]
    simp only [List.length_append]
    omega
  · rw [hlength]
    exact h.size
  · rw [hcount]
    exact h.length
  · show 0 ≤ buffer.inputBufferPos + 1
    omega
  · show buffer.inputBufferPos + 1 ≤ ((pre ++ b :: a :: post).length : Int)
    simp only [List.length_append, List.length_cons]
    omega

/-- The two characters before and after a place are swapped. -/
theorem transposed_works {pre post : List Str} {a b : Str} (h : buffer.Chars (pre ++ a :: b :: post))
    (hundo : buffer.UndoListed) (hcursor : buffer.inputBufferPos = ((pre.length + 1 : Nat) : Int)) :
    Works (do
      let start := guiInputAddOffset buffer buffer.inputBufferPos
      let prevChar ← utf8PrevChar buffer.text.1 start
      let sizePrevChar := start - prevChar
      let sizeStartChar := utf8CharSize (buffer.text.1.drop start)
      if savedCharSize < sizePrevChar then none
      else
        let savedChar := (buffer.inputBuffer.drop prevChar).take sizePrevChar
        let buffer ← buffer.move prevChar start sizeStartChar
        let buffer ← buffer.write (prevChar + sizeStartChar : Nat) savedChar
        guiInputTextChangedModifierAndSignal env { buffer with inputBufferPos := buffer.inputBufferPos + 1 } true) := by
  obtain ⟨rest, hbytes⟩ := h.bytes
  have ha : IsValidChar a := h.valid a (List.mem_append_right _ (List.mem_cons_self ..))
  have hb : IsValidChar b :=
    h.valid b (List.mem_append_right _ (List.mem_cons_of_mem _ (List.mem_cons_self ..)))
  have hsplit : buffer.inputBuffer = pre.flatten ++ (a ++ (b ++ (post.flatten ++ 0 :: rest))) := by
    rw [hbytes]
    simp only [List.flatten_append, List.flatten_cons, List.append_assoc]
  have hlast : (pre ++ [a]).length = pre.length + 1 := List.length_append ..
  have hstart : guiInputAddOffset buffer buffer.inputBufferPos = (pre ++ [a]).flatten.length := by
    rw [h.addOffset, hcursor, Int.toNat_natCast, List.append_cons, List.take_left' hlast]
  have hflat : (pre ++ a :: b :: post).flatten = (pre ++ [a]).flatten ++ (b ++ post.flatten) := by
    rw [List.append_cons, List.flatten_append, List.flatten_cons]
  have hnext : utf8CharSize (buffer.text.1.drop (pre ++ [a]).flatten.length) = b.length := by
    rw [h.text, hflat, List.drop_left, hb.charSize]
  have hflatten : (pre ++ [a]).flatten = pre.flatten ++ a := by rw [List.flatten_append, List.flatten_singleton]
  have hsize : (pre ++ [a]).flatten.length - pre.flatten.length = a.length := by
    rw [hflatten, List.length_append, Nat.add_sub_cancel_left]
  have hsaved : (buffer.inputBuffer.drop pre.flatten.length).take a.length = a := by
    rw [hsplit, List.drop_left, List.take_left]
  obtain ⟨moved, hmove, hwrite⟩ := swap_bytes hsplit
  rw [← hflatten] at hmove
  have hle : ¬ savedCharSize < a.length := Nat.not_lt_of_le (ha.length_le.trans (by decide))
  dsimp only
  rw [hstart, h.prevChar]
  dsimp only [Option.bind_eq_bind, Option.bind_some]
  rw [hsize, if_neg hle, hnext, hsaved, GuiInput.move, hmove]
  dsimp only [Option.map_some, Option.bind_some]
  rw [GuiInput.write, if_pos (Int.natCast_nonneg _), Int.toNat_natCast, hwrite]
  exact textChanged_works (chars_transposed h hcursor hsplit) hundo true

theorem transposeChars_works (h : buffer.Chars chars) (hundo : buffer.UndoListed) :
    Works (guiInputTransposeChars env buffer) := by
  rw [guiInputTransposeChars]
  split
  · rename_i hpos
    obtain ⟨-, hpos, hlong⟩ := hpos
    have hlength := h.length
    have hle := h.pos_le
    have hsnap := (undoSnap_sameInput env buffer).keepsChars h
    -- the cursor is put before the last character
    obtain ⟨moved, hmoved, hchars, hundo', k, hk, hcursor⟩ : ∃ moved, moved = (
        if (guiBufferUndoSnap env buffer).inputBufferPos = (guiBufferUndoSnap env buffer).inputBufferLength then
          { guiBufferUndoSnap env buffer with inputBufferPos := (guiBufferUndoSnap env buffer).inputBufferPos - 1 }
        else guiBufferUndoSnap env buffer) ∧ moved.Chars chars ∧ moved.UndoListed ∧
        ∃ k, k + 1 < chars.length ∧ moved.inputBufferPos = ((k + 1 : Nat) : Int) := by
      by_cases hend : buffer.inputBufferPos = buffer.inputBufferLength
      · refine ⟨_, (if_pos hend).symm, ?_, hundo, (buffer.inputBufferPos - 2).toNat, by omega, ?_⟩
        · exact ⟨h.input, h.valid, h.noZero, h.bytes, h.memory, h.size, h.length,
            show 0 ≤ buffer.inputBufferPos - 1 by omega, show buffer.inputBufferPos - 1 ≤ chars.length by omega⟩
        · show buffer.inputBufferPos - 1 = _
          omega
      · refine ⟨_, (if_neg hend).symm, hsnap, hundo, (buffer.inputBufferPos - 1).toNat, by omega, ?_⟩
        show buffer.inputBufferPos = _
        omega
    have hsplit : chars = chars.take k ++ chars[k] :: chars[k + 1] :: chars.drop (k + 2) := by
      rw [← List.drop_eq_getElem_cons hk, ← List.drop_eq_getElem_cons (by omega), List.take_append_drop]
    dsimp only
    rw [← hmoved]
    rw [hsplit] at hchars
    refine transposed_works hchars hundo' ?_
    rw [hcursor, List.length_take_of_le (by omega)]
  · exact works_some h hundo

/-! ### The cursor -/

/-- Only the cursor moves. -/
theorem movePos_works (h : buffer.Chars chars) (hundo : buffer.UndoListed) {pos : Int} (hpos : 0 ≤ pos)
    (hle : pos ≤ chars.length) : Works (some { buffer with inputBufferPos := pos }) :=
  works_some ⟨h.input, h.valid, h.noZero, h.bytes, h.memory, h.size, h.length, hpos, hle⟩ hundo

theorem setPos_chars (h : buffer.Chars chars) (pos : Int) :
    (guiInputSetPos buffer pos).Chars chars ∧ SameUndos buffer (guiInputSetPos buffer pos) ∧
      (guiInputSetPos buffer pos).text = buffer.text := by
  rw [guiInputSetPos]
  split
  · have hlength := h.length
    refine ⟨⟨h.input, h.valid, h.noZero, h.bytes, h.memory, h.size, h.length, ?_, ?_⟩, ⟨rfl, rfl, rfl, rfl⟩, rfl⟩
    · show 0 ≤ min pos buffer.inputBufferLength
      omega
    · show min pos buffer.inputBufferLength ≤ chars.length
      omega
  · exact ⟨h, .refl buffer, rfl⟩

theorem setPos_works (h : buffer.Chars chars) (hundo : buffer.UndoListed) (pos : Int) :
    Works (some (guiInputSetPos buffer pos)) := by
  obtain ⟨hchars, hsame, -⟩ := setPos_chars h pos
  exact works_some hchars (hsame.undoListed hundo)

theorem moveBeginningOfLine_works (h : buffer.Chars chars) (hundo : buffer.UndoListed) :
    Works (some (guiInputMoveBeginningOfLine buffer)) := by
  rw [guiInputMoveBeginningOfLine]
  split
  · exact movePos_works h hundo (Int.le_refl 0) (Int.natCast_nonneg _)
  · exact works_some h hundo

theorem moveEndOfLine_works (h : buffer.Chars chars) (hundo : buffer.UndoListed) :
    Works (some (guiInputMoveEndOfLine buffer)) := by
  rw [guiInputMoveEndOfLine]
  split
  · have := h.length
    exact movePos_works h hundo (by omega) (by omega)
  · exact works_some h hundo

theorem movePreviousChar_works (h : buffer.Chars chars) (hundo : buffer.UndoListed) :
    Works (some (guiInputMovePreviousChar buffer)) := by
  rw [guiInputMovePreviousChar]
  split
  · have := h.pos_le
    exact movePos_works h hundo (by omega) (by omega)
  · exact works_some h hundo

theorem moveNextChar_works (h : buffer.Chars chars) (hundo : buffer.UndoListed) :
    Works (some (guiInputMoveNextChar buffer)) := by
  rw [guiInputMoveNextChar]
  split
  · have h1 := h.length
    have h2 := h.pos_nonneg
    exact movePos_works h hundo (by omega) (by omega)
  · exact works_some h hundo

theorem movePreviousWord_works (h : buffer.Chars chars) (hundo : buffer.UndoListed) :
    Works (some (guiInputMovePreviousWord env buffer)) := by
  rw [guiInputMovePreviousWord]
  split
  · rename_i hpos
    obtain ⟨k, hk, hcursor, hnat⟩ := h.cursor
    obtain ⟨k, rfl⟩ : ∃ n, k = n + 1 := ⟨k - 1, by omega⟩
    dsimp only
    rw [h.addOffset, show (buffer.inputBufferPos - 1).toNat = k by omega]
    obtain ⟨i, hi, hstring⟩ := wordStart_chars env h hk
    split
    · rw [hstring, h.utf8Pos (by omega)]
      exact movePos_works h hundo (Int.natCast_nonneg _) (by omega)
    · exact movePos_works h hundo (Int.le_refl 0) (Int.natCast_nonneg _)
  · exact works_some h hundo

theorem moveNextWord_works (h : buffer.Chars chars) (hundo : buffer.UndoListed) :
    Works (guiInputMoveNextWord env buffer) := by
  rw [guiInputMoveNextWord]
  split
  · rename_i hpos
    obtain ⟨k, hk, hcursor, hnat⟩ := h.cursor
    have hlength := h.length
    obtain ⟨j, hkj, hj, hskip⟩ := whileNext_chars h (fun s => !env.isWordCharInput s) hk 0
    obtain ⟨l, hjl, hl, hword⟩ := whileNext_chars h env.isWordCharInput hj 0
    dsimp only
    rw [h.addOffset, hnat, hskip]
    dsimp only
    rw [hword]
    dsimp only
    split
    · split
      · rw [h.utf8Pos hl]
        exact movePos_works h hundo (Int.natCast_nonneg _) (by omega)
      · exact movePos_works h hundo (by omega) (by omega)
    · -- the walk went to the end, so over the character at the cursor
      rename_i hend
      have hnil : (chars.drop j).flatten = [] := by rw [← h.drop_take]; exact not_not.mp hend
      have hall : chars.length ≤ j := Nat.le_of_not_lt fun hlt => by
        rw [List.drop_eq_getElem_cons hlt, List.flatten_cons, List.append_eq_nil_iff] at hnil
        exact (h.valid _ (List.getElem_mem hlt)).ne_nil hnil.1
      obtain ⟨j, rfl⟩ : ∃ n, j = n + 1 := ⟨j - 1, by omega⟩
      rw [h.prev_take hj, Option.map_some, h.utf8Pos (by omega)]
      exact movePos_works h hundo (Int.natCast_nonneg _) (by omega)
  · exact works_some h hundo

/-! ### Undo and redo -/

theorem undoUse_works (h : buffer.Chars chars) (hundo : buffer.UndoListed) (undo : GuiInputUndo) :
    Works (guiInputUndoUse env buffer undo) := by
  rw [guiInputUndoUse]
  split
  · refine (replaceInput_works h hundo undo.data).bind fun buffer' chars' hchars hundo' => ?_
    obtain ⟨moved, chars'', heq, hmoved, hundo''⟩ := setPos_works hchars hundo' undo.pos
    cases heq
    exact textChanged_works hmoved hundo'' false
  · exact works_some h hundo

/-- Another undo becomes the current one. -/
theorem useAt_works (h : buffer.Chars chars) {ptr : Nat} {undo : GuiInputUndo}
    (hptr : buffer.inputUndo[ptr]? = some undo) :
    Works (guiInputUndoUse env { buffer with ptrInputUndo := some ptr } undo) := by
  have hsame : buffer.SameInput { buffer with ptrInputUndo := some ptr } := ⟨rfl, rfl, rfl, rfl, rfl, rfl⟩
  refine undoUse_works (hsame.keepsChars h) (fun p hp => ?_) undo
  cases hp
  exact (List.getElem?_eq_some_iff.mp hptr).1

/-- `ptr_input_undo` is still in the list when the current input is added to it. -/
theorem undo_works (h : buffer.Chars chars) (hundo : buffer.UndoListed) : Works (guiInputUndo env buffer) := by
  rw [guiInputUndo]
  split
  · exact works_some h hundo
  · rename_i ptr hptr
    obtain ⟨saved, hsaved, hchars, hlisted⟩ : ∃ saved, saved = (
        if ptr + 1 = buffer.inputUndo.length ∧
            (buffer.inputUndo[ptr]?.map GuiInputUndo.data).getD buffer.text ≠ buffer.text then
          guiBufferUndoAdd env (guiBufferUndoSnapFree buffer)
        else buffer) ∧ saved.Chars chars ∧ saved.UndoListed := by
      split
      · have hfree : buffer.SameInput (guiBufferUndoSnapFree buffer) := ⟨rfl, rfl, rfl, rfl, rfl, rfl⟩
        have hlisted : (guiBufferUndoSnapFree buffer).UndoListed := hundo
        exact ⟨_, rfl, (undoAdd_sameInput _).keepsChars (hfree.keepsChars h), hlisted.add⟩
      · exact ⟨_, rfl, h, hundo⟩
    dsimp only
    rw [← hsaved]
    split
    · rename_i ptr' hptr'
      have hlt : ptr' < saved.inputUndo.length := Nat.lt_of_succ_lt (hlisted (ptr' + 1) hptr')
      rw [List.getElem?_eq_getElem hlt]
      exact useAt_works hchars (List.getElem?_eq_getElem hlt)
    · exact works_some hchars hlisted

theorem redo_works (h : buffer.Chars chars) (hundo : buffer.UndoListed) : Works (guiInputRedo env buffer) := by
  rw [guiInputRedo]
  split
  · exact works_some h hundo
  · split
    · exact useAt_works h ‹_›
    · exact works_some h hundo

/-! ## Any run -/

/-- Any operation writes in the memory of the input, which is consistent after it. -/
theorem guiInputStep_works (h : buffer.Chars chars) (hundo : buffer.UndoListed) (op : GuiInputOp) :
    Works (guiInputStep env buffer op) := by
  cases op with
  | replaceInput newInput => exact replaceInput_works h hundo newInput
  | insertString string pos =>
    obtain ⟨pre, post, new, -, hbecomes⟩ := insertString_chars env h string pos
    exact hbecomes.works hundo
  | setPos pos => exact setPos_works h hundo pos
  | deletePreviousChar => exact deletePreviousChar_works h hundo
  | deleteNextChar => exact deleteNextChar_works h hundo
  | deletePreviousWord => exact deletePreviousWord_works h hundo
  | deleteNextWord => exact deleteNextWord_works h hundo
  | deleteBeginningOfLine => exact deleteBeginningOfLine_works h hundo
  | deleteEndOfLine => exact deleteEndOfLine_works h hundo
  | deleteLine => exact deleteLine_works h hundo
  | transposeChars => exact transposeChars_works h hundo
  | moveBeginningOfLine => exact moveBeginningOfLine_works h hundo
  | moveEndOfLine => exact moveEndOfLine_works h hundo
  | movePreviousChar => exact movePreviousChar_works h hundo
  | moveNextChar => exact moveNextChar_works h hundo
  | movePreviousWord => exact movePreviousWord_works h hundo
  | moveNextWord => exact moveNextWord_works h hundo
  | undo => exact undo_works h hundo
  | redo => exact redo_works h hundo

/-- A new buffer has an empty input, which is consistent. -/
theorem guiBufferInputBufferInit_consistent (garbage : Nat → Byte) :
    (guiBufferInputBufferInit garbage).Consistent ∧ (guiBufferInputBufferInit garbage).UndoListed := by
  have hmemory : ((0 :: (List.range 255).map garbage).length : Int) = guiBufferInputBlockSize := by
    rw [List.length_cons, List.length_map, List.length_range]
    rfl
  have hchars : (guiBufferInputBufferInit garbage).Chars [] :=
    ⟨rfl, nofun, nofun, ⟨_, rfl⟩, hmemory, rfl, rfl, Int.le_refl 0, Int.le_refl 0⟩
  exact ⟨hchars.consistent, nofun⟩

end

/-- A run of operations on the input of a buffer never writes out of its memory, and keeps it consistent. -/
theorem guiInput_run_consistent {buffer : GuiInput} (hinput : buffer.input = true) (hconsistent : buffer.Consistent)
    (hundo : buffer.UndoListed) (ops : List (GuiInputEnv × GuiInputOp)) :
    ∃ buffer', ops.foldlM (fun buffer op => guiInputStep op.1 buffer op.2) buffer = some buffer' ∧
      buffer'.Consistent := by
  obtain ⟨chars, hchars⟩ := hconsistent.exists_chars hinput
  have hrun : Works (ops.foldlM (fun buffer op => guiInputStep op.1 buffer op.2) buffer) := by
    clear hconsistent hinput
    induction ops generalizing buffer chars with
    | nil => exact works_some hchars hundo
    | cons op ops ih =>
      rw [List.foldlM_cons]
      exact (guiInputStep_works hchars hundo op.2).bind fun _ _ hchars' hundo' => ih hundo' _ hchars'
  obtain ⟨buffer', chars', heq, hchars', -⟩ := hrun
  exact ⟨buffer', heq, hchars'.consistent⟩

theorem guiInput_run_consistent_new :
    ∃ buffer', [(⟨fun _ => 0, fun s => s ≠ [] ∧ s.head? ≠ some 32, 2, false, fun _ => none⟩,
        .insertString ⟨[0xC3, 0xA9, 32, 97], by decide⟩ (-1)),
      (⟨fun _ => 0, fun s => s ≠ [] ∧ s.head? ≠ some 32, 2, false, fun _ => none⟩, .transposeChars),
      (⟨fun _ => 0, fun s => s ≠ [] ∧ s.head? ≠ some 32, 2, false, fun _ => none⟩, .undo)].foldlM
        (fun buffer (op : GuiInputEnv × GuiInputOp) => guiInputStep op.1 buffer op.2)
        (guiBufferInputBufferInit fun _ => 0) = some buffer' ∧ buffer'.Consistent :=
  guiInput_run_consistent rfl (guiBufferInputBufferInit_consistent _).1 (guiBufferInputBufferInit_consistent _).2 _

end Wirc
