import WhoreIrc.Proof.GuiCompletionNext
import WhoreIrc.Proof.GuiInput
import WhoreIrc.Proof.Utf8

/-!
# The words of a completion replace one another

The input is the characters before the base word, the word and the characters after
it. The bytes after the word are moved one by one: over a gap to the right, or to the
left from as far after the end of the text as the gap is long (`moveLeft_outside`).
-/

namespace Wirc

open GuiInput

section

variable {env : GuiInputEnv} {buffer : GuiInput} {completion : GuiCompletion}

/-! ## Bytes that are moved -/

theorem read_at {a b : List Byte} {c : Byte} (h : buffer.inputBuffer = a ++ c :: b) {pos : Int} (hpos : pos = a.length) :
    buffer.read pos = some c := by
  subst hpos
  rw [GuiInput.read, if_pos (Int.natCast_nonneg _), Int.toNat_natCast, h, List.getElem?_append_right le_rfl, Nat.sub_self]
  rfl

theorem write_at {a b : List Byte} {c : Byte} (h : buffer.inputBuffer = a ++ c :: b) {pos : Int} (hpos : pos = a.length)
    (d : Byte) : buffer.write pos [d] = some { buffer with inputBuffer := a ++ d :: b } := by
  subst hpos
  have hwrite : writeBytes buffer.inputBuffer a.length [d] = some (a ++ ([d] ++ b)) :=
    writeBytes_eq (show buffer.inputBuffer = a ++ ([c] ++ b) from h) rfl rfl
  rw [GuiInput.write, if_pos (Int.natCast_nonneg _), Int.toNat_natCast, hwrite]
  rfl

/-- The first byte of a gap with a byte after it. -/
theorem gap_cons (gap : List Byte) (c : Byte) : ∃ first gap', gap ++ [c] = first :: gap' ∧ gap'.length = gap.length := by
  cases gap with
  | nil => exact ⟨c, [], rfl, rfl⟩
  | cons first gap =>
    refine ⟨first, gap ++ [c], rfl, ?_⟩
    rw [List.length_append, List.length_singleton, List.length_cons]

/-- A byte of the loop to the left is moved. -/
theorem moveLeft_step {a gap : List Byte} {c : Byte} {rest : List Byte}
    (h : buffer.inputBuffer = a ++ (gap ++ c :: rest)) (count : Nat) :
    ∃ gap', gap'.length = gap.length ∧
      guiInputMoveLeft (-(gap.length : Int)) (count + 1) a.length buffer =
        guiInputMoveLeft (-(gap'.length : Int)) count (a ++ [c]).length
          { buffer with inputBuffer := (a ++ [c]) ++ (gap' ++ rest) } := by
  obtain ⟨first, gap', hgap, hlength⟩ := gap_cons gap c
  have hread : buffer.read (a.length - -(gap.length : Int)) = some c := by
    refine read_at (a := a ++ gap) (b := rest) (by rw [h, List.append_assoc]) ?_
    rw [List.length_append]
    omega
  have hfirst : buffer.inputBuffer = a ++ first :: (gap' ++ rest) := by
    rw [h, List.append_cons, hgap, List.cons_append]
  refine ⟨gap', hlength, ?_⟩
  rw [guiInputMoveLeft, hread]
  dsimp only [Option.bind_eq_bind, Option.bind_some]
  rw [write_at hfirst rfl c]
  dsimp only [Option.bind_eq_bind, Option.bind_some]
  rw [hlength, List.length_append, List.length_singleton, Int.natCast_add, List.append_assoc]
  rfl

/-- The bytes after a gap are moved to its beginning. -/
theorem moveLeft_gap {a gap bytes rest : List Byte} (h : buffer.inputBuffer = a ++ (gap ++ (bytes ++ rest))) :
    ∃ gap', gap'.length = gap.length ∧ guiInputMoveLeft (-(gap.length : Int)) bytes.length a.length buffer =
      some { buffer with inputBuffer := a ++ (bytes ++ (gap' ++ rest)) } := by
  induction bytes generalizing a gap buffer with
  | nil =>
    refine ⟨gap, rfl, ?_⟩
    rw [List.length_nil, guiInputMoveLeft, List.nil_append, ← List.nil_append rest, ← h]
  | cons c bytes ih =>
    rw [List.cons_append] at h
    obtain ⟨gap', hlength, hstep⟩ := moveLeft_step h bytes.length
    obtain ⟨gap'', hlength', hrest⟩ := @ih { buffer with inputBuffer := (a ++ [c]) ++ (gap' ++ (bytes ++ rest)) } _ gap' rfl
    refine ⟨gap'', hlength'.trans hlength, ?_⟩
    have heq : (a ++ [c]) ++ (bytes ++ (gap'' ++ rest)) = a ++ (c :: bytes ++ (gap'' ++ rest)) := by
      rw [List.append_assoc]
      rfl
    rw [List.length_cons, hstep, hrest, heq]

/-- More bytes than there are after the gap. -/
theorem moveLeft_outside {a gap bytes : List Byte} (h : buffer.inputBuffer = a ++ (gap ++ bytes)) {count : Nat}
    (hcount : bytes.length < count) : guiInputMoveLeft (-(gap.length : Int)) count a.length buffer = none := by
  induction bytes generalizing a gap buffer count with
  | nil =>
    obtain ⟨count, rfl⟩ := Nat.exists_eq_succ_of_ne_zero (Nat.ne_of_gt hcount)
    have hread : buffer.read (a.length - -(gap.length : Int)) = none := by
      rw [GuiInput.read, if_pos (by omega), h, List.append_nil]
      refine List.getElem?_eq_none ?_
      rw [List.length_append]
      omega
    rw [guiInputMoveLeft, hread]
    rfl
  | cons c bytes ih =>
    obtain ⟨count, rfl⟩ := Nat.exists_eq_succ_of_ne_zero (Nat.ne_of_gt (Nat.zero_lt_of_lt hcount))
    obtain ⟨gap', -, hstep⟩ := moveLeft_step h count
    rw [Nat.succ_eq_add_one, hstep]
    exact ih rfl (Nat.lt_of_succ_lt_succ hcount)

/-- The bytes before a gap are moved to its end. -/
theorem moveRight_gap {a bytes gap rest : List Byte} (h : buffer.inputBuffer = a ++ (bytes ++ (gap ++ rest))) :
    ∃ gap', gap'.length = gap.length ∧
      guiInputMoveRight gap.length ((a.length : Int) + gap.length) bytes.length buffer =
        some { buffer with inputBuffer := a ++ (gap' ++ (bytes ++ rest)) } := by
  induction bytes using List.reverseRecOn generalizing gap rest buffer with
  | nil =>
    refine ⟨gap, rfl, ?_⟩
    rw [List.length_nil, guiInputMoveRight, List.nil_append, ← List.nil_append (gap ++ rest), ← h]
  | append_singleton bytes c ih =>
    -- the last byte of the gap is written
    obtain ⟨last, gap', hgap, hlength⟩ : ∃ last gap', c :: gap = gap' ++ [last] ∧ gap'.length = gap.length := by
      obtain ⟨last, gap', hgap, hlength⟩ := gap_cons gap.reverse c
      refine ⟨last, gap'.reverse, ?_, by rw [List.length_reverse, hlength, List.length_reverse]⟩
      have hreverse := congrArg List.reverse hgap
      rwa [List.reverse_append, List.reverse_reverse, List.reverse_singleton, List.reverse_cons,
        List.singleton_append] at hreverse
    have hread : buffer.read ((a.length : Int) + gap.length + bytes.length - gap.length) = some c := by
      refine read_at (a := a ++ bytes) (b := gap ++ rest) ?_ ?_
      · rw [h, List.append_assoc, List.append_assoc]
        rfl
      · rw [List.length_append]
        omega
    have hlast : buffer.inputBuffer = (a ++ (bytes ++ gap')) ++ last :: rest := by
      rw [h, List.append_assoc bytes, List.singleton_append, ← List.cons_append, hgap]
      simp only [List.append_assoc, List.singleton_append]
    have hplace : (a.length : Int) + gap.length + bytes.length = (a ++ (bytes ++ gap')).length := by
      rw [List.length_append, List.length_append, hlength]
      omega
    obtain ⟨gap'', hlength', hrest⟩ := @ih { buffer with inputBuffer := (a ++ (bytes ++ gap')) ++ c :: rest } gap'
      (c :: rest) (by simp only [List.append_assoc])
    refine ⟨gap'', hlength'.trans hlength, ?_⟩
    rw [List.length_append, List.length_singleton, guiInputMoveRight, hread]
    dsimp only [Option.bind_eq_bind, Option.bind_some]
    rw [write_at hlast hplace c]
    dsimp only [Option.bind_eq_bind, Option.bind_some]
    rw [hlength] at hrest
    rw [hrest, List.append_assoc bytes]
    rfl

/-! ## The place of the new word -/

variable {pre old new post : List Str}

/-- There is a place for the new word between the characters, and the sizes are set. -/
def PlaceMade (buffer : GuiInput) (pre new post : List Str) (result : Option GuiInput) : Prop :=
  ∃ gap rest, gap.length = new.flatten.length ∧
    (pre.flatten ++ (gap ++ (post.flatten ++ 0 :: rest))).length = inputAlloc (pre ++ new ++ post).flatten.length ∧
    result = some { buffer with
      inputBuffer := pre.flatten ++ (gap ++ (post.flatten ++ 0 :: rest))
      inputBufferAlloc := inputAlloc (pre ++ new ++ post).flatten.length
      inputBufferSize := (pre ++ new ++ post).flatten.length
      inputBufferLength := (pre ++ new ++ post).length }

/-- The completion replaces the characters of a word by those of another one. -/
structure Replaces (completion : GuiCompletion) (pre old new : List Str) : Prop where
  place : completion.positionReplace = pre.flatten.length
  size : completion.diffSize = (new.flatten.length : Int) - old.flatten.length
  length : completion.diffLength = (new.length : Int) - old.length

theorem flatten_length (pre old post : List Str) :
    (pre ++ old ++ post).flatten.length = pre.flatten.length + old.flatten.length + post.flatten.length := by
  rw [List.flatten_append, List.flatten_append, List.length_append, List.length_append]

theorem Replaces.newLength (hreplaces : Replaces completion pre old new) (h : buffer.Chars (pre ++ old ++ post)) :
    buffer.inputBufferLength + completion.diffLength = ((pre ++ new ++ post).length : Nat) := by
  rw [h.length, hreplaces.length]
  simp only [List.length_append]
  omega

theorem Replaces.newSize (hreplaces : Replaces completion pre old new) (h : buffer.Chars (pre ++ old ++ post)) :
    buffer.inputBufferSize + completion.diffSize = ((pre ++ new ++ post).flatten.length : Nat) := by
  rw [h.size, hreplaces.size, flatten_length, flatten_length]
  omega

/-- The new word is longer. -/
theorem completeMove_longer (h : buffer.Chars (pre ++ old ++ post)) (hreplaces : Replaces completion pre old new)
    (hlt : old.flatten.length < new.flatten.length) :
    PlaceMade buffer pre new post (guiInputCompleteMove env buffer completion new.flatten) := by
  obtain ⟨rest, hbytes⟩ := h.bytes
  have hsizes := flatten_length pre old post
  have hsizes' := flatten_length pre new post
  have halloc := lt_inputAlloc (pre ++ new ++ post).flatten.length
  obtain ⟨rest', hoptimize, hlength⟩ := optimizeSize_ok env rest h.input
    (hbytes.trans (List.append_cons ..)) h.memory (pre ++ new ++ post).flatten.length ((pre ++ new ++ post).length : Nat)
    (by rw [List.length_append, List.length_singleton]; omega)
  rw [← List.append_cons] at hlength hoptimize
  obtain ⟨gap, last, after, -, hsplit, hgap, -⟩ := @exists_gap rest' (new.flatten.length - old.flatten.length) (by
    rw [List.length_append] at hlength
    omega)
  rw [hsplit] at hlength hoptimize
  -- the end of the string is written, and the characters after the word are moved
  have hbase : ∀ memory, memory = (pre ++ old ++ post).flatten ++ (gap ++ 0 :: after) →
      memory = (pre ++ old).flatten ++ (post.flatten ++ (gap ++ 0 :: after)) := fun memory hmemory => by
    rw [hmemory, @List.flatten_append _ (pre ++ old), List.append_assoc]
  obtain ⟨gap', hgap', hmove⟩ := @moveRight_gap { buffer with
      inputBuffer := (pre ++ old ++ post).flatten ++ (gap ++ 0 :: after)
      inputBufferAlloc := inputAlloc (pre ++ new ++ post).flatten.length
      inputBufferSize := (pre ++ new ++ post).flatten.length
      inputBufferLength := (pre ++ new ++ post).length } _ _ _ _ (hbase _ rfl)
  have hwrite := @write_at { buffer with
      inputBuffer := (pre ++ old ++ post).flatten ++ (gap ++ last :: after)
      inputBufferAlloc := inputAlloc (pre ++ new ++ post).flatten.length
      inputBufferSize := (pre ++ new ++ post).flatten.length
      inputBufferLength := (pre ++ new ++ post).length } ((pre ++ old ++ post).flatten ++ gap) after last
    (List.append_assoc _ _ _).symm ((pre ++ new ++ post).flatten.length : Nat)
    (by rw [List.length_append, hgap]; omega) 0
  refine ⟨old.flatten ++ gap', after, ?_, ?_, ?_⟩
  · rw [List.length_append, hgap', hgap]
    omega
  · rw [← hlength]
    simp only [List.length_append, List.length_cons, List.flatten_append, hgap']
    omega
  · rw [guiInputCompleteMove, hreplaces.newSize h, hreplaces.newLength h, hreplaces.place, hreplaces.size,
      if_pos (by omega), hoptimize]
    dsimp only
    rw [hwrite]
    dsimp only [Option.bind_eq_bind, Option.bind_some]
    have hdiff : (new.flatten.length : Int) - old.flatten.length = gap.length := by omega
    have hstart : (pre.flatten.length : Int) + new.flatten.length = ((pre ++ old).flatten.length : Int) + gap.length := by
      rw [List.flatten_append, List.length_append]
      omega
    have hcount : (((pre ++ new ++ post).flatten.length : Int) -
        (((pre ++ old).flatten.length : Int) + gap.length)).toNat = post.flatten.length := by
      rw [← hstart]
      omega
    have hend : (pre ++ old).flatten ++ (gap' ++ (post.flatten ++ 0 :: after)) =
        pre.flatten ++ (old.flatten ++ gap' ++ (post.flatten ++ 0 :: after)) := by
      rw [List.flatten_append, List.append_assoc, List.append_assoc]
    rw [hdiff, hstart, hcount, List.append_assoc (pre ++ old ++ post).flatten, hmove, hend]

/-- The bytes of the word that stay, and those that go. -/
theorem old_split (hle : new.flatten.length ≤ old.flatten.length) :
    ∃ kept gap, old.flatten = kept ++ gap ∧ kept.length = new.flatten.length ∧
      (gap.length : Int) = old.flatten.length - new.flatten.length := by
  refine ⟨_, _, (List.take_append_drop new.flatten.length old.flatten).symm, ?_, ?_⟩
  · rw [List.length_take]
    omega
  · rw [List.length_drop]
    omega

theorem memory_split {memory kept gap rest : List Byte} (hmemory : memory = (pre ++ old ++ post).flatten ++ 0 :: rest)
    (hold : old.flatten = kept ++ gap) :
    memory = (pre.flatten ++ kept) ++ (gap ++ (post.flatten ++ 0 :: rest)) := by
  rw [hmemory]
  simp only [List.flatten_append, hold, List.append_assoc]

/-- The new word is not longer. -/
theorem completeMove_shorter (h : buffer.Chars (pre ++ old ++ post)) (hreplaces : Replaces completion pre old new)
    (hle : new.flatten.length ≤ old.flatten.length)
    (hfits : ((pre ++ old ++ post).flatten.length : Int) + (old.flatten.length - new.flatten.length) ≤
      buffer.inputBufferAlloc) :
    PlaceMade buffer pre new post (guiInputCompleteMove env buffer completion new.flatten) := by
  obtain ⟨rest, hbytes⟩ := h.bytes
  obtain ⟨kept, gap, hold, hkept, hgap⟩ := old_split hle
  have hsizes := flatten_length pre old post
  have hsizes' := flatten_length pre new post
  have hmemory := h.memory
  rw [hbytes, List.length_append] at hmemory
  -- as many bytes as the gap is long are read after the text
  have hafter : ((0 :: rest).take gap.length).length = gap.length := by
    rw [List.length_take]
    omega
  obtain ⟨gap', hgap', hmove⟩ := @moveLeft_gap buffer (pre.flatten ++ kept) gap
    (post.flatten ++ (0 :: rest).take gap.length) ((0 :: rest).drop gap.length) (by
      rw [List.append_assoc post.flatten, List.take_append_drop]
      exact memory_split hbytes hold)
  rw [List.append_assoc post.flatten, ← List.append_assoc (pre.flatten ++ kept)] at hmove
  have hsize : (pre.flatten ++ kept ++ post.flatten).length = (pre ++ new ++ post).flatten.length := by
    rw [List.length_append, List.length_append, hkept, hsizes']
  have hlength : ((pre.flatten ++ kept ++ post.flatten ++
      ((0 :: rest).take gap.length ++ (gap' ++ (0 :: rest).drop gap.length))).length : Int) =
      buffer.inputBufferAlloc := by
    rw [List.length_append, hsize, List.length_append, hafter, List.length_append, hgap', List.length_drop]
    omega
  obtain ⟨buffer', rest', hoptimize, hset, hwrite, halloc⟩ := optimizeSize_write env
    (show ({ buffer with
      inputBuffer := pre.flatten ++ kept ++ post.flatten ++
        ((0 :: rest).take gap.length ++ (gap' ++ (0 :: rest).drop gap.length))
      inputBufferLength := (pre ++ new ++ post).length } : GuiInput).input = true from h.input)
    rfl hlength (pre ++ new ++ post).length
  rw [hsize] at hoptimize hset hwrite halloc
  have hend : pre.flatten ++ kept ++ post.flatten ++ 0 :: rest' = pre.flatten ++ (kept ++ (post.flatten ++ 0 :: rest')) := by
    simp only [List.append_assoc]
  rw [hend] at hwrite halloc
  refine ⟨kept, rest', hkept, halloc, ?_⟩
  have hdiff : (new.flatten.length : Int) - old.flatten.length = -(gap.length : Int) := by omega
  have hstart : (pre.flatten.length : Int) + new.flatten.length = (pre.flatten ++ kept).length := by
    rw [List.length_append]
    omega
  have hcount : (((pre ++ old ++ post).flatten.length : Int) - (pre.flatten ++ kept).length).toNat =
      (post.flatten ++ (0 :: rest).take gap.length).length := by
    rw [@List.length_append _ post.flatten, hafter]
    omega
  have hnewSize := hreplaces.newSize h
  rw [hreplaces.size, hdiff] at hnewSize
  rw [guiInputCompleteMove, hreplaces.place, hreplaces.size, if_neg (by omega), hdiff, hstart, h.size, hcount, hmove]
  dsimp only [Option.bind_eq_bind, Option.bind_some]
  rw [hreplaces.newLength h, hnewSize, hoptimize]
  dsimp only
  rw [hset, hwrite]

/-- The bytes that are read are not in the memory. -/
theorem completeMove_outside (h : buffer.Chars (pre ++ old ++ post)) (hreplaces : Replaces completion pre old new)
    (hle : new.flatten.length ≤ old.flatten.length)
    (hfits : buffer.inputBufferAlloc <
      ((pre ++ old ++ post).flatten.length : Int) + (old.flatten.length - new.flatten.length)) :
    guiInputCompleteMove env buffer completion new.flatten = none := by
  obtain ⟨rest, hbytes⟩ := h.bytes
  obtain ⟨kept, gap, hold, hkept, hgap⟩ := old_split hle
  have hsizes := flatten_length pre old post
  have hmemory := h.memory
  rw [hbytes, List.length_append] at hmemory
  have hkeep : (pre.flatten ++ kept).length = pre.flatten.length + new.flatten.length := by rw [List.length_append, hkept]
  have hmove := @moveLeft_outside buffer (pre.flatten ++ kept) gap (post.flatten ++ 0 :: rest) (memory_split hbytes hold)
    (((pre ++ old ++ post).flatten.length : Int) - (pre.flatten ++ kept).length).toNat (by
      rw [List.length_append]
      omega)
  have hdiff : (new.flatten.length : Int) - old.flatten.length = -(gap.length : Int) := by omega
  have hstart : (pre.flatten.length : Int) + new.flatten.length = (pre.flatten ++ kept).length := by omega
  rw [guiInputCompleteMove, hreplaces.place, hreplaces.size, if_neg (by omega), hdiff, hstart, h.size, hmove]
  rfl

/-- The word is in its place, and the cursor is after it. -/
theorem place_written (h : buffer.Chars (pre ++ old ++ post)) (hnew : ∀ c ∈ new, IsValidChar c) (hzero : 0 ∉ new.flatten)
    {place : Int} (hplace : place = pre.flatten.length) {result : Option GuiInput} (hmade : PlaceMade buffer pre new post result) :
    ∃ moved written, result = some moved ∧ moved.write place new.flatten = some written ∧
      (∀ pos : Int, pos = (pre ++ new).length → GuiInput.Chars { written with inputBufferPos := pos } (pre ++ new ++ post)) ∧
      written.text.1 = (pre ++ new ++ post).flatten ∧
      written.inputBufferAlloc = inputAlloc (pre ++ new ++ post).flatten.length := by
  obtain ⟨gap, rest, hgap, halloc, hmoved⟩ := hmade
  have hflatten : (pre ++ new ++ post).flatten = pre.flatten ++ (new.flatten ++ post.flatten) := by
    simp only [List.flatten_append, List.append_assoc]
  have hvalid : ∀ c ∈ pre ++ new ++ post, IsValidChar c := by
    intro c hc
    rw [List.mem_append, List.mem_append] at hc
    rcases hc with (hc | hc) | hc
    · exact h.valid c (List.mem_append_left _ (List.mem_append_left _ hc))
    · exact hnew c hc
    · exact h.valid c (List.mem_append_right _ hc)
  have hnoZero : 0 ∉ (pre ++ new ++ post).flatten := by
    have hbefore := h.noZero
    rw [List.flatten_append, List.flatten_append, List.mem_append, List.mem_append] at hbefore ⊢
    rintro ((hc | hc) | hc)
    · exact hbefore (.inl (.inl hc))
    · exact hzero hc
    · exact hbefore (.inr hc)
  have hwrite : writeBytes (pre.flatten ++ (gap ++ (post.flatten ++ 0 :: rest))) pre.flatten.length new.flatten =
      some ((pre ++ new ++ post).flatten ++ 0 :: rest) := by
    rw [hflatten, List.append_assoc, List.append_assoc]
    exact writeBytes_eq rfl rfl hgap.symm
  have hlength : ((pre ++ new ++ post).flatten ++ 0 :: rest).length = inputAlloc (pre ++ new ++ post).flatten.length := by
    rw [← halloc, hflatten]
    simp only [List.length_append, hgap]
    omega
  refine ⟨_, { buffer with
    inputBuffer := (pre ++ new ++ post).flatten ++ 0 :: rest
    inputBufferAlloc := inputAlloc (pre ++ new ++ post).flatten.length
    inputBufferSize := (pre ++ new ++ post).flatten.length
    inputBufferLength := (pre ++ new ++ post).length }, hmoved, ?_, ?_, cString_append hnoZero rest, rfl⟩
  · rw [hplace, GuiInput.write, if_pos (Int.natCast_nonneg _), Int.toNat_natCast, hwrite]
    rfl
  · rintro pos rfl
    refine ⟨h.input, hvalid, hnoZero, ⟨rest, rfl⟩, congrArg _ hlength, rfl, rfl, Int.natCast_nonneg _, ?_⟩
    show ((pre ++ new).length : Int) ≤ ((pre ++ new ++ post).length : Nat)
    rw [@List.length_append _ (pre ++ new)]
    omega

/-- The cursor is after some characters. -/
theorem realPos_chars (h : buffer.Chars (pre ++ post)) (hpos : buffer.inputBufferPos = pre.length) :
    guiInputRealPos buffer = pre.flatten.length := by
  rw [guiInputRealPos, h.text, hpos, Int.toNat_natCast, utf8RealPos_flatten h.valid, sizeOfFirst, List.take_left]

/-- The word is replaced when there is a place for the new one. -/
theorem complete_word (h : buffer.Chars (pre ++ old ++ post)) (hreplaces : Replaces completion pre old new)
    (hnew : ∀ c ∈ new, IsValidChar c) (hzero : 0 ∉ new.flatten)
    (hmade : PlaceMade buffer pre new post (guiInputCompleteMove env buffer completion new.flatten))
    (hfound : completion.wordFound = some new.flatten) (hposition : 0 ≤ completion.position) :
    ∃ buffer' : GuiInput, buffer'.Chars (pre ++ new ++ post) ∧ buffer'.inputBufferPos = (pre ++ new).length ∧
      buffer'.inputBufferAlloc = inputAlloc (pre ++ new ++ post).flatten.length ∧
      guiInputComplete env buffer completion =
        if completion.addSpace then
          (guiInputCompleteSpace env buffer').map fun buffer'' =>
            (buffer'', { completion with position := (pre ++ new).flatten.length + 1 })
        else some (buffer', { completion with position := (pre ++ new).flatten.length }) := by
  obtain ⟨moved, written, hmove, hwrite, hchars, htext, halloc⟩ := place_written h hnew hzero hreplaces.place hmade
  have hcursor : utf8Pos written.text.1 completion.positionReplace.toNat + utf8Strlen new.flatten = (pre ++ new).length := by
    have hpos := @utf8Pos_first _ (hchars _ rfl).valid pre.length (by simp only [List.length_append]; omega)
    rw [sizeOfFirst, List.append_assoc, List.take_left, ← List.append_assoc] at hpos
    rw [htext, hreplaces.place, Int.toNat_natCast, hpos, utf8Strlen_flatten hnew, List.length_append]
  have hcursor' : (utf8Pos written.text.1 completion.positionReplace.toNat : Int) + utf8Strlen new.flatten =
      (pre ++ new).length := by exact_mod_cast hcursor
  refine ⟨{ written with inputBufferPos := (pre ++ new).length }, hchars _ rfl, rfl, halloc, ?_⟩
  rw [guiInputComplete, hfound]
  dsimp only
  rw [hmove]
  dsimp only [Option.bind_eq_bind, Option.bind_some]
  rw [hwrite]
  dsimp only [Option.bind_eq_bind, Option.bind_some]
  rw [hcursor', realPos_chars (hchars _ rfl) rfl, if_pos hposition]
  split
  · cases guiInputCompleteSpace env { written with inputBufferPos := (pre ++ new).length } with
    | none => rfl
    | some buffer'' =>
      have hafter : (0 : Int) ≤ (pre ++ new).flatten.length := Int.natCast_nonneg _
      exact congrArg (fun completion' => some (buffer'', completion')) (if_pos hafter)
  · rfl

/-! ## The space after the word -/

/-- What is after the word, with the space. -/
def spacedAfter (space : Bool) (after : Str) : Str :=
  if space ∧ after.head? ≠ some (ch ' ') then ch ' ' :: after else after

/-- A valid character that begins with an ASCII byte is this byte. -/
theorem char_of_ascii {b : Byte} {t : Str} (h : IsValidChar (b :: t)) (hb : b < 0x80) : t = [] := by
  obtain ⟨b', t', heq, hlength, -⟩ := h
  cases heq
  rw [utf8LeadSize_ascii hb] at hlength
  exact List.eq_nil_of_length_eq_zero (Nat.succ.inj hlength)

/-- There is a space after the cursor, and the cursor goes after it. -/
theorem completeSpace_chars (h : buffer.Chars (pre ++ post)) (hpos : buffer.inputBufferPos = pre.length)
    (halloc : buffer.inputBufferAlloc = inputAlloc (pre ++ post).flatten.length) :
    ∃ (buffer' : GuiInput) (space post' : List Str), guiInputCompleteSpace env buffer = some buffer' ∧
      buffer'.Chars (pre ++ space ++ post') ∧ space.flatten = [ch ' '] ∧
      (space ++ post').flatten = spacedAfter true post.flatten ∧ buffer'.inputBufferPos = (pre ++ space).length ∧
      buffer'.inputBufferAlloc = inputAlloc (pre ++ space ++ post').flatten.length := by
  obtain ⟨rest, hbytes⟩ := h.bytes
  have hbytes' : buffer.inputBuffer = pre.flatten ++ (post.flatten ++ 0 :: rest) := by
    rw [hbytes, List.flatten_append, List.append_assoc]
  rw [guiInputCompleteSpace, realPos_chars h hpos]
  by_cases hhead : post.flatten.head? = some (ch ' ')
  · -- the cursor goes after the space that is there
    obtain ⟨post', rfl⟩ : ∃ post', post = [ch ' '] :: post' := by
      cases post with
      | nil => cases hhead
      | cons c post' =>
        have hc := h.valid c (List.mem_append_right _ List.mem_cons_self)
        obtain ⟨b, t, rfl⟩ := List.exists_cons_of_ne_nil hc.ne_nil
        obtain rfl : b = ch ' ' := Option.some.inj hhead
        rw [char_of_ascii hc (by decide)]
        exact ⟨post', rfl⟩
    have hread := read_at (c := ch ' ') hbytes' rfl
    refine ⟨{ buffer with inputBufferPos := buffer.inputBufferPos + 1 }, [[ch ' ']], post', ?_, ?_, rfl, ?_, ?_, ?_⟩
    · rw [hread]
      dsimp only [Option.bind_eq_bind, Option.bind_some]
      rw [if_neg (not_not.mpr rfl)]
    · rw [List.append_assoc]
      refine ⟨h.input, h.valid, h.noZero, h.bytes, h.memory, h.size, h.length, ?_, ?_⟩
      · show 0 ≤ buffer.inputBufferPos + 1
        omega
      · show buffer.inputBufferPos + 1 ≤ (pre ++ ([[ch ' ']] ++ post')).length
        rw [hpos, List.length_append, List.length_append, List.length_singleton]
        omega
    · exact (if_neg fun hnot => hnot.2 rfl).symm
    · show buffer.inputBufferPos + 1 = (pre ++ [[ch ' ']]).length
      rw [hpos, List.length_append]
      rfl
    · rw [List.append_assoc]
      exact halloc
  · have hread : ∃ c ≠ ch ' ', buffer.read pre.flatten.length = some c := by
      cases hpost : post.flatten with
      | nil =>
        rw [hpost] at hbytes'
        exact ⟨0, by decide, read_at hbytes' rfl⟩
      | cons c after =>
        rw [hpost] at hbytes' hhead
        exact ⟨c, fun heq => hhead (congrArg some heq), read_at hbytes' rfl⟩
    obtain ⟨c, hne, hread⟩ := hread
    have hplace : (if buffer.inputBufferPos = -1 then buffer.inputBufferPos else buffer.inputBufferPos) = pre.length := by
      rw [ite_self, hpos]
    obtain ⟨space, buffer', hvalid, hspace, hinsert, hchars, -, hcursor, halloc'⟩ :=
      insertString_at env h spaceString buffer.inputBufferPos hplace
    have hflatten : space.flatten = [ch ' '] := by
      rw [hspace]
      exact utf8Normalize_valid (utf8IsValid_ascii (by decide))
    have hcount : space.length = 1 := by
      have hascii : ∀ c ∈ [[ch ' ']], IsValidChar c := List.forall_mem_singleton.mpr (isValidChar_ascii (by decide))
      rw [← utf8Strlen_flatten hvalid, hflatten, ← @List.flatten_singleton _ [ch ' '], utf8Strlen_flatten hascii]
      rfl
    rw [Int.toNat_natCast, List.take_left, List.drop_left] at hchars
    refine ⟨buffer', space, post, ?_, hchars, hflatten, ?_, ?_, ?_⟩
    · rw [hread]
      exact (if_pos hne).trans hinsert
    · rw [List.flatten_append, hflatten, spacedAfter, if_pos ⟨rfl, hhead⟩]
      rfl
    · rw [hcursor, hpos, List.length_append]
      rfl
    · rw [halloc', flatten_length pre space post, List.flatten_append, List.length_append,
        Nat.add_right_comm pre.flatten.length]

end

/-! ## A call -/

/-- The input is a word, between the text before it and the text after it. -/
def InputAt (before word after : Str) (buffer : GuiInput) : Prop :=
  ∃ pre mid post, buffer.Chars (pre ++ mid ++ post) ∧ pre.flatten = before ∧ mid.flatten = word ∧ post.flatten = after

/-- The bytes that are read to put a word there, instead of another one, are in the memory. -/
def RoomFor (buffer : GuiInput) (old word : Str) : Prop :=
  old.length ≤ word.length ∨ (buffer.text.1.length : Int) + (old.length - word.length) ≤ buffer.inputBufferAlloc

/-- The completion, when a word has been found to replace another one. -/
def completionAt (start : GuiCompletion) (nick space : Bool) (word old : Str) (position direction : Int) : GuiCompletion :=
  { start with
    direction
    position
    wordFound := some word
    wordFoundIsNick := nick
    addSpace := space
    partialList := []
    diffSize := word.length - old.length
    diffLength := utf8Strlen word - utf8Strlen old }

/-- The input after a call that has found a word, and the completion that recognises its cursor. -/
structure CompletedWith (start : GuiCompletion) (nick space : Bool) (before word after : Str)
    (state : GuiInput × GuiCompletion) : Prop where
  input : InputAt before word (spacedAfter space after) state.1
  alloc : state.1.inputBufferAlloc = inputAlloc (before ++ word ++ spacedAfter space after).length
  cursor : guiInputRealPos state.1 = before.length + word.length + if space then 1 else 0
  completion : ∃ old direction, state.2 = completionAt start nick space word old (guiInputRealPos state.1) direction

section

variable {env : GuiInputEnv} {completionEnv : GuiCompletionEnv} {buffer : GuiInput} {start : GuiCompletion}
  {nick space : Bool} {before old word after : Str} {position direction : Int}

theorem InputAt.text (h : InputAt before word after buffer) : buffer.text.1 = before ++ word ++ after := by
  obtain ⟨pre, mid, post, hchars, rfl, rfl, rfl⟩ := h
  rw [hchars.text, List.flatten_append, List.flatten_append]

theorem InputAt.same {buffer' : GuiInput} (h : InputAt before word after buffer) (hsame : buffer.SameInput buffer') :
    InputAt before word after buffer' := by
  obtain ⟨pre, mid, post, hchars, hbefore, hword, hafter⟩ := h
  exact ⟨pre, mid, post, hsame.keepsChars hchars, hbefore, hword, hafter⟩

theorem realPos_same {buffer' : GuiInput} (hsame : buffer.SameInput buffer') :
    guiInputRealPos buffer' = guiInputRealPos buffer := by
  rw [guiInputRealPos, guiInputRealPos, GuiInput.text, hsame.bytes, hsame.pos]
  rfl

theorem spacedAfter_again (space : Bool) (after : Str) : spacedAfter space (spacedAfter space after) = spacedAfter space after := by
  rw [spacedAfter, if_neg]
  rintro ⟨rfl, hhead⟩
  refine hhead ?_
  rw [spacedAfter]
  split
  · rfl
  · rename_i hnot
    by_contra hne
    exact hnot ⟨rfl, hne⟩

theorem completionAt_replaces {pre mid new : List Str} (hmid : ∀ c ∈ mid, IsValidChar c) (hnew : ∀ c ∈ new, IsValidChar c)
    (hplace : start.positionReplace = pre.flatten.length) :
    Replaces (completionAt start nick space new.flatten mid.flatten position direction) pre mid new where
  place := hplace
  size := rfl
  length := by
    show (utf8Strlen new.flatten : Int) - utf8Strlen mid.flatten = _
    rw [utf8Strlen_flatten hnew, utf8Strlen_flatten hmid]

/-- The word is replaced when there is room. -/
theorem complete_at (h : InputAt before old after buffer) (hplace : start.positionReplace = before.length)
    (hvalid : utf8IsValid word = none) (hzero : 0 ∉ word) (hposition : 0 ≤ position) (hroom : RoomFor buffer old word) :
    ∃ state, guiInputComplete env buffer (completionAt start nick space word old position direction) = some state ∧
      CompletedWith start nick space before word after state := by
  have htext := h.text
  obtain ⟨pre, mid, post, hchars, rfl, rfl, rfl⟩ := h
  obtain ⟨new, hnew, rfl⟩ := exists_chars_of_valid hvalid
  have hmid : ∀ c ∈ mid, IsValidChar c := fun c hc =>
    hchars.valid c (List.mem_append_left _ (List.mem_append_right _ hc))
  have hreplaces := @completionAt_replaces start nick space position direction pre mid new hmid hnew hplace
  have hmade : PlaceMade buffer pre new post
      (guiInputCompleteMove env buffer (completionAt start nick space new.flatten mid.flatten position direction) new.flatten) := by
    rw [RoomFor, hchars.text] at hroom
    by_cases hlt : mid.flatten.length < new.flatten.length
    · exact completeMove_longer hchars hreplaces hlt
    · refine completeMove_shorter hchars hreplaces (Nat.le_of_not_lt hlt) ?_
      rcases hroom with hle | hfits
      · have := hchars.size_lt
        rw [hchars.size] at this
        omega
      · exact hfits
  obtain ⟨buffer', hchars', hpos, halloc, hcomplete⟩ := complete_word hchars hreplaces hnew hzero hmade rfl hposition
  cases space with
  | false =>
    have hcursor := realPos_chars hchars' hpos
    have hafter : spacedAfter false post.flatten = post.flatten := if_neg fun hnot => Bool.false_ne_true hnot.1
    refine ⟨_, hcomplete.trans (if_neg Bool.false_ne_true), ⟨⟨pre, new, post, hchars', rfl, rfl, hafter.symm⟩, ?_, ?_, ?_⟩⟩
    · rw [hafter, halloc, List.flatten_append, List.flatten_append]
    · rw [hcursor, List.flatten_append, List.length_append]
      rfl
    · exact ⟨mid.flatten, direction, by rw [hcursor]; rfl⟩
  | true =>
    obtain ⟨buffer'', blank, post', hspace, hchars'', hblank, hafter, hpos', halloc'⟩ :=
      @completeSpace_chars env _ _ _ hchars' hpos halloc
    have hcursor := realPos_chars hchars'' hpos'
    rw [List.flatten_append, List.length_append, hblank] at hcursor
    refine ⟨_, hcomplete.trans ((if_pos rfl).trans (congrArg _ hspace)), ⟨⟨pre, new, blank ++ post', ?_, rfl, rfl, hafter⟩, ?_, ?_, ?_⟩⟩
    · rw [← List.append_assoc]
      exact hchars''
    · rw [halloc', ← hafter]
      simp only [List.flatten_append, List.append_assoc]
    · rw [hcursor, List.flatten_append, List.length_append]
      rfl
    · exact ⟨mid.flatten, direction, by rw [hcursor]; rfl⟩

/-- Without room, the bytes read are not in the memory. -/
theorem complete_outside (h : InputAt before old after buffer) (hplace : start.positionReplace = before.length)
    (hvalid : utf8IsValid word = none) (hroom : ¬ RoomFor buffer old word) :
    guiInputComplete env buffer (completionAt start nick space word old position direction) = none := by
  obtain ⟨pre, mid, post, hchars, rfl, rfl, rfl⟩ := h
  obtain ⟨new, hnew, rfl⟩ := exists_chars_of_valid hvalid
  have hmid : ∀ c ∈ mid, IsValidChar c := fun c hc =>
    hchars.valid c (List.mem_append_left _ (List.mem_append_right _ hc))
  have hreplaces := @completionAt_replaces start nick space position direction pre mid new hmid hnew hplace
  rw [RoomFor, hchars.text] at hroom
  have hmove := @completeMove_outside env _ _ _ _ _ _ hchars hreplaces (by omega) (by omega)
  rw [guiInputComplete]
  show (guiInputCompleteMove env buffer (completionAt start nick space new.flatten mid.flatten position direction)
    new.flatten).bind _ = none
  rw [hmove]
  rfl

end

end Wirc
