import WhoreIrc.Proof.CString
import WhoreIrc.Spec.GuiKey

/-!
# When keys are named and unbound right

* `key_names_iff`: after the code `\x01[[`, or the text `meta2-`, another test is made on
  what follows, even at the end of the string: so it may not end with an odd number of
  them. Otherwise a plain code is the code of its name.
* `unbind_area_iff`: a key of the area is freed, and then read for the next one; so the
  keys of an area are unbound right only if there is none.
-/

namespace Wirc

open Framework

theorem startsWith_append {word rest : Str} : startsWith (word ++ rest) word = true :=
  List.isPrefixOf_iff_prefix.mpr (List.prefix_append ..)

theorem startsWith_false {key word : Str} (h : ¬word <+: key) : startsWith key word = false :=
  Bool.eq_false_iff.mpr fun h' => h (List.isPrefixOf_iff_prefix.mp h')

theorem startsWith_drop {key word : Str} (h : startsWith key word = true) : key = word ++ key.drop word.length := by
  obtain ⟨rest, rfl⟩ := List.isPrefixOf_iff_prefix.mp h
  rw [List.drop_left]

/-! ## The loop -/

section ReplaceLoop

variable {code text : Str} {slot : GuiKeySlot}

theorem replaceLoop_nil : guiKeyReplaceLoop code text slot [] = some [] := by
  rw [guiKeyReplaceLoop, if_pos rfl]

/-- A turn on a code. -/
theorem replaceLoop_code (hcode : code ≠ []) (key : Str) :
    guiKeyReplaceLoop code text slot (code ++ key) =
      (slot.read key).bind fun turn => (guiKeyReplaceLoop code text slot turn.2).map (text ++ turn.1 ++ ·) := by
  rw [guiKeyReplaceLoop, if_neg (List.append_ne_nil_of_left_ne_nil hcode _), if_pos startsWith_append,
    List.drop_left]
  dsimp only
  split
  · rename_i hread
    rw [hread]
    rfl
  · rename_i hread
    rw [hread]
    rfl

/-- A turn on something else. -/
theorem replaceLoop_other {key : Str} (hne : key ≠ []) (h : startsWith key code = false) :
    guiKeyReplaceLoop code text slot key =
      (slot.read key).bind fun turn => (guiKeyReplaceLoop code text slot turn.2).map (turn.1 ++ ·) := by
  rw [guiKeyReplaceLoop, if_neg hne, if_neg (Bool.eq_false_iff.mp h)]
  dsimp only
  split
  · rename_i hread
    rw [hread]
    rfl
  · rename_i hread
    rw [hread]
    rfl

/-- A code whose first char is not repeated, and turns that go over chars that begin no code after the first. -/
structure LoopWord (code : Str) (slot : GuiKeySlot) : Prop where
  ne : code ≠ []
  head : ∀ c ∈ code.tail, code.head? ≠ some c
  empty : slot.read [] = none
  total : ∀ key, key ≠ [] → slot.read key ≠ none
  goes : ∀ key text rest, slot.read key = some (text, rest) →
    ∃ src, key = src ++ rest ∧ src ≠ [] ∧ ∀ c ∈ src.tail, code.head? ≠ some c

variable {u t : Str}

/-- What begins in a text, before the end or a code, is in this text. -/
theorem LoopWord.inside (h : LoopWord code slot) {src rest : Str} (hsrc : ∀ c ∈ src.tail, code.head? ≠ some c)
    (hu : u ≠ []) (ht : t = [] ∨ code <+: t) (heq : src ++ rest = u ++ t) : ∃ u', u = src ++ u' ∧ rest = u' ++ t := by
  obtain ⟨a, hua, hrest⟩ | ⟨a, hua, hta⟩ := List.append_eq_append_iff.mp heq
  · exact ⟨a, hua, hrest⟩
  · cases a with
    | nil => exact ⟨[], by rw [List.append_nil, hua, List.append_nil], hta.symm⟩
    | cons c a =>
      obtain rfl | ⟨after, rfl⟩ := ht
      · cases hta
      · obtain ⟨x, code', rfl⟩ := List.exists_cons_of_ne_nil h.ne
        have hmem : c ∈ src.tail := by
          rw [hua, List.tail_append_of_ne_nil hu]
          exact List.mem_append_right _ List.mem_cons_self
        exact absurd (congrArg List.head? hta) (hsrc c hmem)

/-- Before the end or a code, a turn stays in what is before. -/
theorem LoopWord.turn (h : LoopWord code slot) (hu : u ≠ []) (ht : t = [] ∨ code <+: t) :
    ∃ text u', slot.read (u ++ t) = some (text, u' ++ t) ∧ u' <:+ u ∧ u'.length < u.length := by
  obtain ⟨⟨text, rest⟩, hread⟩ :=
    Option.ne_none_iff_exists'.mp (h.total (u ++ t) (List.append_ne_nil_of_left_ne_nil hu _))
  obtain ⟨src, hkey, hsrc, hgoes⟩ := h.goes _ _ _ hread
  obtain ⟨u', rfl, rfl⟩ := h.inside hgoes hu ht hkey.symm
  refine ⟨text, u', hread, List.suffix_append .., ?_⟩
  have := List.length_pos_of_ne_nil hsrc
  rw [List.length_append]
  omega

/-- The loop begun in a text, in which no code ends, comes to what follows. -/
theorem LoopWord.isSome_append (h : LoopWord code slot) (ht : t = [] ∨ code <+: t) (hu : ¬code <:+ u) :
    (guiKeyReplaceLoop code text slot (u ++ t)).isSome = (guiKeyReplaceLoop code text slot t).isSome := by
  induction hn : u.length using Nat.strong_induction_on generalizing u with
  | _ n ih =>
    obtain rfl | hne := eq_or_ne u []
    · rfl
    · have hturn (v : Str) (hv : v <:+ u) (hvne : v ≠ []) : ∃ turn, slot.read (v ++ t) = some turn ∧
          (guiKeyReplaceLoop code text slot turn.2).isSome = (guiKeyReplaceLoop code text slot t).isSome := by
        obtain ⟨text', u', hread, hsuffix, hlt⟩ := h.turn hvne ht
        have hle := hv.length_le
        exact ⟨_, hread, ih u'.length (by omega) (fun hend => hu (hend.trans (hsuffix.trans hv))) rfl⟩
      by_cases hstart : code <+: u ++ t
      · obtain ⟨rest, hrest⟩ := hstart
        obtain ⟨u1, rfl, rfl⟩ := h.inside h.head hne ht hrest
        -- the code is not at the end of the text: something is left for the turn after it
        have hu1 : u1 ≠ [] := by
          rintro rfl
          rw [List.append_nil] at hu
          exact hu (List.suffix_refl _)
        obtain ⟨turn, hread, hsome⟩ := hturn u1 (List.suffix_append ..) hu1
        rw [List.append_assoc, replaceLoop_code h.ne, hread, Option.bind_some, Option.isSome_map]
        exact hsome
      · obtain ⟨turn, hread, hsome⟩ := hturn u (List.suffix_refl u) hne
        rw [replaceLoop_other (List.append_ne_nil_of_left_ne_nil hne _) (startsWith_false hstart), hread,
          Option.bind_some, Option.isSome_map]
        exact hsome

/-- `n` times the code. -/
theorem replicate_code (code : Str) (n : Nat) :
    (List.replicate n code).flatten = [] ∨ code <+: (List.replicate n code).flatten := by
  cases n with
  | zero => exact .inl rfl
  | succ n => exact .inr (List.prefix_append ..)

/-- Two codes are replaced by one turn, and what follows. -/
theorem LoopWord.isSome_replicate (h : LoopWord code slot) (n : Nat) :
    (guiKeyReplaceLoop code text slot (List.replicate n code).flatten).isSome = decide (n % 2 = 0) := by
  induction n using Nat.twoStepInduction with
  | zero =>
    rw [List.replicate_zero, List.flatten_nil, replaceLoop_nil]
    rfl
  | one =>
    have hone : guiKeyReplaceLoop code text slot (code ++ []) = none := by
      rw [replaceLoop_code h.ne, h.empty]
      rfl
    rw [List.append_nil] at hone
    rw [List.replicate_one, List.flatten_singleton, hone]
    rfl
  | more n ih _ =>
    have ht := replicate_code code n
    obtain ⟨text', u', hread, -, hlt⟩ := h.turn h.ne ht
    have hend : ¬code <:+ u' := fun hend => absurd hend.length_le (Nat.not_le_of_lt hlt)
    rw [List.replicate_succ, List.flatten_cons, List.replicate_succ, List.flatten_cons, replaceLoop_code h.ne, hread,
      Option.bind_some, Option.isSome_map, h.isSome_append ht hend, ih, Nat.add_mod_right]

/-- A string without the codes at its end. -/
theorem exists_end_codes (hcode : code ≠ []) (s : Str) :
    ∃ u n, s = u ++ (List.replicate n code).flatten ∧ ¬code <:+ u := by
  induction hn : s.length using Nat.strong_induction_on generalizing s with
  | _ n ih =>
    by_cases hend : code <:+ s
    · obtain ⟨s, rfl⟩ := hend
      have := List.length_pos_of_ne_nil hcode
      obtain ⟨u, m, rfl, hu⟩ := ih s.length (by rw [← hn, List.length_append]; omega) s rfl
      refine ⟨u, m + 1, ?_, hu⟩
      rw [List.replicate_succ', List.flatten_append, List.flatten_singleton, List.append_assoc]
    · exact ⟨s, 0, (List.append_nil s).symm, hend⟩

/-- The loop ends in the string if and only if it ends with an even number of codes. -/
theorem LoopWord.isSome_iff (h : LoopWord code slot) (key : Str) :
    guiKeyReplaceLoop code text slot key ≠ none ↔ EvenEnd code key := by
  rw [← Option.isSome_iff_ne_none]
  constructor
  · intro hsome
    obtain ⟨u, n, rfl, hu⟩ := exists_end_codes h.ne key
    rw [h.isSome_append (replicate_code code n) hu, h.isSome_replicate, decide_eq_true_iff] at hsome
    exact ⟨u, n / 2, by rw [Nat.mul_div_cancel' (Nat.dvd_of_mod_eq_zero hsome)], hu⟩
  · rintro ⟨u, n, rfl, hu⟩
    rw [h.isSome_append (replicate_code code _) hu, h.isSome_replicate, Nat.mul_mod_right]
    rfl

end ReplaceLoop

/-! ## The turns of both functions -/

section Turns

variable {key text rest : Str}

theorem copyChar_cases (h : guiKeyCopyChar key = some (text, rest)) : ∃ c, text = [c] ∧ key = c :: rest := by
  cases key with
  | nil => cases h
  | cons c key =>
    cases h
    exact ⟨c, rfl, rfl⟩

theorem internalCodeSlot_read (key : Str) : guiKeyInternalCodeSlot.read key =
    if startsWith key (lit "meta-") then some ([0x01, ch '['], key.drop 5)
    else if startsWith key (lit "ctrl-") then some ([0x01], key.drop 5)
    else if startsWith key (lit "space") then some ([ch ' '], key.drop 5)
    else guiKeyCopyChar key := rfl

theorem internalCodeSlot_cases (h : guiKeyInternalCodeSlot.read key = some (text, rest)) :
    (∃ name ∈ [lit "meta-", lit "ctrl-", lit "space"], key = name ++ rest) ∨ ∃ c, text = [c] ∧ key = c :: rest := by
  rw [internalCodeSlot_read] at h
  split at h
  · rename_i hstart
    cases h
    exact .inl ⟨_, .head _, startsWith_drop hstart⟩
  · split at h
    · rename_i hstart
      cases h
      exact .inl ⟨_, .tail _ (.head _), startsWith_drop hstart⟩
    · split at h
      · rename_i hstart
        cases h
        exact .inl ⟨_, .tail _ (.tail _ (.head _)), startsWith_drop hstart⟩
      · exact .inr (copyChar_cases h)

theorem expandedNameSlot_read (key : Str) : guiKeyExpandedNameSlot.read key =
    if startsWith key [0x01, ch '['] then some (lit "meta-", key.drop 2)
    else if startsWith key [0x01] ∧ key.tail ≠ [] then some (lit "ctrl-", key.drop 1)
    else if startsWith key [ch ' '] then some (lit "space", key.drop 1)
    else guiKeyCopyChar key := rfl

theorem expandedNameSlot_cases (h : guiKeyExpandedNameSlot.read key = some (text, rest)) :
    (text = lit "meta-" ∧ key = [0x01, ch '['] ++ rest) ∨ (text = lit "ctrl-" ∧ key = [0x01] ++ rest) ∨
      (text = lit "space" ∧ key = [ch ' '] ++ rest) ∨ ∃ c, text = [c] ∧ key = c :: rest := by
  rw [expandedNameSlot_read] at h
  split at h
  · rename_i hstart
    cases h
    exact .inl ⟨rfl, startsWith_drop hstart⟩
  · split at h
    · rename_i hstart
      cases h
      exact .inr (.inl ⟨rfl, startsWith_drop hstart.1⟩)
    · split at h
      · rename_i hstart
        cases h
        exact .inr (.inr (.inl ⟨rfl, startsWith_drop hstart⟩))
      · exact .inr (.inr (.inr (copyChar_cases h)))

/-- The text of `guiKeyGetInternalCode`. -/
theorem loopWord_internal : LoopWord (lit "meta2-") guiKeyInternalCodeSlot where
  ne := by decide
  head := by decide
  empty := rfl
  total key hne h := by
    obtain ⟨c, key, rfl⟩ := List.exists_cons_of_ne_nil hne
    rw [internalCodeSlot_read, guiKeyCopyChar] at h
    split_ifs at h
  goes key text rest h := by
    obtain ⟨name, hname, rfl⟩ | ⟨c, -, rfl⟩ := internalCodeSlot_cases h
    · refine ⟨name, rfl, ?_⟩
      clear h
      revert name
      decide
    · exact ⟨[c], rfl, List.cons_ne_nil c [], fun _ hmem => absurd hmem List.not_mem_nil⟩

/-- The code of `guiKeyGetExpandedName`. -/
theorem loopWord_expanded : LoopWord [0x01, ch '[', ch '['] guiKeyExpandedNameSlot where
  ne := by decide
  head := by decide
  empty := rfl
  total key hne h := by
    obtain ⟨c, key, rfl⟩ := List.exists_cons_of_ne_nil hne
    rw [expandedNameSlot_read, guiKeyCopyChar] at h
    split_ifs at h
  goes key text rest h := by
    obtain ⟨-, rfl⟩ | ⟨-, rfl⟩ | ⟨-, rfl⟩ | ⟨c, -, rfl⟩ := expandedNameSlot_cases h
    · exact ⟨_, rfl, by decide, by decide⟩
    · exact ⟨_, rfl, by decide, by decide⟩
    · exact ⟨_, rfl, by decide, by decide⟩
    · exact ⟨[c], rfl, List.cons_ne_nil c [], fun _ hmem => absurd hmem List.not_mem_nil⟩

end Turns

/-! ## The code of a name -/

section Inverse

variable {key e : Str}

/-- What the first turn on a code writes. -/
theorem expandedName_some (h : guiKeyGetExpandedName key = some e) (hne : key ≠ []) :
    ∃ key1 text rest e', guiKeyExpandedNameSlot.read key1 = some (text, rest) ∧
      guiKeyGetExpandedName rest = some e' ∧
      ((key = [0x01, ch '[', ch '['] ++ key1 ∧ e = lit "meta2-" ++ (text ++ e')) ∨ (key = key1 ∧ e = text ++ e')) := by
  rw [guiKeyGetExpandedName] at h
  by_cases hstart : startsWith key [0x01, ch '[', ch '[']
  · have hkey := startsWith_drop hstart
    rw [hkey, replaceLoop_code (List.cons_ne_nil _ _), Option.bind_eq_some_iff] at h
    obtain ⟨⟨text, rest⟩, hread, h⟩ := h
    obtain ⟨e', hrest, he⟩ := Option.map_eq_some_iff.mp h
    exact ⟨_, text, rest, e', hread, hrest, .inl ⟨hkey, by rw [← he, List.append_assoc]⟩⟩
  · rw [replaceLoop_other hne (Bool.eq_false_iff.mpr hstart), Option.bind_eq_some_iff] at h
    obtain ⟨⟨text, rest⟩, hread, h⟩ := h
    obtain ⟨e', hrest, he⟩ := Option.map_eq_some_iff.mp h
    exact ⟨key, text, rest, e', hread, hrest, .inr ⟨rfl, he.symm⟩⟩

/-- The first char of a name begins one of the texts, or is the first char of the code. -/
theorem expandedName_head {c : Byte} (h : guiKeyGetExpandedName key = some (c :: e)) :
    (∃ name ∈ keyNames, name <+: c :: e) ∨ ∃ rest, key = c :: rest ∧ guiKeyGetExpandedName rest = some e := by
  obtain rfl | hne := eq_or_ne key []
  · rw [guiKeyGetExpandedName, replaceLoop_nil] at h
    cases h
  · obtain ⟨key1, text, rest, e', hread, hrest, ⟨-, he⟩ | ⟨rfl, he⟩⟩ := expandedName_some h hne
    · exact .inl ⟨lit "meta2-", by decide, he ▸ List.prefix_append ..⟩
    · obtain ⟨rfl, -⟩ | ⟨rfl, -⟩ | ⟨rfl, -⟩ | ⟨c', rfl, rfl⟩ := expandedNameSlot_cases hread
      · exact .inl ⟨lit "meta-", by decide, he ▸ List.prefix_append ..⟩
      · exact .inl ⟨lit "ctrl-", by decide, he ▸ List.prefix_append ..⟩
      · exact .inl ⟨lit "space", by decide, he ▸ List.prefix_append ..⟩
      · cases he
        exact .inr ⟨rest, rfl, hrest⟩

/-- A word at the beginning of a name, in which no text stands for a code, is at the beginning of the code. -/
theorem expandedName_word {word : Str} (hword : ∀ v ∈ word.tails, v ≠ [] → ∀ name ∈ keyNames, ¬v <+: name ∧ ¬name <+: v)
    (h : guiKeyGetExpandedName key = some e) (he : word <+: e) : word <+: key := by
  induction word generalizing key e with
  | nil => exact List.nil_prefix
  | cons c word ih =>
    obtain ⟨e', rfl⟩ := he
    have htails : (c :: word).tails = (c :: word) :: word.tails := rfl
    rw [htails, List.forall_mem_cons] at hword
    obtain ⟨name, hname, hstart⟩ | ⟨rest, rfl, hrest⟩ := expandedName_head h
    · have hno := hword.1 (List.cons_ne_nil _ _) name hname
      obtain h | h := List.prefix_or_prefix_of_prefix hstart (List.prefix_append (c :: word) e')
      · exact absurd h hno.2
      · exact absurd h hno.1
    · exact List.cons_prefix_cons.mpr ⟨rfl, ih hword.2 hrest (List.prefix_append ..)⟩

/-- What a turn writes is read back by one turn. -/
theorem internalCodeSlot_expanded {text rest : Str} (hplain : ∀ name ∈ keyNames, ¬name <:+: key)
    (hread : guiKeyExpandedNameSlot.read key = some (text, rest)) (hrest : guiKeyGetExpandedName rest = some e) :
    startsWith (text ++ e) (lit "meta2-") = false ∧
      ∃ src, key = src ++ rest ∧ guiKeyInternalCodeSlot.read (text ++ e) = some (src, e) := by
  obtain ⟨rfl, rfl⟩ | ⟨rfl, rfl⟩ | ⟨rfl, rfl⟩ | ⟨c, rfl, rfl⟩ := expandedNameSlot_cases hread
  · exact ⟨rfl, _, rfl, rfl⟩
  · exact ⟨rfl, _, rfl, rfl⟩
  · exact ⟨rfl, _, rfl, rfl⟩
  · -- a text that begins with the char would be in the code
    have hno : ∀ name ∈ keyNames, ¬name <+: c :: e := by
      intro name hname hstart
      have hwords : ∀ name ∈ keyNames, ∀ v ∈ name.tail.tails, v ≠ [] →
          ∀ name ∈ keyNames, ¬v <+: name ∧ ¬name <+: v := by decide
      have hne : ∀ name ∈ keyNames, name ≠ [] := by decide
      obtain ⟨a, word, rfl⟩ := List.exists_cons_of_ne_nil (hne name hname)
      obtain ⟨rfl, hword⟩ := List.cons_prefix_cons.mp hstart
      have hinside := expandedName_word (hwords _ hname) hrest hword
      exact hplain _ hname (List.cons_prefix_cons.mpr ⟨rfl, hinside⟩).isInfix
    refine ⟨startsWith_false (hno _ (by decide)), [c], rfl, ?_⟩
    rw [internalCodeSlot_read, List.singleton_append, startsWith_false (hno _ (by decide)),
      startsWith_false (hno _ (by decide)), startsWith_false (hno _ (by decide))]
    rfl

/-- The code of the name of a code. -/
theorem internalCode_expandedName (hplain : ∀ name ∈ keyNames, ¬name <:+: key) (h : guiKeyGetExpandedName key = some e) :
    guiKeyReplaceLoop (lit "meta2-") [0x01, ch '[', ch '['] guiKeyInternalCodeSlot e = some key := by
  induction hn : key.length using Nat.strong_induction_on generalizing key e with
  | _ n ih =>
    obtain rfl | hne := eq_or_ne key []
    · rw [guiKeyGetExpandedName, replaceLoop_nil] at h
      cases h
      exact replaceLoop_nil
    · obtain ⟨key1, text, rest, e', hread, hrest, hfirst⟩ := expandedName_some h hne
      have hsuffix : key1 <:+ key := by
        obtain ⟨rfl, -⟩ | ⟨rfl, -⟩ := hfirst
        · exact List.suffix_append ..
        · exact List.suffix_refl _
      have hplain1 : ∀ name ∈ keyNames, ¬name <:+: key1 := fun name hname hin =>
        hplain name hname (hin.trans hsuffix.isInfix)
      obtain ⟨hmeta2, src, hkey1, hback⟩ := internalCodeSlot_expanded hplain1 hread hrest
      have hlt := guiKeyExpandedNameSlot.shorter _ _ _ hread
      have hrestEnd : rest <:+ key1 := ⟨src, hkey1.symm⟩
      have hle := hsuffix.length_le
      have hloop := ih rest.length (by omega)
        (fun name hname hin => hplain1 name hname (hin.trans hrestEnd.isInfix)) hrest rfl
      obtain ⟨rfl, rfl⟩ | ⟨rfl, rfl⟩ := hfirst
      · rw [replaceLoop_code (by decide), hback, Option.bind_some, hloop, Option.map_some, hkey1, List.append_assoc]
      · have hne' : text ++ e' ≠ [] := by
          intro hnil
          rw [hnil] at hback
          cases hback
        rw [replaceLoop_other hne' hmeta2, hback, Option.bind_some, hloop, Option.map_some, hkey1]

/-- The name of a code is not an area. -/
theorem expandedName_not_area (hplain : key.head? ≠ some (ch '@')) (h : guiKeyGetExpandedName key = some e) :
    e.head? ≠ some (ch '@') := by
  intro hhead
  obtain ⟨e', rfl⟩ := List.head?_eq_some_iff.mp hhead
  obtain ⟨name, hname, hstart⟩ | ⟨rest, rfl, -⟩ := expandedName_head h
  · have hno : ∀ name ∈ keyNames, ∃ c, name.head? = some c ∧ c ≠ ch '@' := by decide
    obtain ⟨c, hc, hne⟩ := hno name hname
    obtain ⟨name, rfl⟩ := List.head?_eq_some_iff.mp hc
    exact hne (List.cons_prefix_cons.mp hstart).1
  · exact hplain rfl

end Inverse

/-- Both functions read a string up to its final `\0`, and a plain code is the code of its name, if and only if
the string does not end with an odd number of codes `\x01[[`, nor of texts `meta2-` that are replaced. -/
theorem key_names_iff (key : Str) :
    KeyNamesRight key ↔ EvenEnd [0x01, ch '[', ch '['] key ∧
      ((key.head? = some (ch '@') ∧ ch ':' ∈ key) ∨ EvenEnd (lit "meta2-") key) := by
  have hexpanded : guiKeyGetExpandedName key ≠ none ↔ EvenEnd [0x01, ch '[', ch '['] key :=
    loopWord_expanded.isSome_iff key
  have hcolon : (strchr key (ch ':')).isSome ↔ ch ':' ∈ key := by
    rw [← Option.ne_none_iff_isSome, Ne, strchr_none, not_not]
  have hinternal : guiKeyGetInternalCode key ≠ none ↔
      (key.head? = some (ch '@') ∧ ch ':' ∈ key) ∨ EvenEnd (lit "meta2-") key := by
    rw [guiKeyGetInternalCode]
    split
    · rename_i harea
      exact iff_of_true (Option.some_ne_none key) (.inl ⟨harea.1, hcolon.mp harea.2⟩)
    · rename_i harea
      rw [loopWord_internal.isSome_iff, or_iff_right]
      exact fun h => harea ⟨h.1, hcolon.mpr h.2⟩
  constructor
  · intro h
    exact ⟨hexpanded.mp h.expanded, hinternal.mp h.internal⟩
  · rintro ⟨hex, hin⟩
    refine ⟨hexpanded.mpr hex, hinternal.mpr hin, fun hplain => ?_⟩
    obtain ⟨e, he⟩ := Option.ne_none_iff_exists'.mp (hexpanded.mpr hex)
    rw [he, Option.bind_some, guiKeyGetInternalCode, if_neg fun h => expandedName_not_area hplain.1 he h.1]
    exact internalCode_expandedName hplain.2 he

/-- The name of `\x01[[` is read after its end, and so is the code of `meta2-`. -/
theorem key_names_fails :
    guiKeyGetExpandedName [0x01, ch '[', ch '['] = none ∧ guiKeyGetInternalCode (lit "meta2-") = none ∧
      ¬∀ key, KeyNamesRight key := by
  have hexpanded : guiKeyGetExpandedName [0x01, ch '[', ch '['] = none := replaceLoop_code (by decide) []
  exact ⟨hexpanded, replaceLoop_code (by decide) [], fun h => (h _).expanded hexpanded⟩

/-! ## Unbinding the keys of an area -/

section Unbind

variable {keys : GuiKeys} {lists : GuiKeyContext → List (Addr × GuiKey)} {rounds : Nat} {context : GuiKeyContext}
  {areaType : GuiKeyFocus} {areaName : Str}

theorem setAreas_of_not_area {key : Str} (h : ¬(key.head? = some (ch '@') ∧ (strchr key (ch ':')).isSome)) :
    guiKeySetAreas key = (⟨.any, none⟩, ⟨.any, none⟩) := by
  rw [guiKeySetAreas]
  split
  · rfl
  · rename_i hhead
    rw [not_not] at hhead
    have hcolon : ch ':' ∉ key := by
      rw [← strchr_none]
      exact Option.not_isSome_iff_eq_none.mp fun hsome => h ⟨hhead, hsome⟩
    rw [strchr_none.mpr fun hmem => hcolon (List.mem_of_mem_tail hmem)]

/-- A key with an area is its own code. -/
theorem internalCode_of_area {key : GuiKey} (h : guiKeyAreaMatches areaType areaName key = true) :
    guiKeyGetInternalCode key.key = some key.key := by
  refine if_pos (by_contra fun harea => ?_)
  have hareas := key.areas.trans (setAreas_of_not_area harea)
  obtain ⟨h1, h2⟩ := Prod.mk.inj hareas
  rw [guiKeyAreaMatches, h1, h2] at h
  simp at h

/-- Two keys with the same code have the same areas. -/
theorem areaMatches_congr {key key' : GuiKey} (h : key.key = key'.key) :
    guiKeyAreaMatches areaType areaName key = guiKeyAreaMatches areaType areaName key' := by
  have hareas : (key.area1, key.area2) = (key'.area1, key'.area2) := by rw [key.areas, key'.areas, h]
  obtain ⟨h1, h2⟩ := Prod.mk.inj hareas
  rw [guiKeyAreaMatches, h1, h2, guiKeyAreaMatches]

/-- The first key of the area is found by its code, and freed. -/
theorem unbind_first (h : GuiKeysLinked keys lists) (hrounds : (lists context).length ≤ rounds)
    {pre ys : List (Addr × GuiKey)} {y : Addr × GuiKey} (hlist : lists context = pre ++ y :: ys)
    (hpre : ∀ x ∈ pre, guiKeyAreaMatches areaType areaName x.2 = false)
    (hy : guiKeyAreaMatches areaType areaName y.2 = true) :
    ∃ keys', guiKeyUnbind rounds keys context y.2.key = some (keys', 1) ∧ keys'.memory y.1 = none := by
  have hseg := h.linked.linked context
  have hnodup := h.linked.nodup context
  have hends := h.ends context
  have hfind := hseg.find (p := fun key : GuiKey => key.key = y.2.key) hrounds
  have hfirst : (lists context).find? (fun x => decide (x.2.key = y.2.key)) = some y := by
    refine List.find?_eq_some_iff_append.mpr ⟨decide_eq_true rfl, pre, ys, hlist, fun x hx => ?_⟩
    rw [Bool.not_eq_true', decide_eq_false_iff_not]
    intro hkey
    rw [← areaMatches_congr hkey, hpre x hx] at hy
    cases hy
  have hptr : (keys.ends context).first = firstPtr (lists context) none := by rw [hends, endsOf]
  rw [hlist] at hends hseg hnodup
  obtain ⟨keys', hfree, hfreed⟩ : ∃ keys', guiKeyFree keys context y.1 = some keys' ∧ keys'.memory y.1 = none := by
    rw [guiKeyFree, unlinkNode_eq hends hseg hnodup]
    exact ⟨_, rfl, Function.update_self ..⟩
  rw [guiKeyUnbind, internalCode_of_area hy, Option.bind_some, hptr, hfind, hfirst, Option.map_some, Option.bind_some]
  dsimp only
  rw [hfree, Option.map_some]
  exact ⟨keys', rfl, hfreed⟩

/-- No key has the area, or one is read after it is freed. -/
theorem unbindAreaLoop_eq (h : GuiKeysLinked keys lists) (hrounds : (lists context).length ≤ rounds)
    {pre ys : List (Addr × GuiKey)} (hlist : lists context = pre ++ ys)
    (hpre : ∀ x ∈ pre, guiKeyAreaMatches areaType areaName x.2 = false) {turns : Nat} (hturns : ys.length ≤ turns)
    (numKeys : Int) :
    guiKeyUnbindAreaLoop rounds context areaType areaName turns (firstPtr ys none) keys numKeys =
      if ∀ y ∈ ys, guiKeyAreaMatches areaType areaName y.2 = false then some (keys, numKeys) else none := by
  induction ys generalizing pre turns numKeys with
  | nil =>
    rw [if_pos (List.forall_mem_nil _), firstPtr_nil, guiKeyUnbindAreaLoop]
  | cons y ys ih =>
    obtain ⟨turns, rfl⟩ := Nat.exists_eq_add_of_lt (Nat.lt_of_lt_of_le (Nat.zero_lt_succ ys.length) hturns)
    have hseg := h.linked.linked context
    rw [hlist, seg_append] at hseg
    rw [firstPtr_cons, Nat.zero_add, guiKeyUnbindAreaLoop, hseg.2.1, Option.bind_some]
    cases hy : guiKeyAreaMatches areaType areaName y.2 with
    | false =>
      have hpre' : ∀ x ∈ pre ++ [y], guiKeyAreaMatches areaType areaName x.2 = false := by
        rw [List.forall_mem_append, List.forall_mem_singleton]
        exact ⟨hpre, hy⟩
      have hlist' : lists context = (pre ++ [y]) ++ ys := by rw [hlist, List.append_assoc, List.singleton_append]
      rw [if_neg Bool.false_ne_true, Option.bind_some, hseg.2.1, Option.bind_some,
        ih hlist' hpre' (Nat.le_of_succ_le_succ (by simpa using hturns)), Int.add_zero]
      simp only [List.forall_mem_cons, hy, true_and]
    | true =>
      obtain ⟨keys', hunbind, hfreed⟩ := unbind_first h hrounds hlist hpre hy
      rw [if_pos rfl, hunbind, Option.bind_some, hfreed, Option.bind_none, if_neg]
      intro hall
      rw [hall y List.mem_cons_self] at hy
      cases hy

/-- Without a key of the area, nothing is unbound. -/
theorem keysWithoutArea_eq {name area : Str}
    (h : ∀ c, guiKeySearchContext name = some c → ∀ x ∈ lists c, keyHasArea area x.2 = false) :
    keysWithoutArea name area lists = lists ∧ numKeysOfArea name area lists = 0 := by
  constructor
  · funext c
    rw [keysWithoutArea]
    split
    · rename_i hc
      rw [List.filter_eq_self]
      intro x hx
      rw [h c hc x hx]
      rfl
    · rfl
  · rw [numKeysOfArea]
    split
    · rename_i c hc
      rw [List.countP_eq_zero]
      intro x hx
      rw [h c hc x hx]
      exact Bool.false_ne_true
    · rfl

/-- The pattern `area:` is for the keys of a context, if both are known. -/
theorem unbindPlugin_area {name area key : Str}
    (hkey : key = lit "area:" ++ area ∨ key = lit "quiet:" ++ (lit "area:" ++ area)) :
    guiKeyUnbindPlugin rounds keys name key =
      (guiKeySearchContext name).elim (some (keys, 0)) fun c =>
        (guiKeySetAreaTypeName area).elim (some (keys, 0)) fun a =>
          guiKeyUnbindAreaLoop rounds c a.1 a.2 rounds (keys.ends c).first keys 0 := by
  rw [guiKeyUnbindPlugin]
  cases guiKeySearchContext name with
  | none => rfl
  | some c =>
    have harea : startsWith (lit "area:" ++ area) (lit "area:") = true := startsWith_append
    have hdrop : (lit "area:" ++ area).drop 5 = area := rfl
    have hquiet : startsWith (lit "quiet:" ++ (lit "area:" ++ area)) (lit "quiet:") = true := startsWith_append
    have hquietDrop : (lit "quiet:" ++ (lit "area:" ++ area)).drop 6 = lit "area:" ++ area := rfl
    have hnot : startsWith (lit "area:" ++ area) (lit "quiet:") = false := rfl
    obtain rfl | rfl := hkey
    · simp only [hnot, Bool.false_eq_true, if_false, harea, if_true, hdrop, Option.elim_some]
      cases guiKeySetAreaTypeName area <;> rfl
    · simp only [hquiet, if_true, hquietDrop, harea, hdrop, Option.elim_some]
      cases guiKeySetAreaTypeName area <;> rfl

/-- The keys of an area are unbound, and no freed key is read, if and only if no key has the area. -/
theorem unbind_area_iff (h : GuiKeysLinked keys lists) (hrounds : ∀ c, (lists c).length ≤ rounds) (name area key : Str)
    (hkey : key = lit "area:" ++ area ∨ key = lit "quiet:" ++ (lit "area:" ++ area)) :
    UnbindRight lists name area (guiKeyUnbindPlugin rounds keys name key) ↔
      ∀ c, guiKeySearchContext name = some c → ∀ x ∈ lists c, keyHasArea area x.2 = false := by
  have hresult : guiKeyUnbindPlugin rounds keys name key =
      if ∀ c, guiKeySearchContext name = some c → ∀ x ∈ lists c, keyHasArea area x.2 = false then some (keys, 0)
      else none := by
    rw [unbindPlugin_area hkey]
    cases hc : guiKeySearchContext name with
    | none => exact (if_pos fun c hc' => by cases hc').symm
    | some c =>
      cases ha : guiKeySetAreaTypeName area with
      | none =>
        refine (if_pos fun c' _ x _ => ?_).symm
        rw [keyHasArea, ha]
      | some a =>
        have hfirst : (keys.ends c).first = firstPtr (lists c) none := by rw [h.ends, endsOf]
        have hmatches (x : Addr × GuiKey) : keyHasArea area x.2 = guiKeyAreaMatches a.1 a.2 x.2 := by
          rw [keyHasArea, ha]
        rw [Option.elim_some, Option.elim_some, hfirst,
          unbindAreaLoop_eq h (hrounds c) (List.nil_append _).symm (List.forall_mem_nil _) (hrounds c)]
        simp only [hmatches, Option.some.injEq, forall_eq']
  constructor
  · rintro ⟨keys', hsome, -⟩
    by_contra hno
    rw [hresult, if_neg hno] at hsome
    cases hsome
  · intro hno
    obtain ⟨hlists, hnum⟩ := keysWithoutArea_eq hno
    rw [hresult, if_pos hno]
    refine ⟨keys, ?_, ?_⟩
    · rw [hnum]
      rfl
    · rw [hlists]
      exact h

end Unbind

/-- A key for a click in the chat area. -/
def chatKey : GuiKey where
  key := lit "@chat:button1"
  area1 := ⟨.chat, some (lit "*")⟩
  area2 := ⟨.any, some (lit "*")⟩
  areas := by decide

def chatKeyLists : GuiKeyContext → List (Addr × GuiKey) := Function.update (fun _ => []) .mouse [(1, chatKey)]

def chatKeys : GuiKeys where
  memory := Heap.store (fun _ => none) 1 ⟨chatKey, none, none⟩
  ends context := endsOf (chatKeyLists context)
  count context := (chatKeyLists context).length

theorem chatKeys_linked : GuiKeysLinked chatKeys chatKeyLists where
  linked := by
    have hempty : Lists (fun _ => none) fun _ : GuiKeyContext => ([] : List (Addr × GuiKey)) :=
      ⟨fun _ => trivial, fun _ => List.nodup_nil, fun _ _ _ _ h => absurd h List.not_mem_nil⟩
    exact (hempty.linkFirst (i := .mouse) rfl rfl).1
  ends _ := rfl
  count _ := rfl

/-- The keys of the area `bar` are unbound right: there is none. -/
theorem unbind_area_bar :
    UnbindRight chatKeyLists (lit "mouse") (lit "bar") (guiKeyUnbindPlugin 1 chatKeys (lit "mouse") (lit "area:bar")) := by
  refine (unbind_area_iff chatKeys_linked ?_ (lit "mouse") (lit "bar") (lit "area:bar") (.inl rfl)).mpr ?_
  · intro c
    cases c <;> decide
  · intro c _
    cases c <;> decide

/-- The key of the area `chat` is read after it is freed. -/
theorem unbind_area_fails :
    GuiKeysLinked chatKeys chatKeyLists ∧ guiKeyUnbindPlugin 1 chatKeys (lit "mouse") (lit "area:chat") = none ∧
      ¬UnbindRight chatKeyLists (lit "mouse") (lit "chat")
        (guiKeyUnbindPlugin 1 chatKeys (lit "mouse") (lit "area:chat")) := by
  have hnone : guiKeyUnbindPlugin 1 chatKeys (lit "mouse") (lit "area:chat") = none := by
    have hmouse : guiKeySearchContext (lit "mouse") = some .mouse := by decide +kernel
    have hkey : lit "area:chat" = lit "area:" ++ lit "chat" := rfl
    rw [unbindPlugin_area (.inl hkey), hmouse]
    rfl
  refine ⟨chatKeys_linked, hnone, ?_⟩
  rintro ⟨keys, hsome, -⟩
  rw [hnone] at hsome
  cases hsome

end Wirc
