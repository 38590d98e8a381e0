import WhoreIrc.Proof.CString
import WhoreIrc.Spec.IrcServer

/-!
# Features are read (`features_iff`) and looked up (`isupport_value_iff`)

A text is pieces between spaces. A key without spaces is found inside the first piece
that has it (`after_inside`): this is how the message is read for its fields. A key that
begins with a space is found only where a piece begins (`strstr_piece`), so that the
lookup reads the first piece with a value (`valuePiece`), and a piece that is the name is
seen if a space is after it (`nameFollowed_iff`).
-/

namespace Wirc

open Framework

variable {u r s w name : Str}

/-! ## Pieces -/

theorem isSpace_eq_false {c : Byte} : decide (c = ch ' ') = false ↔ c ≠ ch ' ' := decide_eq_false_iff_not

/-- A text has no space, or a first one. -/
theorem space_cases (s : Str) : ch ' ' ∉ s ∨ ∃ u t, s = u ++ ch ' ' :: t ∧ ch ' ' ∉ u := by
  rcases @eq_or_first _ (fun c : Byte => decide (c = ch ' ')) s with hall | ⟨u, c, t, rfl, hu, hc⟩
  · exact .inl fun hmem => isSpace_eq_false.mp (hall _ hmem) rfl
  · refine .inr ⟨u, t, ?_, fun hmem => isSpace_eq_false.mp (hu _ hmem) rfl⟩
    rw [of_decide_eq_true hc]

theorem pieces_of_notMem (h : ch ' ' ∉ s) : s.splitOnP (fun c : Byte => decide (c = ch ' ')) = [s] :=
  List.splitOnP_eq_singleton fun c hc => isSpace_eq_false.mpr fun heq => h (heq ▸ hc)

theorem pieces_append (u t : Str) :
    (u ++ ch ' ' :: t).splitOnP (fun c : Byte => decide (c = ch ' ')) =
      u.splitOnP (fun c : Byte => decide (c = ch ' ')) ++ t.splitOnP (fun c : Byte => decide (c = ch ' ')) :=
  List.splitOnP_append_cons u t (decide_eq_true rfl)

/-- The end of a list begins with a space, or it is empty. -/
def AtSpace (r : Str) : Prop := r = [] ∨ ∃ t, r = ch ' ' :: t

/-- A word is in a piece, where it begins. -/
theorem isPrefixOf_piece (hu : ch ' ' ∉ u) (hw : ch ' ' ∉ w) (hr : AtSpace r) :
    w.isPrefixOf (u ++ r) = w.isPrefixOf u := by
  induction w generalizing u with
  | nil => rfl
  | cons b w ih =>
    rw [List.mem_cons, not_or] at hw
    cases u with
    | nil =>
      rcases hr with rfl | ⟨t, rfl⟩
      · rfl
      · have hb : (b == ch ' ') = false := beq_false_of_ne (Ne.symm hw.1)
        show (b == ch ' ' && w.isPrefixOf t) = false
        rw [hb, Bool.false_and]
    | cons a u =>
      rw [List.mem_cons, not_or] at hu
      rw [List.cons_append, List.isPrefixOf, List.isPrefixOf, ih hu.2 hw.2]

theorem strstr_notMem (hu : ch ' ' ∉ u) (r : Str) : strstr (u ++ r) (ch ' ' :: w) = strstr r (ch ' ' :: w) := by
  induction u with
  | nil => rfl
  | cons a u ih =>
    rw [List.mem_cons, not_or] at hu
    rw [List.cons_append, strstr, List.isPrefixOf, beq_false_of_ne hu.1, Bool.false_and, if_neg Bool.false_ne_true,
      ih hu.2]

theorem strstr_nil_cons (c : Byte) (w : Str) : strstr [] (c :: w) = none := if_neg (List.cons_ne_nil c w)

/-- The key is where a piece begins, or after this piece. -/
theorem strstr_piece (hu : ch ' ' ∉ u) (hw : ch ' ' ∉ w) (hr : AtSpace r) :
    strstr (ch ' ' :: (u ++ r)) (ch ' ' :: w) =
      if w.isPrefixOf u then some (ch ' ' :: (u ++ r)) else strstr r (ch ' ' :: w) := by
  rw [strstr, List.isPrefixOf, beq_self_eq_true, Bool.true_and, isPrefixOf_piece hu hw hr, strstr_notMem hu]

/-! ## The fields of the server -/

/-- A word is inside a piece, or after this piece. -/
theorem strstr_inside (hu : ch ' ' ∉ u) (hw : ch ' ' ∉ w) (hne : w ≠ []) (hr : AtSpace r) :
    strstr (u ++ r) w = ((strstr u w).map (· ++ r)).or (strstr r w) := by
  induction u with
  | nil => rw [strstr, if_neg hne, Option.map_none, Option.none_or, List.nil_append]
  | cons a u ih =>
    have hpiece := isPrefixOf_piece hu hw hr
    rw [List.mem_cons, not_or] at hu
    rw [List.cons_append] at hpiece ⊢
    rw [strstr, strstr, hpiece, ih hu.2]
    split
    · rfl
    · rfl

theorem strstr_space (hw : ch ' ' ∉ w) (hne : w ≠ []) (t : Str) : strstr (ch ' ' :: t) w = strstr t w := by
  have hno : w.isPrefixOf (ch ' ' :: t) = false := by
    obtain ⟨b, w, rfl⟩ := List.exists_cons_of_ne_nil hne
    have hb : (b == ch ' ') = false := beq_false_of_ne fun heq => hw (heq ▸ List.mem_cons_self)
    show (b == ch ' ' && w.isPrefixOf t) = false
    rw [hb, Bool.false_and]
  rw [strstr, hno, if_neg Bool.false_ne_true]

theorem takeWhile_noSpace (h : ch ' ' ∉ s) : s.takeWhile (· ≠ ch ' ') = s :=
  List.takeWhile_eq_self_iff.mpr fun _ hc => decide_eq_true fun heq => h (heq ▸ hc)

/-- What is after a word, up to the next space, is in the piece of this word. -/
theorem after_inside (hw : ch ' ' ∉ w) (hne : w ≠ []) (s : Str) :
    (strstr s w).map (fun pos => (pos.drop w.length).takeWhile (· ≠ ch ' ')) =
      (s.splitOnP (fun c : Byte => decide (c = ch ' '))).findSome? fun piece =>
        (strstr piece w).map fun pos => pos.drop w.length := by
  induction hn : s.length using Nat.strong_induction_on generalizing s with
  | _ n ih =>
    rcases space_cases s with hs | ⟨u, t, rfl, hu⟩
    · rw [pieces_of_notMem hs, List.findSome?_singleton]
      cases hpos : strstr s w with
      | none => rfl
      | some pos =>
        obtain ⟨u, r, rfl, rfl, -⟩ := strstr_some hpos
        rw [Option.map_some, Option.map_some, List.drop_left,
          takeWhile_noSpace fun hmem => hs (List.mem_append_right _ hmem)]
    · have hlt : t.length < n := by
        rw [List.length_append, List.length_cons] at hn
        omega
      rw [pieces_append, pieces_of_notMem hu, List.findSome?_append, List.findSome?_singleton, ← ih t.length hlt t rfl,
        strstr_inside hu hw hne (.inr ⟨t, rfl⟩), strstr_space hw hne]
      cases hpos : strstr u w with
      | none => rfl
      | some pos =>
        obtain ⟨v, r, rfl, rfl, -⟩ := strstr_some hpos
        have hr : ∀ c ∈ r, decide (c ≠ ch ' ') = true :=
          fun c hc => decide_eq_true fun heq => hu (heq ▸ List.mem_append_right _ hc)
        rw [Option.map_some, Option.map_some, Option.some_or, Option.some_or, Option.map_some, List.append_assoc,
          List.drop_left, List.drop_left, List.takeWhile_append_of_pos hr, List.takeWhile_cons_of_neg (by simp),
          List.append_nil]

/-- Nothing is found in what is empty. -/
theorem findSome_tokens {α : Type} (f : Str → Option α) (hf : f [] = none) (s : Str) :
    (isupportTokens s).findSome? f = (s.splitOnP (fun c : Byte => decide (c = ch ' '))).findSome? f := by
  rw [isupportTokens, runs]
  induction s.splitOnP (fun c : Byte => decide (c = ch ' ')) with
  | nil => rfl
  | cons piece pieces ih =>
    cases piece with
    | nil => rw [List.filter_cons_of_neg (by decide), ih, List.findSome?_cons, hf]
    | cons c piece =>
      rw [List.filter_cons_of_pos rfl, List.findSome?_cons, List.findSome?_cons, ih]

theorem key_ne_nil (name : Str) : name ++ lit "=" ≠ [] := fun h => absurd (List.append_eq_nil_iff.mp h).2 (by decide)

theorem key_noSpace (hname : ch ' ' ∉ name) : ch ' ' ∉ name ++ lit "=" :=
  fun hmem => (List.mem_append.mp hmem).elim hname (by decide)

theorem key_length (name : Str) : (name ++ lit "=").length = name.length + 1 := List.length_append ..

/-- The value that the message is read for is in a token. -/
theorem isupportValue_eq (name : Str) (hname : ch ' ' ∉ name) (text : Str) :
    isupportValue text (name ++ lit "=") = firstInside name text := by
  have hnil : valueInside name [] = none := by rw [valueInside, strstr, if_neg (key_ne_nil name), Option.map_none]
  rw [firstInside, findSome_tokens _ hnil]
  have hinside := after_inside (key_noSpace hname) (key_ne_nil name) text
  rw [key_length] at hinside
  rw [isupportValue, key_length]
  exact hinside

theorem searchCasemapping_eq (server : IrcServerModes) (value : Str) :
    ircServerSearchCasemapping server value = (casemappingRead value).getD server.casemapping := by
  rw [ircServerSearchCasemapping, casemappingRead, List.find?_cons, List.find?_cons, List.find?_cons, List.find?_nil]
  by_cases h1 : stringStrcasecmp (lit "rfc1459") value = 0
  · simp only [h1, if_true, decide_true, Option.map_some, Option.getD_some]
  by_cases h2 : stringStrcasecmp (lit "strict-rfc1459") value = 0
  · simp only [h1, h2, if_true, if_false, decide_true, decide_false, Option.map_some, Option.getD_some]
  by_cases h3 : stringStrcasecmp (lit "ascii") value = 0
  · simp only [h1, h2, h3, if_true, if_false, decide_true, decide_false, Option.map_some, Option.getD_some]
  · simp only [h1, h2, h3, if_false, decide_false, Option.map_none, Option.getD_none]

theorem isupportNumber_eq (value : Str) (old : Int) : isupportNumber value old = (numberRead value).getD old := by
  show (if (strtol value).2 = [] ∧ (strtol value).1 > 0 then toInt (strtol value).1 else old) = _
  rw [numberRead]
  split
  · rfl
  · rfl

/-- What the message does to the fields. -/
theorem cb005Full_eq (server : IrcServerIsupport) (text : Str) :
    ircProtocolCb005Full server text =
      { fieldsAfter server (firstInside · text) with isupport := (ircProtocolCb005Full server text).isupport } := by
  have hprefix : isupportValue text (lit "PREFIX=") = firstInside (lit "PREFIX") text :=
    isupportValue_eq (lit "PREFIX") (by decide) text
  have hcasemapping : isupportValue text (lit "CASEMAPPING=") = firstInside (lit "CASEMAPPING") text :=
    isupportValue_eq (lit "CASEMAPPING") (by decide) text
  have hchanmodes : isupportValue text (lit "CHANMODES=") = firstInside (lit "CHANMODES") text :=
    isupportValue_eq (lit "CHANMODES") (by decide) text
  have hnicklen : isupportValue text (lit "NICKLEN=") = firstInside (lit "NICKLEN") text :=
    isupportValue_eq (lit "NICKLEN") (by decide) text
  have hchantypes : isupportValue text (lit "CHANTYPES=") = firstInside (lit "CHANTYPES") text :=
    isupportValue_eq (lit "CHANTYPES") (by decide) text
  have hmonitor : isupportValue text (lit "MONITOR=") = firstInside (lit "MONITOR") text :=
    isupportValue_eq (lit "MONITOR") (by decide) text
  have hmodes : ircProtocolCb005 server.modes text = (fieldsAfter server (firstInside · text)).modes := by
    rw [ircProtocolCb005, hprefix, hcasemapping, hchanmodes, fieldsAfter]
    cases firstInside (lit "PREFIX") text <;> cases firstInside (lit "CASEMAPPING") text <;>
      cases firstInside (lit "CHANMODES") text <;>
      simp only [fieldAfter, searchCasemapping_eq, Option.bind_none, Option.bind_some, Option.getD_none] <;> rfl
  rw [ircProtocolCb005Full, hmodes, hnicklen, hchantypes, hmonitor]
  simp only [fieldsAfter, fieldAfter, isupportNumber_eq]
  congr 1
  · cases firstInside (lit "NICKLEN") text <;> rfl
  · cases firstInside (lit "CHANTYPES") text <;> rfl
  · cases firstInside (lit "MONITOR") text <;> rfl

/-- The message sets the fields from the tokens of the features if and only if no other token that has
such a name and `=` in it is read for them, or only one with the same effect. -/
theorem features_iff (server : IrcServerIsupport) (text : Str) :
    FeaturesRight server text ↔ FeaturesApart server text := by
  rw [FeaturesRight, FeaturesApart]
  constructor
  · intro h
    rw [cb005Full_eq] at h
    exact congrArg (fun server' : IrcServerIsupport => { server' with isupport := server.isupport }) h
  · intro h
    rw [← h]
    exact cb005Full_eq server text

/-- A token whose name only ends as that of a feature sets its field. -/
theorem features_fails :
    ¬FeaturesRight ⟨⟨.rfc1459, none, none⟩, 9, none, 0, none⟩ (lit "MAXNICKLEN=30 MODES=4 :are supported") ∧
      (ircProtocolCb005Full ⟨⟨.rfc1459, none, none⟩, 9, none, 0, none⟩
        (lit "MAXNICKLEN=30 MODES=4 :are supported")).nickMaxLength = 30 ∧
      lit "MAXNICKLEN=30" ∈ isupportTokens (lit "MAXNICKLEN=30 MODES=4 :are supported") ∧
      firstValue (lit "NICKLEN") (lit "MAXNICKLEN=30 MODES=4 :are supported") = none := by
  refine ⟨fun h => ?_, by decide, by decide, by decide⟩
  have hnickMaxLength := congrArg IrcServerIsupport.nickMaxLength h
  revert hnickMaxLength
  decide

/-! ## Values -/

theorem tokenValue_some {token value : Str} (h : tokenValue name token = some value) :
    token = name ++ ch '=' :: value := by
  rw [tokenValue] at h
  split at h
  · rename_i hpre
    obtain ⟨rest, rfl⟩ := List.isPrefixOf_iff_prefix.mp hpre
    have hlength : name.length + 1 = (name ++ lit "=").length := by rw [List.length_append]; rfl
    rw [hlength, List.drop_left] at h
    cases h
    rw [List.append_assoc]
    rfl
  · cases h

theorem tokenValue_eq_none {token : Str} :
    tokenValue name token = none ↔ (name ++ lit "=").isPrefixOf token = false := by
  rw [tokenValue]
  split
  · rename_i h
    rw [h]
    exact iff_of_false (Option.some_ne_none _) Bool.noConfusion
  · rename_i h
    exact iff_of_true rfl (eq_false_of_ne_true h)

theorem tokenValue_nil (name : Str) : tokenValue name [] = none := by
  rw [tokenValue_eq_none]
  cases name <;> rfl

/-- Where the first value is, if there is one. -/
inductive ValuePiece (name : Str) : (pos first followed : Option Str) → Prop
  | absent : ValuePiece name none none none
  | last (value : Str) (hvalue : ch ' ' ∉ value) :
    ValuePiece name (some (ch ' ' :: (name ++ ch '=' :: value))) (some value) none
  | followed (value t : Str) (hvalue : ch ' ' ∉ value) :
    ValuePiece name (some (ch ' ' :: (name ++ ch '=' :: (value ++ ch ' ' :: t)))) (some value) (some value)

/-- The key is found at the first piece that has a value. -/
theorem valuePiece (hname : ch ' ' ∉ name) (s : Str) :
    ValuePiece name (strstr (ch ' ' :: s) (ch ' ' :: (name ++ lit "=")))
      ((s.splitOnP (fun c : Byte => decide (c = ch ' '))).findSome? (tokenValue name))
      ((lines (fun c : Byte => decide (c = ch ' ')) s).findSome? (tokenValue name)) := by
  have hkey : ch ' ' ∉ name ++ lit "=" := fun hmem => (List.mem_append.mp hmem).elim hname (by decide)
  induction hn : s.length using Nat.strong_induction_on generalizing s with
  | _ n ih =>
    rcases space_cases s with hs | ⟨u, t, rfl, hu⟩
    · rw [lines_of_forall fun c hc => isSpace_eq_false.mpr fun heq => hs (heq ▸ hc), pieces_of_notMem hs,
        List.findSome?_singleton, List.findSome?_nil]
      have hfind := strstr_piece hs hkey (.inl rfl)
      rw [List.append_nil, strstr_nil_cons] at hfind
      rw [hfind]
      cases hvalue : tokenValue name s with
      | none =>
        rw [tokenValue_eq_none.mp hvalue]
        exact .absent
      | some value =>
        rw [if_pos (by rw [← Bool.not_eq_false, ← tokenValue_eq_none, hvalue]; exact Option.some_ne_none _),
          tokenValue_some hvalue]
        refine .last value fun hmem => hs ?_
        rw [tokenValue_some hvalue]
        exact List.mem_append_right _ (List.mem_cons_of_mem _ hmem)
    · rw [lines_append_cons u t (decide_eq_true rfl), pieces_append, List.findSome?_append, List.findSome?_append,
        pieces_of_notMem hu, List.findSome?_singleton, strstr_piece hu hkey (.inr ⟨t, rfl⟩)]
      cases hvalue : tokenValue name u with
      | none =>
        rw [tokenValue_eq_none.mp hvalue, if_neg Bool.false_ne_true, Option.none_or, Option.none_or]
        have hlt : t.length < n := by
          rw [List.length_append, List.length_cons] at hn
          omega
        exact ih t.length hlt t rfl
      | some value =>
        rw [if_pos (by rw [← Bool.not_eq_false, ← tokenValue_eq_none, hvalue]; exact Option.some_ne_none _),
          tokenValue_some hvalue, List.append_assoc, List.cons_append]
        refine .followed value t fun hmem => hu ?_
        rw [tokenValue_some hvalue]
        exact List.mem_append_right _ (List.mem_cons_of_mem _ hmem)

/-! ## Names without value -/

/-- A name is between two spaces. -/
theorem isPrefixOf_name (hname : ch ' ' ∉ name) (hu : ch ' ' ∉ u) (t : Str) :
    (name ++ lit " ").isPrefixOf (u ++ ch ' ' :: t) = decide (name = u) := by
  induction name generalizing u with
  | nil =>
    cases u with
    | nil => rfl
    | cons a u =>
      rw [List.mem_cons, not_or] at hu
      have ha : (ch ' ' == a) = false := beq_false_of_ne hu.1
      show (ch ' ' == a && _) = decide _
      rw [ha, Bool.false_and, decide_eq_false (List.cons_ne_nil a u).symm]
  | cons b name ih =>
    rw [List.mem_cons, not_or] at hname
    cases u with
    | nil =>
      have hb : (b == ch ' ') = false := beq_false_of_ne (Ne.symm hname.1)
      show (b == ch ' ' && _) = decide _
      rw [hb, Bool.false_and, decide_eq_false (List.cons_ne_nil b name)]
    | cons a u =>
      rw [List.mem_cons, not_or] at hu
      rw [List.cons_append, List.cons_append, List.isPrefixOf, ih hname.2 hu.2, Bool.eq_iff_iff, Bool.and_eq_true,
        beq_iff_eq, decide_eq_true_eq, decide_eq_true_eq, List.cons.injEq]

/-- There is only one space in a text that has only its first one. -/
theorem isPrefixOf_name_of_notMem (hs : ch ' ' ∉ s) (name : Str) : (name ++ lit " ").isPrefixOf s = false := by
  refine eq_false_of_ne_true fun h => hs ?_
  obtain ⟨rest, rfl⟩ := List.isPrefixOf_iff_prefix.mp h
  exact List.mem_append_left _ (List.mem_append_right _ (List.mem_singleton_self _))

/-- The name is found if a space is after a piece that is this name. -/
theorem nameFollowed_iff (hname : ch ' ' ∉ name) (s : Str) :
    strstr (ch ' ' :: s) (ch ' ' :: (name ++ lit " ")) ≠ none ↔
      name ∈ lines (fun c : Byte => decide (c = ch ' ')) s := by
  induction hn : s.length using Nat.strong_induction_on generalizing s with
  | _ n ih =>
    rcases space_cases s with hs | ⟨u, t, rfl, hu⟩
    · have hfind := strstr_notMem hs (w := name ++ lit " ") []
      rw [List.append_nil, strstr_nil_cons] at hfind
      rw [lines_of_forall fun c hc => isSpace_eq_false.mpr fun heq => hs (heq ▸ hc), strstr, List.isPrefixOf,
        beq_self_eq_true, Bool.true_and, isPrefixOf_name_of_notMem hs, if_neg Bool.false_ne_true, hfind]
      exact iff_of_false (fun h => h rfl) List.not_mem_nil
    · have hlt : t.length < n := by
        rw [List.length_append, List.length_cons] at hn
        omega
      rw [lines_append_cons u t (decide_eq_true rfl), pieces_of_notMem hu, List.singleton_append, List.mem_cons,
        ← ih t.length hlt t rfl, strstr, List.isPrefixOf, beq_self_eq_true, Bool.true_and, isPrefixOf_name hname hu,
        strstr_notMem hu]
      by_cases heq : name = u
      · rw [decide_eq_true heq, if_pos rfl]
        exact iff_of_true (Option.some_ne_none _) (.inl heq)
      · rw [decide_eq_false heq, if_neg Bool.false_ne_true]
        exact (or_iff_right heq).symm

/-! ## The value is copied -/

section

variable {value : Str} (hname : ch '=' ∉ name) (hspace : ch ' ' ∉ name) (hvalue : ch ' ' ∉ value)
include hname hspace hvalue

/-- What is before a space is copied. -/
theorem copyValue_followed (t : Str) :
    isupportCopyValue (name ++ ch '=' :: (value ++ ch ' ' :: t)) = some (value.take 255) := by
  have hequal : strchr (name ++ ch '=' :: (value ++ ch ' ' :: t)) (ch '=') = some (ch '=' :: (value ++ ch ' ' :: t)) := by
    rw [strchr_append hname, strchr, if_pos rfl]
  have htoken : ch ' ' ∉ name ++ ch '=' :: value := by
    rw [List.mem_append, List.mem_cons, not_or, not_or]
    exact ⟨hspace, by decide, hvalue⟩
  have hsplit : name ++ ch '=' :: (value ++ ch ' ' :: t) = name ++ ch '=' :: value ++ ch ' ' :: t := by
    rw [List.append_assoc, List.cons_append]
  have hpos : strchr (name ++ ch '=' :: (value ++ ch ' ' :: t)) (ch ' ') = some (ch ' ' :: t) := by
    rw [hsplit, strchr_append htoken, strchr, if_pos rfl]
  have hlength : off (name ++ ch '=' :: (value ++ ch ' ' :: t)) (ch ' ' :: t) -
      off (name ++ ch '=' :: (value ++ ch ' ' :: t)) (ch '=' :: (value ++ ch ' ' :: t)) - 1 = value.length := by
    rw [off_append, hsplit, off_append, List.length_append, List.length_cons]
    omega
  rw [isupportCopyValue, hequal, hpos]
  simp only [Option.bind_eq_bind, Option.bind_some, hlength, List.tail_cons]
  by_cases hlong : value.length > 255
  · simp only [if_pos hlong]
    rw [if_pos (by rw [List.length_append]; omega), List.take_append_of_le_length (Nat.le_of_lt hlong)]
  · simp only [if_neg hlong]
    rw [if_pos (by rw [List.length_append]; omega), List.take_left, List.take_of_length_le (Nat.le_of_not_lt hlong)]

/-- Without a space, one byte after the final `\0` is copied too, if the buffer is large enough. -/
theorem copyValue_last :
    isupportCopyValue (name ++ ch '=' :: value) = if 254 ≤ value.length then some (value.take 255) else none := by
  have hequal : strchr (name ++ ch '=' :: value) (ch '=') = some (ch '=' :: value) := by
    rw [strchr_append hname, strchr, if_pos rfl]
  have htoken : ch ' ' ∉ name ++ ch '=' :: value := by
    rw [List.mem_append, List.mem_cons, not_or, not_or]
    exact ⟨hspace, by decide, hvalue⟩
  rw [isupportCopyValue, hequal, strchr_none.mpr htoken]
  simp only [Option.bind_eq_bind, Option.bind_some, List.length_cons, List.tail_cons]
  by_cases hlong : 254 ≤ value.length
  · simp only [if_pos hlong, if_pos (show value.length + 1 + 1 > 255 by omega)]
    rw [if_pos (by omega)]
  · simp only [if_neg hlong, if_neg (show ¬value.length + 1 + 1 > 255 by omega)]
    rw [if_neg (by omega)]

end

/-! ## The lookup -/

theorem isupportAfter_begins (texts : List Str) (hne : texts ≠ []) :
    ∃ s, isupportAfter texts = some (ch ' ' :: s) := by
  induction texts using List.reverseRecOn with
  | nil => exact absurd rfl hne
  | append_singleton texts text ih =>
    rw [isupportAfter, List.foldl_append, List.foldl_cons, List.foldl_nil, ← isupportAfter, isupportConcat]
    rcases eq_or_ne texts [] with rfl | h
    · exact ⟨_, rfl⟩
    · obtain ⟨s, hs⟩ := ih h
      rw [hs]
      exact ⟨_, rfl⟩

/-- What is searched is the name between a space and `=`. -/
theorem featureKey (hlength : name.length ≤ 60) :
    snprintf 64 (lit " " ++ name ++ lit "=") = ch ' ' :: (name ++ lit "=") := by
  refine List.take_of_length_le ?_
  rw [List.length_append, List.length_append]
  show 1 + name.length + 1 ≤ 63
  omega

/-- Looking up a feature in a text that begins with a space. -/
theorem getIsupportValue_iff (hlength : name.length ≤ 60) (hname : ch '=' ∉ name) (hspace : ch ' ' ∉ name)
    (s : Str) :
    ircServerGetIsupportValue (some (ch ' ' :: s)) name = some (isupportLookup (some (ch ' ' :: s)) name) ↔
      IsupportFollowed (some (ch ' ' :: s)) name := by
  have hfirst : firstValue name (ch ' ' :: s) =
      (s.splitOnP (fun c : Byte => decide (c = ch ' '))).findSome? (tokenValue name) := by
    rw [firstValue, isupportTokens, runs_cons_sep s (decide_eq_true rfl), ← isupportTokens,
      findSome_tokens _ (tokenValue_nil name)]
  have hiff : IsupportFollowed (some (ch ' ' :: s)) name ↔
      (∀ value, firstValue name (ch ' ' :: s) = some value →
        (lines (fun c : Byte => decide (c = ch ' ')) s).findSome? (tokenValue name) = some value ∨ 254 ≤ value.length) ∧
      (firstValue name (ch ' ' :: s) = none →
        (name ∈ isupportTokens (ch ' ' :: s) ↔ name ∈ lines (fun c : Byte => decide (c = ch ' ')) s)) :=
    ⟨fun h => h _ rfl, fun h text htext => by cases htext; exact h⟩
  rw [hiff, ircServerGetIsupportValue, isupportLookup, Option.bind_some, featureKey hlength]
  have hdrop : (ch ' ' :: (name ++ lit "=")).dropLast ++ lit " " = ch ' ' :: (name ++ lit " ") := by
    show ((ch ' ' :: name) ++ [ch '=']).dropLast ++ lit " " = _
    rw [List.dropLast_concat, List.cons_append]
  have hpiece := valuePiece hspace s
  rw [← hfirst] at hpiece
  generalize strstr (ch ' ' :: s) (ch ' ' :: (name ++ lit "=")) = pos at *
  generalize firstValue name (ch ' ' :: s) = first at *
  generalize (lines (fun c : Byte => decide (c = ch ' ')) s).findSome? (tokenValue name) = followed at *
  cases hpiece with
  | absent =>
    have hnone : ∀ P : Str → Prop, (∀ value, none = some value → P value) ↔ True :=
      fun P => iff_of_true (fun value h => absurd h.symm (Option.some_ne_none value)) trivial
    simp only [hdrop, hnone, true_and, forall_const]
    rw [← nameFollowed_iff hspace s]
    cases strstr (ch ' ' :: s) (ch ' ' :: (name ++ lit " ")) with
    | none => by_cases hmem : name ∈ isupportTokens (ch ' ' :: s) <;> simp [hmem]
    | some pos => by_cases hmem : name ∈ isupportTokens (ch ' ' :: s) <;> simp [hmem]
  | last value hvalue =>
    simp only [List.tail_cons, copyValue_last hname hspace hvalue]
    by_cases hlong : 254 ≤ value.length <;> simp [hlong]
  | followed value t hvalue =>
    simp only [List.tail_cons, copyValue_followed hname hspace hvalue]
    simp

/-- A feature is looked up as its tokens say if and only if what is found is followed. -/
theorem isupport_value_iff (texts : List Str) (feature : Str) (hlength : feature.length ≤ 60)
    (hequal : ch '=' ∉ feature) (hspace : ch ' ' ∉ feature) :
    ircServerGetIsupportValue (isupportAfter texts) feature = some (isupportLookup (isupportAfter texts) feature) ↔
      IsupportFollowed (isupportAfter texts) feature := by
  rcases eq_or_ne texts [] with rfl | hne
  · exact iff_of_true rfl fun text htext => absurd htext (by exact Option.some_ne_none text ∘ Eq.symm)
  · obtain ⟨s, hs⟩ := isupportAfter_begins texts hne
    rw [hs]
    exact getIsupportValue_iff hlength hequal hspace s

theorem isupport_value_iff_modes :
    (lit "MODES").length ≤ 60 ∧ ch '=' ∉ lit "MODES" ∧ ch ' ' ∉ lit "MODES" ∧
      (ircServerGetIsupportValue (isupportAfter [lit "CHANTYPES=# MODES=4 WHOX :are supported"]) (lit "MODES") =
          some (isupportLookup (isupportAfter [lit "CHANTYPES=# MODES=4 WHOX :are supported"]) (lit "MODES")) ↔
        IsupportFollowed (isupportAfter [lit "CHANTYPES=# MODES=4 WHOX :are supported"]) (lit "MODES")) :=
  ⟨by decide, by decide, by decide,
    isupport_value_iff [lit "CHANTYPES=# MODES=4 WHOX :are supported"] (lit "MODES") (by decide) (by decide)
      (by decide)⟩

/-- The last token has no space after it: its name is not seen, and its value is read too far. -/
theorem isupport_value_fails :
    ircServerGetIsupportValue (isupportAfter [lit "MODES=4 WHOX :are supported"]) (lit "WHOX") = some none ∧
      isupportLookup (isupportAfter [lit "MODES=4 WHOX :are supported"]) (lit "WHOX") = some [] ∧
      ircServerGetIsupportValue (isupportAfter [lit "WHOX MODES=4 :are supported"]) (lit "MODES") = none ∧
      isupportLookup (isupportAfter [lit "WHOX MODES=4 :are supported"]) (lit "MODES") = some (lit "4") := by
  decide

end Wirc
