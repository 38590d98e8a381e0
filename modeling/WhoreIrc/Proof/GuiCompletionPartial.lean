import WhoreIrc.Proof.StringChars
import WhoreIrc.Spec.GuiCompletionPartial

/-!
# Partial completion: the common beginning and the items

The loop over the characters of the first word finds the longest common beginning
(`commonPrefixLoop_eq`, by induction on the characters that remain). Each round of
the other loop takes the words of one character out of the list and adds their item
(`Listed.round`), so at the end there is an item for each (`partialLoop_listed`).
-/

namespace Wirc

open Framework

/-! ## The common beginning -/

section

variable {first : Str} {others : List Str}

/-- The bytes of the first characters. -/
def charsSize (word : Str) (k : Nat) : Nat := ((lowerChars word).take k).flatten.length

/-- The test of another word, when the first `k` characters are the same. -/
theorem commonTest_iff {c : Str} {r other : Str} {k : Nat} (hc : IsValidChar c) (hr : utf8IsValid r = none)
    (hfirst : utf8IsValid first = none) (hdrop : first.drop (charsSize first k) = c ++ r)
    (hother : utf8IsValid other = none) (hsame : (lowerChars other).take k = (lowerChars first).take k) :
    (other.drop (charsSize first k) = [] || utf8Charcasecmp (first.drop (charsSize first k))
      (other.drop (charsSize first k)) ≠ 0) = false ↔
      ((lowerChars other).drop k).head? = some (c.map lowerByte) := by
  have hsize : charsSize first k = charsSize other k := by rw [charsSize, charsSize, hsame]
  obtain ⟨hvalid, hlower⟩ := lowerChars_drop hother k
  have hcr : utf8IsValid (c ++ r) = none := hdrop ▸ (lowerChars_drop hfirst k).1
  have hcrlower : (lowerChars (c ++ r)).head? = some (c.map lowerByte) := by
    rw [lowerChars_char hc hr]
    rfl
  rw [hdrop, hsize, ← hlower]
  rw [← charsSize] at hvalid ⊢
  rw [Bool.or_eq_false_iff, decide_eq_false_iff_not, decide_eq_false_iff_not, Decidable.not_not,
    charcasecmp_zero_iff hcr hvalid, hcrlower]
  constructor
  · exact fun h => h.2.symm
  · intro h
    refine ⟨fun hnil => ?_, h.symm⟩
    rw [hnil, lowerChars_nil] at h
    cases h

/-- The loop stops after the longest common beginning. -/
theorem commonPrefixLoop_eq (hfirst : utf8IsValid first = none) (hothers : ∀ other ∈ others, utf8IsValid other = none)
    (k : Nat) (hsame : ∀ other ∈ others, (lowerChars other).take k = (lowerChars first).take k) :
    guiCompletionCommonPrefixLoop first others (charsSize first k) =
      charsSize first (k + commonLength ((lowerChars first).drop k) (others.map fun other => (lowerChars other).drop k)) := by
  induction hn : ((lowerChars first).drop k).length generalizing k with
  | zero =>
    obtain ⟨hvalid, hlower⟩ := lowerChars_drop hfirst k
    have hnil := List.length_eq_zero_iff.mp hn
    rw [← charsSize] at hvalid hlower
    rw [hnil] at hlower
    have hdrop : first.drop (charsSize first k) = [] := by
      rcases valid_cases hvalid with ⟨hdrop, -⟩ | ⟨c, r, -, -, -, hcons⟩
      · exact hdrop
      · rw [hlower] at hcons
        cases hcons
    rw [guiCompletionCommonPrefixLoop, dif_pos hdrop, hnil, commonLength, Nat.add_zero]
  | succ n ih =>
    obtain ⟨hvalid, hlower⟩ := lowerChars_drop hfirst k
    rw [← charsSize] at hvalid hlower
    rcases valid_cases hvalid with ⟨-, hnil⟩ | ⟨c, r, hc, hr, hdrop, hcons⟩
    · rw [hlower] at hnil
      rw [hnil] at hn
      cases hn
    have hne : first.drop (charsSize first k) ≠ [] := by
      rw [hdrop]
      exact List.append_ne_nil_of_left_ne_nil hc.ne_nil r
    rw [hlower] at hcons
    -- the next character of the first word, and those of the others
    have htest := fun other (hother : other ∈ others) =>
      commonTest_iff hc hr hfirst hdrop (hothers other hother) (hsame other hother)
    rw [guiCompletionCommonPrefixLoop, dif_neg hne, hcons, commonLength]
    by_cases hall : ∀ other ∈ others, ((lowerChars other).drop k).head? = some (c.map lowerByte)
    · have hany : (others.any fun word => word.drop (charsSize first k) = [] ||
          utf8Charcasecmp (first.drop (charsSize first k)) (word.drop (charsSize first k)) ≠ 0) = false :=
        List.any_eq_false.mpr fun other hother =>
          Bool.eq_false_iff.mp ((htest other hother).mpr (hall other hother))
      have hheads : ((others.map fun other => (lowerChars other).drop k).all
          fun other => other.head? = some (c.map lowerByte)) = true := by
        rw [List.all_map, List.all_eq_true]
        exact fun other hother => decide_eq_true (hall other hother)
      rw [hany, hheads, if_neg Bool.false_ne_true, if_pos rfl]
      have hget : (lowerChars first)[k]? = some (c.map lowerByte) := by
        rw [← List.head?_drop, hcons, List.head?_cons]
      have hsize : charsSize first k + utf8CharSize (first.drop (charsSize first k)) = charsSize first (k + 1) := by
        rw [hdrop, hc.charSize, charsSize, charsSize, List.take_add_one, hget, List.flatten_append, List.length_append]
        simp
      have hnext : ∀ other ∈ others, (lowerChars other).take (k + 1) = (lowerChars first).take (k + 1) := by
        intro other hother
        have hother' := hall other hother
        rw [List.head?_drop] at hother'
        rw [List.take_add_one, List.take_add_one, hsame other hother, hget, hother']
      have htail : ((others.map fun other => (lowerChars other).drop k).map List.tail) =
          others.map fun other => (lowerChars other).drop (k + 1) := by
        rw [List.map_map]
        exact List.map_congr_left fun other _ => List.tail_drop ..
      have hrest : lowerChars r = (lowerChars first).drop (k + 1) := by
        rw [← List.tail_drop, hcons, List.tail_cons]
      rw [hsize, ih (k + 1) hnext, htail, hrest]
      · congr 1
        omega
      · rw [← hrest]
        rw [hcons, List.length_cons] at hn
        omega
    · rw [not_forall] at hall
      obtain ⟨other, hdiff⟩ := hall
      rw [Classical.not_imp] at hdiff
      obtain ⟨hother, hdiff⟩ := hdiff
      have hany : (others.any fun word => word.drop (charsSize first k) = [] ||
          utf8Charcasecmp (first.drop (charsSize first k)) (word.drop (charsSize first k)) ≠ 0) = true :=
        List.any_eq_true.mpr ⟨other, hother, by
          by_contra hfalse
          exact hdiff ((htest other hother).mp (Bool.eq_false_iff.mpr hfalse))⟩
      have hheads : ¬ ((others.map fun other => (lowerChars other).drop k).all
          fun other => other.head? = some (c.map lowerByte)) = true := by
        rw [List.all_map, List.all_eq_true]
        exact fun h => hdiff (of_decide_eq_true (h other hother))
      rw [hany, if_pos rfl, if_neg hheads, Nat.add_zero]

end

/-- The common prefix size, for the words that begin with a character or for all. -/
theorem commonPrefixSize_eq {first : GuiCompletionWord} {rest : List GuiCompletionWord} (char : Option Str)
    (hfirst : utf8IsValid first.word = none) (hrest : ∀ word ∈ rest, utf8IsValid word.word = none) :
    guiCompletionCommonPrefixSize (first :: rest) char = charsSize first.word (commonLength (lowerChars first.word)
      (((rest.map GuiCompletionWord.word).filter fun word => char.all fun char => utf8Charcasecmp char word = 0).map
        lowerChars)) := by
  have hothers : ∀ other ∈ ((rest.map GuiCompletionWord.word).filter fun word =>
      char.all fun char => utf8Charcasecmp char word = 0), utf8IsValid other = none := by
    intro other hother
    obtain ⟨word, hword, rfl⟩ := List.mem_map.mp (List.mem_of_mem_filter hother)
    exact hrest word hword
  have hloop := commonPrefixLoop_eq hfirst hothers 0 fun _ _ => by rw [List.take_zero, List.take_zero]
  rw [charsSize, List.take_zero, List.flatten_nil, List.length_nil, Nat.zero_add, List.drop_zero] at hloop
  simp only [List.drop_zero] at hloop
  exact hloop

/-! ## The items -/

theorem PartialItems.perm {rests rests' : List (List Str)} {items : List GuiCompletionWord}
    (h : PartialItems rests items) (hperm : rests.Perm rests') : PartialItems rests' items := by
  refine ⟨fun item hitem => ?_, fun rest hrest => h.one rest (hperm.mem_iff.mpr hrest)⟩
  obtain ⟨char, hhead, hcommon, hcount⟩ := h.item item hitem
  have hfilter := hperm.filter fun rest => rest.head? = some char
  exact ⟨char, hhead, hcommon.congr fun l => hfilter.mem_iff, hfilter.length_eq ▸ hcount⟩

/-- The character of an item begins one of the words. -/
theorem PartialItems.exists_rest {rests : List (List Str)} {items : List GuiCompletionWord}
    (h : PartialItems rests items) {item : GuiCompletionWord} (hitem : item ∈ items) :
    ∃ rest ∈ rests, ∃ char, (lowerChars item.word).head? = some char ∧ rest.head? = some char := by
  obtain ⟨char, hhead, hcommon, -⟩ := h.item item hitem
  obtain ⟨rest, hrest⟩ := List.exists_mem_of_ne_nil _ (hcommon.ne_nil [])
  exact ⟨rest, List.mem_of_mem_filter hrest, char, hhead, of_decide_eq_true (List.mem_filter.mp hrest).2⟩

/-- The words that were taken out of the list have their items, and begin with other
characters than those that are left. -/
structure Listed (taken : List (List Str)) (listTemp items : List GuiCompletionWord) : Prop where
  partialItems : PartialItems taken items
  valid : ∀ item ∈ items, utf8IsValid item.word = none
  listValid : ∀ word ∈ listTemp, utf8IsValid word.word = none
  apart : ∀ rest ∈ taken, ∀ word ∈ listTemp, ∀ char, rest.head? = some char →
    (lowerChars word.word).head? ≠ some char

section

variable {first : GuiCompletionWord} {rest listTemp items : List GuiCompletionWord} {taken : List (List Str)}

theorem charcasecmp_utfChar_iff {s t : Str} (hs : utf8IsValid s = none) (ht : utf8IsValid t = none) :
    utf8Charcasecmp (utfChar s) t = 0 ↔ (lowerChars t).head? = (lowerChars s).head? := by
  have hsame : utf8Charcasecmp (utfChar s) t = utf8Charcasecmp s t := by
    rw [utf8Charcasecmp, utf8Charcasecmp, utf8WideChar_utfChar]
  rw [hsame, charcasecmp_zero_iff hs ht]
  exact eq_comm

/-- The words that begin with the character of the first one. -/
def sameHead (first : GuiCompletionWord) (list : List GuiCompletionWord) : List GuiCompletionWord :=
  list.filter fun word => (lowerChars word.word).head? = (lowerChars first.word).head?

theorem otherChar_eq (hfirst : utf8IsValid first.word = none) (hlist : ∀ word ∈ listTemp, utf8IsValid word.word = none) :
    guiCompletionOtherChar listTemp (utfChar first.word) =
      listTemp.filter fun word => !decide ((lowerChars word.word).head? = (lowerChars first.word).head?) := by
  refine List.filter_congr fun word hword => ?_
  rw [← decide_not]
  exact decide_eq_decide.mpr (not_congr (charcasecmp_utfChar_iff hfirst (hlist word hword)))

theorem sameHead_perm (hfirst : utf8IsValid first.word = none)
    (hlist : ∀ word ∈ listTemp, utf8IsValid word.word = none) :
    (sameHead first listTemp ++ guiCompletionOtherChar listTemp (utfChar first.word)).Perm listTemp := by
  rw [otherChar_eq hfirst hlist]
  exact List.filter_append_perm _ _

/-- After the words of a character are taken out with their items, as before. -/
theorem Listed.step {items' : List GuiCompletionWord} (h : Listed taken (first :: rest) items)
    (hitems : PartialItems (taken ++ (sameHead first (first :: rest)).map fun word => lowerChars word.word) items')
    (hvalid : ∀ item ∈ items', utf8IsValid item.word = none) :
    Listed (taken ++ (sameHead first (first :: rest)).map fun word => lowerChars word.word)
      (guiCompletionOtherChar (first :: rest) (utfChar first.word)) items' := by
  have hfirst := h.listValid first List.mem_cons_self
  rw [otherChar_eq hfirst h.listValid]
  refine ⟨hitems, hvalid, fun word hword => h.listValid word (List.mem_of_mem_filter hword), ?_⟩
  intro rest' hrest' word hword char hchar
  obtain ⟨hmem, hother⟩ := List.mem_filter.mp hword
  rcases List.mem_append.mp hrest' with htaken | hsame
  · exact h.apart rest' htaken word hmem char hchar
  · obtain ⟨word', hword', rfl⟩ := List.mem_map.mp hsame
    have hhead := of_decide_eq_true (List.mem_filter.mp hword').2
    rw [Bool.not_eq_true', decide_eq_false_iff_not] at hother
    exact fun heq => hother (heq.trans (hchar.symm.trans hhead))

/-- A word that ends is taken out without an item. -/
theorem Listed.empty (h : Listed taken (first :: rest) items) (hempty : lowerChars first.word = []) :
    PartialItems (taken ++ (sameHead first (first :: rest)).map fun word => lowerChars word.word) items := by
  have hnone : ∀ chars ∈ (sameHead first (first :: rest)).map fun word => lowerChars word.word, chars.head? = none := by
    intro chars hchars
    obtain ⟨word, hword, rfl⟩ := List.mem_map.mp hchars
    have hhead := of_decide_eq_true (List.mem_filter.mp hword).2
    rwa [hempty] at hhead
  refine ⟨fun item hitem => ?_, fun chars hchars char hchar => ?_⟩
  · obtain ⟨char, hhead, hcommon, hcount⟩ := h.partialItems.item item hitem
    have hfilter : ((sameHead first (first :: rest)).map fun word => lowerChars word.word).filter
        (fun rest => rest.head? = some char) = [] := by
      refine List.filter_eq_nil_iff.mpr fun chars hchars => ?_
      rw [hnone chars hchars]
      simp
    refine ⟨char, hhead, ?_⟩
    rw [List.filter_append, hfilter, List.append_nil]
    exact ⟨hcommon, hcount⟩
  · rcases List.mem_append.mp hchars with htaken | hsame
    · exact h.partialItems.one chars htaken char hchar
    · rw [hnone chars hsame] at hchar
      cases hchar

/-- The item of a character is new in the list. -/
theorem Listed.partialListAdd {char : Str} {word : Str} (h : Listed taken (first :: rest) items)
    (hchar : (lowerChars first.word).head? = some char) (hword : utf8IsValid word = none)
    (hhead : (lowerChars word).head? = some char) (count : Int) :
    guiCompletionPartialListAdd items word count = items ++ [⟨word, false, count⟩] := by
  have hkeep : items.filter (fun other => stringStrcasecmp other.word word ≠ 0) = items := by
    refine List.filter_eq_self.mpr fun item hitem => decide_eq_true fun hsame => ?_
    obtain ⟨taken', htaken, char', hitemHead, htakenHead⟩ := h.partialItems.exists_rest hitem
    rw [lowerChars_of_strcasecmp (h.valid item hitem) hword hsame, hhead] at hitemHead
    rw [← Option.some.inj hitemHead] at htakenHead
    exact h.apart taken' htaken first List.mem_cons_self char htakenHead hchar
  rw [guiCompletionPartialListAdd, guiCompletionArraylistAdd, hkeep]
  rfl

/-- The words of a character are taken out with an item. -/
theorem Listed.add {char : Str} {item : GuiCompletionWord} (h : Listed taken (first :: rest) items)
    (hchar : (lowerChars first.word).head? = some char) (hhead : (lowerChars item.word).head? = some char)
    (hcommon : LongestCommon (lowerChars item.word)
      ((sameHead first (first :: rest)).map fun word => lowerChars word.word))
    (hcount : item.count = ((sameHead first (first :: rest)).length : Int)) :
    PartialItems (taken ++ (sameHead first (first :: rest)).map fun word => lowerChars word.word) (items ++ [item]) := by
  have htaken : ∀ chars ∈ taken, chars.head? ≠ some char := fun chars hchars heq =>
    h.apart chars hchars first List.mem_cons_self char heq hchar
  have hgroup : ∀ chars ∈ (sameHead first (first :: rest)).map fun word => lowerChars word.word,
      chars.head? = some char := by
    intro chars hchars
    obtain ⟨word, hword, rfl⟩ := List.mem_map.mp hchars
    exact (of_decide_eq_true (List.mem_filter.mp hword).2).trans hchar
  refine ⟨fun item' hitem' => ?_, fun chars hchars char' hchar' => ?_⟩
  · rcases List.mem_append.mp hitem' with hold | hnew
    · obtain ⟨char', hhead', hcommon', hcount'⟩ := h.partialItems.item item' hold
      obtain ⟨rest', hrest', char'', hitemHead, hrestHead⟩ := h.partialItems.exists_rest hold
      have hne : char' ≠ char := by
        rw [hhead', Option.some.injEq] at hitemHead
        rintro rfl
        exact htaken rest' hrest' (hrestHead.trans (congrArg some hitemHead.symm))
      have hfilter : ((sameHead first (first :: rest)).map fun word => lowerChars word.word).filter
          (fun rest => rest.head? = some char') = [] := by
        refine List.filter_eq_nil_iff.mpr fun chars hchars => ?_
        rw [hgroup chars hchars, decide_eq_true_eq, Option.some.injEq]
        exact Ne.symm hne
      refine ⟨char', hhead', ?_⟩
      rw [List.filter_append, hfilter, List.append_nil]
      exact ⟨hcommon', hcount'⟩
    · rw [List.mem_singleton.mp hnew]
      have hnone : taken.filter (fun rest => rest.head? = some char) = [] :=
        List.filter_eq_nil_iff.mpr fun chars hchars htrue => htaken chars hchars (of_decide_eq_true htrue)
      have hall : ((sameHead first (first :: rest)).map fun word => lowerChars word.word).filter
          (fun rest => rest.head? = some char) = (sameHead first (first :: rest)).map fun word => lowerChars word.word :=
        List.filter_eq_self.mpr fun chars hchars => decide_eq_true (hgroup chars hchars)
      refine ⟨char, hhead, ?_⟩
      rw [List.filter_append, hnone, List.nil_append, hall, List.length_map]
      exact ⟨hcommon, hcount⟩
  · rw [List.filter_append, List.length_append]
    rcases List.mem_append.mp hchars with hold | hnew
    · have hne : ¬ (lowerChars item.word).head? = some char' := by
        rw [hhead, Option.some.injEq]
        rintro rfl
        exact htaken chars hold hchar'
      rw [h.partialItems.one chars hold char' hchar', List.filter_cons, if_neg (by simpa using hne)]
      rfl
    · have hsame : char = char' := Option.some.inj ((hgroup chars hnew).symm.trans hchar')
      have hnone : items.filter (fun item => (lowerChars item.word).head? = some char') = [] := by
        refine List.filter_eq_nil_iff.mpr fun item' hitem' htrue => ?_
        obtain ⟨rest', hrest', char'', hitemHead, hrestHead⟩ := h.partialItems.exists_rest hitem'
        rw [of_decide_eq_true htrue, Option.some.injEq] at hitemHead
        exact htaken rest' hrest' (hrestHead.trans (congrArg some (hitemHead.symm.trans hsame.symm)))
      rw [hnone, List.filter_cons, if_pos (by simpa using hhead.trans (congrArg some hsame))]
      rfl

/-- The words that the common prefix size is found from, for the character of the first word. -/
theorem sameHead_eq (hlist : ∀ word ∈ first :: rest, utf8IsValid word.word = none) :
    (sameHead first (first :: rest)).map (fun word => lowerChars word.word) = lowerChars first.word ::
      (((rest.map GuiCompletionWord.word).filter fun word =>
        (some (utfChar first.word)).all fun char => utf8Charcasecmp char word = 0).map lowerChars) := by
  have hfirst := hlist first List.mem_cons_self
  rw [sameHead, List.filter_cons, if_pos (decide_eq_true rfl), List.map_cons, List.filter_map, List.map_map]
  congr 1
  refine congrArg (List.map _) (List.filter_congr fun word hword => ?_)
  exact decide_eq_decide.mpr (charcasecmp_utfChar_iff hfirst (hlist word (List.mem_cons_of_mem _ hword))).symm

/-- A round of the loop, where the numbers are shown. -/
theorem Listed.round {config : GuiCompletionConfig} (hconfig : config.partialCompletionCount = true)
    (h : Listed taken (first :: rest) items) :
    Listed (taken ++ (sameHead first (first :: rest)).map fun word => lowerChars word.word)
      (guiCompletionOtherChar (first :: rest) (utfChar first.word))
      (if guiCompletionCommonPrefixSize (first :: rest) (some (utfChar first.word)) > 0 then
        guiCompletionPartialListAdd items
          (strndup first.word (guiCompletionCommonPrefixSize (first :: rest) (some (utfChar first.word))))
          (if config.partialCompletionCount then
            (((first :: rest).length - (guiCompletionOtherChar (first :: rest) (utfChar first.word)).length : Nat) : Int)
          else -1)
      else items) := by
  have hfirst := h.listValid first List.mem_cons_self
  have hsize := @commonPrefixSize_eq first rest (some (utfChar first.word)) hfirst
    fun word hword => h.listValid word (List.mem_cons_of_mem _ hword)
  have hsame := sameHead_eq h.listValid
  have hcommon := longestCommon_take (lowerChars first.word) (((rest.map GuiCompletionWord.word).filter fun word =>
    (some (utfChar first.word)).all fun char => utf8Charcasecmp char word = 0).map lowerChars)
  rw [← hsame] at hcommon
  rw [hsize]
  generalize commonLength (lowerChars first.word) _ = n at hcommon
  rcases valid_cases hfirst with ⟨-, hnil⟩ | ⟨c, r, hc, -, -, hcons⟩
  · rw [charsSize, hnil, List.take_nil, List.flatten_nil, List.length_nil, if_neg (Nat.lt_irrefl 0)]
    exact h.step (h.empty hnil) h.valid
  · have hhead : (lowerChars first.word).head? = some (c.map lowerByte) := by rw [hcons, List.head?_cons]
    -- the character itself is common to its words
    have hone : [c.map lowerByte] <+: (lowerChars first.word).take n := by
      refine hcommon.longest _ fun chars hchars => ?_
      obtain ⟨word, hword, rfl⟩ := List.mem_map.mp hchars
      obtain ⟨tail, htail⟩ := List.head?_eq_some_iff.mp ((of_decide_eq_true (List.mem_filter.mp hword).2).trans hhead)
      exact ⟨tail, htail.symm⟩
    obtain ⟨tail, htail⟩ := hone
    have hpos : 0 < charsSize first.word n := by
      have hlength := List.length_pos_of_ne_nil hc.ne_nil
      rw [charsSize, ← htail]
      simp only [List.flatten_append, List.flatten_cons, List.length_append, List.length_map]
      omega
    obtain ⟨hvalid, hlower⟩ := lowerChars_take hfirst n
    rw [← charsSize] at hvalid hlower
    have hwordHead : (lowerChars (first.word.take (charsSize first.word n))).head? = some (c.map lowerByte) := by
      rw [hlower, ← htail]
      rfl
    have hlength := (sameHead_perm hfirst h.listValid).length_eq
    rw [List.length_append] at hlength
    rw [if_pos hpos, if_pos hconfig, strndup, h.partialListAdd hhead hvalid hwordHead]
    refine h.step (h.add hhead hwordHead ?_ ?_) fun item hitem => ?_
    · rw [hlower]
      exact hcommon
    · exact congrArg Int.ofNat (by omega)
    · rcases List.mem_append.mp hitem with hold | hnew
      · exact h.valid item hold
      · rw [List.mem_singleton.mp hnew]
        exact hvalid

/-- At the end of the loop there is an item for each character. -/
theorem partialLoop_listed {config : GuiCompletionConfig} (hconfig : config.partialCompletionCount = true)
    (h : Listed taken listTemp items) :
    PartialItems (taken ++ listTemp.map fun word => lowerChars word.word)
      (guiCompletionPartialLoop config items listTemp) := by
  induction hlength : listTemp.length using Nat.strongRecOn generalizing listTemp taken items with | ind length ih => ?_
  cases listTemp with
  | nil =>
    rw [guiCompletionPartialLoop, List.map_nil, List.append_nil]
    exact h.partialItems
  | cons first rest =>
    rw [guiCompletionPartialLoop]
    have hrest := ih _ (hlength ▸ guiCompletionOtherChar_length_lt first rest) (h.round hconfig) rfl
    refine hrest.perm ?_
    rw [List.append_assoc, ← List.map_append]
    exact ((sameHead_perm (h.listValid first List.mem_cons_self) h.listValid).map _).append_left _

/-- When the numbers are not shown, each item has -1. -/
theorem partialLoop_uncounted {config : GuiCompletionConfig} (hconfig : config.partialCompletionCount = false)
    (h : ∀ item ∈ items, item.count = -1) : ∀ item ∈ guiCompletionPartialLoop config items listTemp, item.count = -1 := by
  induction hlength : listTemp.length using Nat.strongRecOn generalizing listTemp items with | ind length ih => ?_
  cases listTemp with
  | nil =>
    rw [guiCompletionPartialLoop]
    exact h
  | cons first rest =>
    rw [guiCompletionPartialLoop]
    refine ih _ (hlength ▸ guiCompletionOtherChar_length_lt first rest) (fun item hitem => ?_) rfl
    split at hitem
    · rw [guiCompletionPartialListAdd, guiCompletionArraylistAdd, if_neg Bool.false_ne_true] at hitem
      rcases List.mem_append.mp hitem with hold | hnew
      · exact h item (List.mem_of_mem_filter hold)
      · rw [List.mem_singleton.mp hnew, hconfig]
        rfl
    · exact h item hitem

end

/-! ## The list of what remains -/

/-- Words that are different without case are all put in the list. -/
theorem foldl_add_perm {f : GuiCompletionWord → GuiCompletionWord} {words acc : List GuiCompletionWord}
    (hvalid : ∀ word ∈ acc ++ words.map f, utf8IsValid word.word = none)
    (hdiff : (acc ++ words.map f).Pairwise fun word word' => lowerChars word.word ≠ lowerChars word'.word) :
    (words.foldl (fun listTemp word => guiCompletionArraylistAdd true listTemp (f word)) acc).Perm
      (acc ++ words.map f) := by
  induction words generalizing acc with
  | nil => rw [List.foldl_nil, List.map_nil, List.append_nil]
  | cons word words ih =>
    rw [List.map_cons] at hvalid hdiff ⊢
    have hword : f word ∈ acc ++ f word :: words.map f := List.mem_append_right _ List.mem_cons_self
    have hkeep : acc.filter (fun other => stringStrcasecmp other.word (f word).word ≠ 0) = acc := by
      refine List.filter_eq_self.mpr fun other hother => decide_eq_true fun hsame => ?_
      have hotherValid := hvalid other (List.mem_append_left _ hother)
      exact (List.pairwise_append.mp hdiff).2.2 other hother (f word) List.mem_cons_self
        (lowerChars_of_strcasecmp hotherValid (hvalid _ hword) hsame)
    have hadd : (guiCompletionArraylistAdd true acc (f word)).Perm (acc ++ [f word]) := by
      rw [guiCompletionArraylistAdd, hkeep, if_pos rfl]
      exact (insertBefore_perm _ _ _).trans (List.perm_append_singleton (f word) acc).symm
    have hall : (guiCompletionArraylistAdd true acc (f word) ++ words.map f).Perm (acc ++ f word :: words.map f) := by
      have happend := hadd.append_right (words.map f)
      rwa [List.append_assoc, List.singleton_append] at happend
    rw [List.foldl_cons]
    refine (ih (fun word' hword' => hvalid word' (hall.mem_iff.mp hword')) ?_).trans hall
    exact (hall.pairwise_iff fun {_ _} h => Ne.symm h).mpr hdiff

/-- The words of a completion that differ without case. -/
structure DifferentWords (list : List GuiCompletionWord) : Prop where
  valid : ∀ word ∈ list, utf8IsValid word.word = none
  different : list.Pairwise fun word word' => lowerChars word.word ≠ lowerChars word'.word

section

variable {list : List GuiCompletionWord} {common : List Str}

/-- Each word begins with what is common, with the same bytes. -/
theorem common_bytes (hcommon : LongestCommon common (list.map fun word => lowerChars word.word))
    {word : GuiCompletionWord} (hword : word ∈ list) :
    (lowerChars word.word).take common.length = common ∧
      common.flatten.length = ((lowerChars word.word).take common.length).flatten.length := by
  have htake := List.prefix_iff_eq_take.mp (hcommon.common _ (List.mem_map_of_mem hword))
  exact ⟨htake.symm, by rw [← htake]⟩

/-- A word without its first bytes, in the list of the partial completions. -/
def restWord (size : Nat) (word : GuiCompletionWord) : GuiCompletionWord := ⟨word.word.drop size, false, 0⟩

/-- The items of a list of words, after what they have in common. -/
theorem partialBuildList_items {config : GuiCompletionConfig} (hconfig : config.partialCompletionCount = true)
    (h : DifferentWords list) (hcommon : LongestCommon common (list.map fun word => lowerChars word.word)) :
    PartialItems ((list.map fun word => lowerChars word.word).map fun chars => chars.drop common.length)
      (guiCompletionPartialBuildList config list common.flatten.length) := by
  have hdrop : ∀ word ∈ list, utf8IsValid (restWord common.flatten.length word).word = none ∧
      lowerChars (restWord common.flatten.length word).word = (lowerChars word.word).drop common.length := by
    intro word hword
    rw [restWord, (common_bytes hcommon hword).2]
    exact lowerChars_drop (h.valid word hword) common.length
  have hvalid : ∀ word ∈ [] ++ list.map (restWord common.flatten.length), utf8IsValid word.word = none := by
    intro word hword
    obtain ⟨word', hword', rfl⟩ := List.mem_map.mp hword
    exact (hdrop word' hword').1
  have hdiff : (([] : List GuiCompletionWord) ++ list.map (restWord common.flatten.length)).Pairwise
      fun word word' => lowerChars word.word ≠ lowerChars word'.word := by
    rw [List.nil_append, List.pairwise_map]
    refine List.Pairwise.imp_of_mem ?_ h.different
    intro word word' hword hword' hne heq
    refine hne ?_
    rw [(hdrop word hword).2, (hdrop word' hword').2] at heq
    rw [← List.take_append_drop common.length (lowerChars word.word),
      ← List.take_append_drop common.length (lowerChars word'.word), heq, (common_bytes hcommon hword).1,
      (common_bytes hcommon hword').1]
  have hperm := foldl_add_perm hvalid hdiff
  rw [List.nil_append] at hperm hvalid
  have hlisted : Listed [] (list.foldl (fun listTemp word =>
      guiCompletionArraylistAdd true listTemp (restWord common.flatten.length word)) []) [] :=
    ⟨⟨List.forall_mem_nil _, List.forall_mem_nil _⟩, List.forall_mem_nil _,
      fun word hword => hvalid word (hperm.mem_iff.mp hword), List.forall_mem_nil _⟩
  refine (partialLoop_listed hconfig hlisted).perm ?_
  rw [List.nil_append]
  refine (hperm.map _).trans ?_
  rw [List.map_map, List.map_map]
  exact .of_eq (List.map_congr_left fun word hword => (hdrop word hword).2)

/-- Of two words that differ, one does not end with what is common. -/
theorem exists_rest (h : DifferentWords list) (htwo : 2 ≤ list.length)
    (hcommon : LongestCommon common (list.map fun word => lowerChars word.word)) :
    ∃ rest ∈ (list.map fun word => lowerChars word.word).map fun chars => chars.drop common.length, ∃ char,
      rest.head? = some char := by
  obtain _ | ⟨word, _ | ⟨word', list⟩⟩ := list
  · cases htwo
  · rw [List.length_singleton] at htwo
    omega
  have hne := (List.pairwise_cons.mp h.different).1 word' List.mem_cons_self
  have hmem : word' ∈ word :: word' :: list := List.mem_cons_of_mem _ List.mem_cons_self
  by_contra hnone
  have hend : ∀ w ∈ word :: word' :: list, lowerChars w.word = common := by
    intro w hw
    have hdrop : (lowerChars w.word).drop common.length = [] := by
      cases hrest : (lowerChars w.word).drop common.length with
      | nil => rfl
      | cons char rest =>
        refine absurd ⟨_, List.mem_map_of_mem (List.mem_map_of_mem hw), char, ?_⟩ hnone
        rw [hrest]
        rfl
    rw [← List.take_append_drop common.length (lowerChars w.word), hdrop, List.append_nil,
      (common_bytes hcommon hw).1]
  exact hne ((hend word List.mem_cons_self).trans (hend word' hmem).symm)

end

/-! ## The completion -/

theorem stringTolower_take {s : Str} (h : utf8IsValid s = none) (k : Nat) :
    stringTolower (s.take ((lowerChars s).take k).flatten.length) = ((lowerChars s).take k).flatten := by
  have hvalid : ∀ c ∈ (utf8Chars s).take k, IsValidChar c := fun c hc =>
    (utf8Chars_valid h).1 c (List.mem_of_mem_take hc)
  rw [(take_lowerChars h k).1, stringTolower_flatten hvalid, lowerChars, List.map_take]

section

variable {config : GuiCompletionConfig} {completion : GuiCompletion}

/-- The longest common beginning of the words, and its size. -/
theorem exists_common (hon : guiCompletionPartial config completion = true)
    (hwords : DifferentWords completion.list) (hne : completion.list ≠ []) :
    ∃ common, LongestCommon common (completionChars completion) ∧
      guiCompletionPrefixSize config completion = common.flatten.length := by
  rw [guiCompletionPrefixSize, if_pos ⟨hon, hne⟩, completionChars]
  obtain ⟨first, rest, hlist⟩ := List.exists_cons_of_ne_nil hne
  rw [hlist] at hwords ⊢
  have hsize := @commonPrefixSize_eq first rest none (hwords.valid first List.mem_cons_self)
    fun word hword => hwords.valid word (List.mem_cons_of_mem _ hword)
  have hall : (rest.map GuiCompletionWord.word).filter (fun word =>
      (none : Option Str).all fun char => utf8Charcasecmp char word = 0) = rest.map GuiCompletionWord.word :=
    List.filter_eq_self.mpr fun _ _ => rfl
  rw [hall, List.map_map] at hsize
  exact ⟨_, longestCommon_take (lowerChars first.word) _, hsize⟩

/-- The first word in the direction is found. -/
theorem complete_first {word : GuiCompletionWord} {rest : List GuiCompletionWord}
    (hfound : completion.wordFound = none) (hlist : directedList completion = word :: rest)
    (hmatch : guiCompletionMatches config completion.baseWord word.nickCompletion word.word = true) :
    guiCompletionComplete config completion = guiCompletionFound config completion 0 word rest := by
  have honce : guiCompletionCompleteOnce config completion = some (guiCompletionFound config completion 0 word rest) := by
    rw [directedList] at hlist
    rw [guiCompletionCompleteOnce, hlist, hfound, if_neg (by simp), guiCompletionLoop, if_pos hmatch,
      if_pos (.inl hfound)]
  rw [guiCompletionComplete, honce]

/-- The completion stops at the common beginning. -/
def StopsHere (config : GuiCompletionConfig) (completion : GuiCompletion) (word : GuiCompletionWord)
    (rest : List GuiCompletionWord) : Prop :=
  ¬ (word.nickCompletion = true ∧ config.nickFirstOnly = true) ∧
    (∃ other ∈ rest, guiCompletionMatches config completion.baseWord word.nickCompletion other.word = true) ∧
    guiCompletionPrefixSize config completion ≤ utf8Strlen word.word

/-- The two ways of a word that is found. -/
theorem guiCompletionFound_cases (hon : guiCompletionPartial config completion = true)
    (word : GuiCompletionWord) (rest : List GuiCompletionWord) :
    StopsHere config completion word rest ∧
      (guiCompletionFound config completion 0 word rest).wordFound =
        some (stringTolower (word.word.take (guiCompletionPrefixSize config completion))) ∧
      (guiCompletionFound config completion 0 word rest).partialList =
        guiCompletionPartialBuildList config completion.list (guiCompletionPrefixSize config completion) ∨
    ¬ StopsHere config completion word rest ∧ (guiCompletionFound config completion 0 word rest).partialList = [] := by
  unfold guiCompletionFound
  dsimp only
  split
  · rename_i hnick
    rw [Bool.and_eq_true] at hnick
    exact .inr ⟨fun h => h.1 hnick, rfl⟩
  · rename_i hnick
    rw [Bool.and_eq_true] at hnick
    generalize (if 0 + List.countP _ rest = 0 then (-1 : Int) else if completion.position < 0 then 0
      else completion.position) = position
    generalize (if (word.nickCompletion && !config.nickAddSpace) = true then false else completion.addSpace) = addSpace
    split
    · rename_i hstop
      obtain ⟨-, hlength, hother⟩ := hstop
      rw [Nat.zero_add] at hother
      exact .inl ⟨⟨hnick, List.countP_pos_iff.mp hother, hlength⟩, rfl, rfl⟩
    · rename_i hstop
      refine .inr ⟨fun h => hstop ⟨hon, h.2.2, ?_⟩, rfl⟩
      rw [Nat.zero_add]
      exact List.countP_pos_iff.mpr h.2.1

/-- With partial completion and no word found yet, the completion gives the common
beginning and its items if and only if it stops at it with the numbers. -/
theorem guiCompletionComplete_partial_iff (hon : guiCompletionPartial config completion = true)
    (hfound : completion.wordFound = none) (htwo : 2 ≤ completion.list.length)
    (hmatch : ∀ word ∈ completion.list,
      guiCompletionMatches config completion.baseWord word.nickCompletion word.word = true)
    (hwords : DifferentWords completion.list) :
    PartialRight completion (guiCompletionComplete config completion) ↔ StopsAtCommon config completion := by
  have hne : completion.list ≠ [] := List.ne_nil_of_length_pos (by omega)
  have hmem : ∀ word, word ∈ directedList completion ↔ word ∈ completion.list := by
    intro word
    rw [directedList]
    split
    · exact List.mem_reverse
    · exact Iff.rfl
  obtain ⟨word, rest, hlist⟩ : ∃ word rest, directedList completion = word :: rest :=
    List.exists_cons_of_ne_nil fun hnil => hne (List.eq_nil_iff_forall_not_mem.mpr fun word hword => by
      have := (hmem word).mpr hword
      rw [hnil] at this
      cases this)
  have hword : word ∈ completion.list := (hmem word).mp (hlist ▸ List.mem_cons_self)
  obtain ⟨common, hcommon, hsize⟩ := exists_common hon hwords hne
  rw [complete_first hfound hlist (hmatch word hword)]
  constructor
  · rintro ⟨common', hcommon', -, hitems⟩
    rw [hcommon'.eq hcommon] at hitems
    obtain ⟨rest', hrest', char, hchar⟩ := exists_rest hwords htwo hcommon
    have hone := hitems.one rest' hrest' char hchar
    rcases guiCompletionFound_cases hon word rest with ⟨⟨hnick, hother, hlength⟩, -, hlistItems⟩ | ⟨-, hnil⟩
    · rw [hsize] at hlength
      refine ⟨?_, word, rest, common, hlist, hnick, hother, hcommon, hlength⟩
      -- an item has its number
      by_contra hcount
      obtain ⟨item, hitem⟩ := List.exists_mem_of_length_pos (hone ▸ Nat.one_pos)
      have hmemItem := List.mem_of_mem_filter hitem
      obtain ⟨_, _, _, hnumber⟩ := hitems.item item hmemItem
      rw [hlistItems] at hmemItem
      have hminus := partialLoop_uncounted (Bool.eq_false_iff.mpr hcount) (List.forall_mem_nil _) item hmemItem
      omega
    · rw [hnil] at hone
      cases hone
  · rintro ⟨hcount, word', rest', common', hlist', hnick, hother, hcommon', hlength⟩
    rw [hlist] at hlist'
    obtain ⟨rfl, rfl⟩ := List.cons.inj hlist'
    rw [hcommon'.eq hcommon, ← hsize] at hlength
    rcases guiCompletionFound_cases hon word rest with ⟨-, hwordFound, hlistItems⟩ | ⟨hstop, -⟩
    · refine ⟨common, hcommon, ?_, ?_⟩
      · obtain ⟨htake, hbytes⟩ := common_bytes hcommon hword
        rw [hwordFound, hsize, hbytes, stringTolower_take (hwords.valid word hword), htake]
      · rw [hlistItems, hsize]
        exact partialBuildList_items hcount hwords hcommon
    · exact absurd ⟨hnick, hother, hlength⟩ hstop

end

/-- Options with partial completion, and the numbers of the items. -/
def examplePartialConfig : GuiCompletionConfig where
  partialCompletionCommand := true
  partialCompletionCommandArg := true
  partialCompletionOther := true
  partialCompletionCount := true
  nickAddSpace := true
  nickFirstOnly := false
  nickCaseSensitive := false
  nickIgnoreChars := []

/-- A completion of an empty word. -/
def examplePartial (words : List Str) : GuiCompletion where
  context := .auto
  baseWord := []
  baseWordPos := 0
  position := -1
  direction := 1
  addSpace := true
  forcePartialCompletion := false
  reversePartialCompletion := false
  list := words.map fun word => ⟨word, false, 0⟩
  wordFound := none
  wordFoundIsNick := false
  positionReplace := 0
  diffSize := 0
  diffLength := 0
  partialList := []

theorem guiCompletionComplete_partial_iff_two :
    PartialRight (examplePartial [lit "Ab1", lit "aB2"])
      (guiCompletionComplete examplePartialConfig (examplePartial [lit "Ab1", lit "aB2"])) := by
  have hlower : lowerChars (lit "Ab1") = [[97], [98], [49]] ∧ lowerChars (lit "aB2") = [[97], [98], [50]] ∧
      utf8Strlen (lit "Ab1") = 3 := by decide +kernel
  have hvalid : ∀ word ∈ (examplePartial [lit "Ab1", lit "aB2"]).list, utf8IsValid word.word = none := by
    intro word hword
    refine utf8IsValid_ascii ?_
    revert word
    decide
  have hmatch : ∀ word : GuiCompletionWord, guiCompletionMatches examplePartialConfig [] false word.word = true := by
    intro word
    rw [guiCompletionMatches, if_neg Bool.false_ne_true, utf8Strlen, dif_pos rfl]
    rfl
  have hcommon := longestCommon_take (lowerChars (lit "Ab1")) [lowerChars (lit "aB2")]
  rw [hlower.1, hlower.2.1] at hcommon
  refine (guiCompletionComplete_partial_iff rfl rfl (by decide) (fun word hword => ?_) ⟨hvalid, ?_⟩).mpr
    ⟨rfl, _, _, [[97], [98]], rfl, fun h => absurd h.2 Bool.false_ne_true, ⟨_, List.mem_singleton_self _, hmatch _⟩,
      ?_, ?_⟩
  · have hnick : word.nickCompletion = false := by
      revert word
      decide
    rw [hnick]
    exact hmatch word
  · refine List.pairwise_pair.mpr ?_
    rw [hlower.1, hlower.2.1]
    decide
  · change LongestCommon _ [lowerChars (lit "Ab1"), lowerChars (lit "aB2")]
    rw [hlower.1, hlower.2.1]
    exact hcommon
  · change 2 ≤ utf8Strlen (lit "Ab1")
    rw [hlower.2.2]
    decide

/-- Of two words that begin with two characters of two bytes, the first one is found
as a whole: it has three characters, and what is common has four bytes. -/
theorem guiCompletionComplete_partial_wrong :
    ¬ PartialRight (examplePartial [[0xC3, 0xA9, 0xC3, 0xA9, 0x31], [0xC3, 0xA9, 0xC3, 0xA9, 0x32]])
      (guiCompletionComplete examplePartialConfig
        (examplePartial [[0xC3, 0xA9, 0xC3, 0xA9, 0x31], [0xC3, 0xA9, 0xC3, 0xA9, 0x32]])) := by
  have hnone : (guiCompletionComplete examplePartialConfig
      (examplePartial [[0xC3, 0xA9, 0xC3, 0xA9, 0x31], [0xC3, 0xA9, 0xC3, 0xA9, 0x32]])).partialList = [] ∧
      (∀ word ∈ (examplePartial [[0xC3, 0xA9, 0xC3, 0xA9, 0x31], [0xC3, 0xA9, 0xC3, 0xA9, 0x32]]).list,
        utf8IsValid word.word = none) ∧
      lowerChars [0xC3, 0xA9, 0xC3, 0xA9, 0x31] ≠ lowerChars [0xC3, 0xA9, 0xC3, 0xA9, 0x32] := by
    decide +kernel
  rintro ⟨common, hcommon, -, hitems⟩
  obtain ⟨rest, hrest, char, hchar⟩ := exists_rest ⟨hnone.2.1, List.pairwise_pair.mpr hnone.2.2⟩ (by decide) hcommon
  have hone := hitems.one rest hrest char hchar
  rw [hnone.1] at hone
  cases hone

end Wirc
