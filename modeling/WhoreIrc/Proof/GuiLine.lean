import WhoreIrc.Spec.GuiLine

/-!
# When the order of tags does not matter (`line_match_order_iff`)

An alternative ends with a match if and only if it matches (`matchAlternative_match`), and
it refuses the condition only if a negated tag is found. So only one that matches and one
that refuses compete: the first of them decides.
-/

namespace Wirc

variable {tagsArray : List Str} {tag : Str} {tags tags' : List Str} {alternatives alternatives' : List (List Str)}

/-! ## One alternative -/

theorem alternativeMatches_cons :
    AlternativeMatches tagsArray (tag :: tags) ↔
      (TagFound tagsArray tag ↔ ¬TagNegated tag) ∧ AlternativeMatches tagsArray tags :=
  List.forall_mem_cons

/-- What the loop does with the first tag. -/
theorem matchAlternative_cons (tag : Str) (tags : List Str) :
    (TagNegated tag ∧ TagFound tagsArray tag ∧ guiLineMatchAlternative tagsArray (tag :: tags) = .refused) ∨
      (¬TagNegated tag ∧ ¬TagFound tagsArray tag ∧ guiLineMatchAlternative tagsArray (tag :: tags) = .noMatch) ∨
      ((TagFound tagsArray tag ↔ ¬TagNegated tag) ∧
        guiLineMatchAlternative tagsArray (tag :: tags) = guiLineMatchAlternative tagsArray tags) := by
  have hcons : guiLineMatchAlternative tagsArray (tag :: tags) =
      if guiLineTagFound tagsArray (guiLineTagNegated tag).2 && (guiLineTagNegated tag).1 then .refused
      else if (!guiLineTagFound tagsArray (guiLineTagNegated tag).2 && !(guiLineTagNegated tag).1) ||
          (guiLineTagFound tagsArray (guiLineTagNegated tag).2 && (guiLineTagNegated tag).1) then .noMatch
      else guiLineMatchAlternative tagsArray tags := rfl
  rw [hcons, TagNegated, TagFound]
  cases guiLineTagFound tagsArray (guiLineTagNegated tag).2 <;> cases (guiLineTagNegated tag).1 <;> simp

theorem matchAlternative_match : guiLineMatchAlternative tagsArray tags = .matched ↔ AlternativeMatches tagsArray tags := by
  induction tags with
  | nil => exact iff_of_true rfl (List.forall_mem_nil _)
  | cons tag tags ih =>
    rw [alternativeMatches_cons]
    rcases @matchAlternative_cons tagsArray tag tags with ⟨hneg, hfound, h⟩ | ⟨hneg, hfound, h⟩ | ⟨hok, h⟩
    · rw [h]
      exact iff_of_false (by decide) fun hall => hall.1.mp hfound hneg
    · rw [h]
      exact iff_of_false (by decide) fun hall => hfound (hall.1.mpr hneg)
    · rw [h, ih]
      exact (and_iff_right hok).symm

theorem refuses_of_refused (h : guiLineMatchAlternative tagsArray tags = .refused) :
    AlternativeRefuses tagsArray tags := by
  induction tags with
  | nil => cases h
  | cons tag tags ih =>
    rcases @matchAlternative_cons tagsArray tag tags with ⟨hneg, hfound, -⟩ | ⟨-, -, h'⟩ | ⟨-, h'⟩
    · exact ⟨tag, List.mem_cons_self, hneg, hfound⟩
    · rw [h'] at h
      cases h
    · rw [h'] at h
      obtain ⟨tag', hmem, htag⟩ := ih h
      exact ⟨tag', List.mem_cons_of_mem _ hmem, htag⟩

/-- A negated tag that is found refuses the condition if it comes first. -/
theorem exists_refused (h : AlternativeRefuses tagsArray tags) :
    ∃ tags', tags.Perm tags' ∧ guiLineMatchAlternative tagsArray tags' = .refused := by
  obtain ⟨tag, hmem, hneg, hfound⟩ := h
  obtain ⟨before, after, rfl⟩ := List.append_of_mem hmem
  refine ⟨tag :: (before ++ after), List.perm_middle, ?_⟩
  rcases @matchAlternative_cons tagsArray tag (before ++ after) with ⟨-, -, h⟩ | ⟨hneg', -, -⟩ | ⟨hok, -⟩
  · exact h
  · exact absurd hneg hneg'
  · exact absurd hneg (hok.mp hfound)

theorem matches_perm (h : tags.Perm tags') : AlternativeMatches tagsArray tags ↔ AlternativeMatches tagsArray tags' :=
  forall_congr' fun _ => imp_congr_left h.mem_iff

theorem refuses_perm (h : tags.Perm tags') : AlternativeRefuses tagsArray tags ↔ AlternativeRefuses tagsArray tags' :=
  exists_congr fun _ => and_congr_left fun _ => h.mem_iff

/-! ## The alternatives -/

/-- Without a negated tag that is found, the condition is a formula. -/
theorem matchTags_of_not_refuses (h : ∀ tags ∈ alternatives, ¬AlternativeRefuses tagsArray tags) :
    guiLineMatchTags tagsArray alternatives = true ↔ ∃ tags ∈ alternatives, AlternativeMatches tagsArray tags := by
  induction alternatives with
  | nil => exact iff_of_false Bool.false_ne_true fun h => absurd h.choose_spec.1 List.not_mem_nil
  | cons tags alternatives ih =>
    rw [List.forall_mem_cons] at h
    rw [guiLineMatchTags, List.exists_mem_cons_iff, ← matchAlternative_match, ← ih h.2]
    cases hend : guiLineMatchAlternative tagsArray tags with
    | matched => simp
    | noMatch => simp
    | refused => exact absurd (refuses_of_refused hend) h.1

/-- Without an alternative that matches, the condition does not match. -/
theorem matchTags_of_not_matches (h : ∀ tags ∈ alternatives, ¬AlternativeMatches tagsArray tags) :
    guiLineMatchTags tagsArray alternatives = false := by
  induction alternatives with
  | nil => rfl
  | cons tags alternatives ih =>
    rw [List.forall_mem_cons] at h
    rw [guiLineMatchTags]
    cases hend : guiLineMatchAlternative tagsArray tags with
    | matched => exact absurd (matchAlternative_match.mp hend) h.1
    | noMatch => exact ih h.2
    | refused => rfl

/-- A property of alternatives that their order does not change is that of one of them in any order. -/
theorem Reordered.exists_iff {P : List Str → Prop} (hP : ∀ tags tags', tags.Perm tags' → (P tags ↔ P tags'))
    (h : Reordered alternatives alternatives') : (∃ tags ∈ alternatives, P tags) ↔ ∃ tags ∈ alternatives', P tags := by
  obtain ⟨others, hall, hperm⟩ := h
  have hothers : (∃ tags ∈ alternatives, P tags) ↔ ∃ tags ∈ others, P tags := by
    clear hperm
    induction hall with
    | nil => exact Iff.rfl
    | cons htags hall ih =>
      rw [List.exists_mem_cons_iff, List.exists_mem_cons_iff, hP _ _ htags, ih]
  rw [hothers]
  exact exists_congr fun _ => and_congr_left fun _ => hperm.mem_iff

/-- An alternative comes first, in another order. -/
theorem reordered_first (hmem : tags ∈ alternatives) (hperm : tags.Perm tags') :
    ∃ rest, Reordered alternatives (tags' :: rest) := by
  obtain ⟨before, after, rfl⟩ := List.append_of_mem hmem
  refine ⟨before ++ after, before ++ tags' :: after, ?_, List.perm_middle⟩
  have hsame (l : List (List Str)) : List.Forall₂ List.Perm l l := List.forall₂_same.mpr fun x _ => List.Perm.refl x
  exact List.rel_append (hsame before) (.cons hperm (hsame after))

/-- The order of the alternatives and of their tags does not change the result if and only if there
is no alternative that matches, or no negated tag that is found. -/
theorem line_match_order_iff (tagsArray : List Str) (alternatives : List (List Str)) :
    OrderFree tagsArray alternatives ↔
      ¬((∃ tags ∈ alternatives, AlternativeMatches tagsArray tags) ∧
        ∃ tags ∈ alternatives, AlternativeRefuses tagsArray tags) := by
  constructor
  · rintro h ⟨⟨tags1, hmem1, hmatches⟩, tags2, hmem2, hrefuses⟩
    obtain ⟨tags2', hperm, hrefused⟩ := exists_refused hrefuses
    obtain ⟨rest1, hfirst1⟩ := reordered_first hmem1 (List.Perm.refl tags1)
    obtain ⟨rest2, hfirst2⟩ := reordered_first hmem2 hperm
    have htrue := h _ hfirst1
    have hfalse := h _ hfirst2
    rw [guiLineMatchTags, matchAlternative_match.mpr hmatches] at htrue
    rw [guiLineMatchTags, hrefused] at hfalse
    exact Bool.noConfusion (htrue.trans hfalse.symm)
  · intro h alternatives' hreordered
    have hmatches := hreordered.exists_iff fun _ _ => @matches_perm tagsArray _ _
    have hrefuses := hreordered.exists_iff fun _ _ => @refuses_perm tagsArray _ _
    by_cases hmatch : ∃ tags ∈ alternatives, AlternativeMatches tagsArray tags
    · have hno : ¬∃ tags ∈ alternatives, AlternativeRefuses tagsArray tags := fun hrefuse => h ⟨hmatch, hrefuse⟩
      have hno' := mt hrefuses.mpr hno
      rw [(matchTags_of_not_refuses fun tags hmem hr => hno ⟨tags, hmem, hr⟩).mpr hmatch,
        (matchTags_of_not_refuses fun tags hmem hr => hno' ⟨tags, hmem, hr⟩).mpr (hmatches.mp hmatch)]
    · have hmatch' := mt hmatches.mpr hmatch
      rw [matchTags_of_not_matches fun tags hmem hm => hmatch ⟨tags, hmem, hm⟩,
        matchTags_of_not_matches fun tags hmem hm => hmatch' ⟨tags, hmem, hm⟩]

/-- A negated tag refuses the condition only before an alternative that matches. -/
theorem line_match_order_fails :
    Reordered [[lit "!irc_join"], [lit "nick_test"]] [[lit "nick_test"], [lit "!irc_join"]] ∧
      guiLineMatchTags [lit "irc_join", lit "nick_test"] [[lit "!irc_join"], [lit "nick_test"]] = false ∧
      guiLineMatchTags [lit "irc_join", lit "nick_test"] [[lit "nick_test"], [lit "!irc_join"]] = true :=
  ⟨⟨_, List.forall₂_same.mpr fun x _ => List.Perm.refl x, List.Perm.swap ..⟩, by decide +kernel⟩

end Wirc
