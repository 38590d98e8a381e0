import WhoreIrc.Proof.CString
import WhoreIrc.Spec.SplitText

/-!
# Cutting a text into pieces: the cut is unique and exists

The boundaries of a text are in one line (`Boundary.total`): the next one after
`q` is the next character (`Boundary.next_le`). From this a text has at most
one first piece (`IsCut.unique`), which is not longer than the budget, and
empty only where the first character does not fit (`isCut_stuck`,
`IsCut.length_lt`).
-/

namespace Wirc

/-! ## Characters -/

theorem utf8CharSize_le_length {s : Str} (h : s ≠ []) : utf8CharSize s ≤ s.length := by
  cases s with
  | nil => exact absurd rfl h
  | cons b s => exact Nat.min_le_right ..

theorem utf8NextChar_suffix (s : Str) : utf8NextChar s <:+ s := List.drop_suffix ..

theorem utf8NextChar_length (s : Str) : (utf8NextChar s).length = s.length - utf8CharSize s :=
  List.length_drop

/-! ## Boundaries -/

section

variable {p q q' a : Str}

theorem Boundary.refl (p : Str) : Boundary p p := Relation.ReflTransGen.refl

theorem Boundary.trans (h : Boundary p q) (h' : Boundary q q') : Boundary p q' := Relation.ReflTransGen.trans h h'

theorem Boundary.next (h : Boundary p q) (hq : q ≠ []) : Boundary p (utf8NextChar q) :=
  Relation.ReflTransGen.tail h ⟨hq, rfl⟩

theorem Boundary.suffix (h : Boundary p q) : q <:+ p := by
  induction h with
  | refl => exact List.suffix_refl _
  | tail _ hstep ih =>
    rw [hstep.2]
    exact (utf8NextChar_suffix _).trans ih

theorem Boundary.total (h : Boundary p q) (h' : Boundary p q') : Boundary q q' ∨ Boundary q' q :=
  Relation.ReflTransGen.total_of_right_unique (fun _ _ _ h1 h2 => h1.2.trans h2.2.symm) h h'

/-- After a boundary, the next one is after its character. -/
theorem Boundary.next_le (h : Boundary p q) (h' : Boundary p q') (hlt : q'.length < q.length) :
    q ≠ [] ∧ Boundary (utf8NextChar q) q' := by
  rcases h.total h' with hq | hq
  · rcases Relation.ReflTransGen.cases_head hq with rfl | ⟨t, ⟨hne, rfl⟩, ht⟩
    · exact absurd hlt (Nat.lt_irrefl _)
    · exact ⟨hne, ht⟩
  · have := hq.suffix.length_le
    omega

/-- A boundary is determined by its place. -/
theorem Boundary.eq_of_length (h : Boundary p q) (h' : Boundary p q') (hlen : q.length = q'.length) : q = q' := by
  rw [List.suffix_iff_eq_drop.mp h.suffix, List.suffix_iff_eq_drop.mp h'.suffix, hlen]

/-- Before a later boundary, the whole character fits. -/
theorem Boundary.size_add_le (h : Boundary p q) (h' : Boundary p q') (hlt : q'.length < q.length) :
    q'.length + utf8CharSize q ≤ q.length := by
  obtain ⟨hne, hb⟩ := h.next_le h' hlt
  have h1 := hb.suffix.length_le
  have h2 := utf8CharSize_le_length hne
  rw [utf8NextChar_length] at h1
  omega

theorem boundary_nil (p : Str) : Boundary p [] := by
  by_cases hp : p = []
  · rw [hp]
    exact .refl []
  · exact Relation.ReflTransGen.head ⟨hp, rfl⟩ (boundary_nil (utf8NextChar p))
termination_by p.length
decreasing_by exact utf8NextChar_length_lt hp

end

/-! ## The first piece -/

section

variable {B : Int} {d : Byte} {p a a' q q' : Str} {dropped dropped' : Bool}

theorem DelimiterAt.lengths (h : DelimiterAt B d p a q) : p.length = a.length + (q.length + 1) := by
  rw [h.split, List.length_append, List.length_cons]

theorem IsCut.unique (h : IsCut B d p a dropped q) (h' : IsCut B d p a' dropped' q') :
    a = a' ∧ dropped = dropped' ∧ q = q' := by
  cases h with
  | fits hB =>
    cases h' with
    | fits => exact ⟨rfl, rfl, rfl⟩
    | delimiter hB' => omega
    | whole hB' => omega
  | delimiter hB hd hmax =>
    cases h' with
    | fits hB' => omega
    | delimiter _ hd' hmax' =>
      have hlen := Nat.le_antisymm (hmax' _ _ hd) (hmax _ _ hd')
      have hsplit := hd.split.symm.trans hd'.split
      obtain ⟨rfl, hq⟩ := List.append_inj hsplit hlen
      exact ⟨rfl, rfl, (List.cons.inj hq).2⟩
    | whole _ _ _ _ _ hno => exact absurd hd (hno _ _)
  | whole hB hsplit hb hle hlt hno =>
    cases h' with
    | fits hB' => omega
    | delimiter _ hd' _ => exact absurd hd' (hno _ _)
    | whole _ hsplit' hb' hle' hlt' _ =>
      have hlen : a.length = a'.length := by
        have h1 := congrArg List.length hsplit
        have h2 := congrArg List.length hsplit'
        rw [List.length_append] at h1 h2
        rcases Nat.lt_trichotomy a.length a'.length with hc | hc | hc
        · have := hb.size_add_le hb' (by omega)
          omega
        · exact hc
        · have := hb'.size_add_le hb (by omega)
          omega
      obtain ⟨rfl, rfl⟩ := List.append_inj (hsplit.symm.trans hsplit') hlen
      exact ⟨rfl, rfl, rfl⟩

theorem IsCut.length_le (h : IsCut B d p a dropped q) : (a.length : Int) ≤ B := by
  cases h with
  | fits hB => exact hB
  | delimiter _ hd _ => exact hd.reach
  | whole _ _ _ hle _ _ => exact hle

/-- The text is the piece, the delimiter that is dropped, and the rest. -/
theorem IsCut.split (h : IsCut B d p a dropped q) : p = a ++ (if dropped then d :: q else q) := by
  cases h with
  | fits => exact (List.append_nil p).symm
  | delimiter _ hd _ => exact hd.split
  | whole _ hsplit => exact hsplit

/-- Where a delimiter is not dropped, there is none. -/
theorem IsCut.head_ne (h : IsCut B d p a false q) : q.head? ≠ some d := by
  cases h with
  | fits => simp
  | whole _ hsplit hb hle _ hno =>
    intro hq
    obtain ⟨t, rfl⟩ := List.head?_eq_some_iff.mp hq
    exact hno a t ⟨hsplit, hb, hle⟩

/-- Where the first character does not fit and is not a delimiter, the piece is
empty. -/
theorem isCut_stuck (hB : 0 ≤ B) (hp : p ≠ []) (hsize : B < utf8CharSize p) (hd : p.head? ≠ some d) :
    IsCut B d p [] false p := by
  have hlen := utf8CharSize_le_length hp
  refine .whole (by omega) rfl (.refl p) hB (by simpa using hsize) fun a' q' h => ?_
  have hl := h.lengths
  have hr := h.reach
  rcases Nat.eq_zero_or_pos a'.length with h0 | hpos
  · have hsplit := h.split
    rw [List.length_eq_zero_iff.mp h0] at hsplit
    exact hd (by rw [hsplit]; rfl)
  · have := (Boundary.refl p).size_add_le h.boundary (by rw [List.length_cons]; omega)
    rw [List.length_cons] at this
    omega

/-- Elsewhere the rest is shorter. -/
theorem IsCut.length_lt (h : IsCut B d p a dropped q) (hB : 0 ≤ B) (hp : p ≠ [])
    (hok : utf8CharSize p ≤ B ∨ p.head? = some d) : q.length < p.length := by
  cases h with
  | fits => exact List.length_pos_iff.mpr hp
  | delimiter _ hd _ =>
    have := hd.lengths
    omega
  | whole _ hsplit _ _ hlt hno =>
    rcases List.eq_nil_or_concat a with rfl | ⟨_, _, rfl⟩
    · rw [List.nil_append] at hsplit
      subst hsplit
      rcases hok with hok | hok
      · simp only [List.length_nil] at hlt
        omega
      · obtain ⟨t, rfl⟩ := List.head?_eq_some_iff.mp hok
        exact absurd ⟨rfl, .refl _, hB⟩ (hno [] t)
    · rw [hsplit, List.length_append, List.length_concat]
      omega

/-- A delimiter that is a character of one byte is dropped as a whole. -/
theorem IsCut.boundary (h : IsCut B d p a dropped q) (hd : utf8LeadSize d = 1) : Boundary p q := by
  cases h with
  | fits => exact boundary_nil p
  | delimiter _ hdel _ =>
    have hsize : utf8CharSize (d :: q) = 1 := by
      simp only [utf8CharSize, hd]
      omega
    have hnext : utf8NextChar (d :: q) = q := by rw [utf8NextChar, hsize, List.drop_one, List.tail_cons]
    rw [← hnext]
    exact hdel.boundary.next (List.cons_ne_nil d q)
  | whole _ _ hb => exact hb

/-- A character inside of the first piece fits in the budget. -/
theorem IsCut.size_le (h : IsCut B d p a dropped q) (hd : utf8LeadSize d = 1) (hB : 1 ≤ B)
    (hb : Boundary p q') (hlt : q.length < q'.length) : utf8CharSize q' ≤ B := by
  have hq' := hb.suffix.length_le
  cases h with
  | fits hp =>
    have := utf8CharSize_le_length (List.ne_nil_of_length_pos hlt)
    omega
  | delimiter _ hdel _ =>
    have hlen := hdel.lengths
    have hreach := hdel.reach
    rcases Nat.lt_or_eq_of_le (Nat.succ_le_of_lt hlt) with hlt' | heq
    · have := hb.size_add_le hdel.boundary (by rw [List.length_cons]; exact hlt')
      rw [List.length_cons] at this
      omega
    · rw [hb.eq_of_length hdel.boundary heq.symm, utf8CharSize, hd]
      omega
  | whole _ hsplit hbq hle _ _ =>
    have hlen := congrArg List.length hsplit
    rw [List.length_append] at hlen
    have := hb.size_add_le hbq hlt
    omega

/-! ## All pieces -/

theorem starts_nil {t : Str} (h : Starts B d [] t) : t = [] := by
  rcases Relation.ReflTransGen.cases_head h with h | ⟨_, ⟨hne, -⟩, -⟩
  · exact h.symm
  · exact absurd rfl hne

/-- A property of all pieces, split at the first one. -/
theorem starts_iff {G : Str → Bool → Str → Prop} (hp : p ≠ []) (h : IsCut B d p a dropped q) :
    (∀ p', Starts B d p p' → p' ≠ [] → ∀ a dropped q, IsCut B d p' a dropped q → G a dropped q) ↔
      G a dropped q ∧
        ∀ p', Starts B d q p' → p' ≠ [] → ∀ a dropped q, IsCut B d p' a dropped q → G a dropped q := by
  constructor
  · exact fun hall => ⟨hall p .refl hp a dropped q h, fun p' hs => hall p' (.head ⟨hp, a, dropped, h⟩ hs)⟩
  · rintro ⟨hG, hall⟩ p' hs hp' a' dropped' q' h'
    rcases Relation.ReflTransGen.cases_head hs with rfl | ⟨t, ⟨_, a1, dropped1, h1⟩, ht⟩
    · obtain ⟨rfl, rfl, rfl⟩ := h.unique h'
      exact hG
    · obtain ⟨-, -, rfl⟩ := h.unique h1
      exact hall p' ht hp' a' dropped' q' h'

variable {ps : List (Str × Bool)}

theorem Pieces.forall_iff {P : Str → Prop} (h : Pieces B d p ps) :
    (∀ a ∈ ps.map Prod.fst, P a) ↔
      ∀ p', Starts B d p p' → p' ≠ [] → ∀ a dropped q, IsCut B d p' a dropped q → P a := by
  induction h with
  | nil => exact ⟨fun _ p' hs hp' => absurd (starts_nil hs) hp', fun _ a ha => nomatch ha⟩
  | cons hp hcut _ ih => rw [starts_iff (G := fun a _ _ => P a) hp hcut, ← ih, List.map_cons, List.forall_mem_cons]

/-- A text that is cut to its end is never cut at its beginning. -/
theorem Pieces.not_stuck (h : Pieces B d p ps) (hp : p ≠ []) : ¬ IsCut B d p [] false p := by
  induction h with
  | nil => exact absurd rfl hp
  | cons _ hcut _ ih =>
    intro hstuck
    obtain ⟨-, -, rfl⟩ := hstuck.unique hcut
    exact ih hp hstuck

theorem Pieces.eq_nil (h : Pieces B d [] ps) : ps = [] := by
  cases h with
  | nil => rfl
  | cons hp => exact absurd rfl hp

theorem Pieces.map_ne_nil (h : Pieces B d p ps) (hp : p ≠ []) : ps.map Prod.fst ≠ [] := by
  cases h with
  | nil => exact absurd rfl hp
  | cons => exact List.cons_ne_nil _ _

theorem not_joined_nil {text : Str} : ¬ Joined d [] text := nofun

/-- The text begins anew after each piece: what the pieces are joined to, from
any place at or before the piece on. -/
theorem Pieces.dropped_of_joined {t : Str} (h : Pieces B d p ps) (hj : Joined d (ps.map Prod.fst) t)
    (hpt : p <:+ t) :
    ∀ p', Starts B d p p' → p' ≠ [] → ∀ a dropped q, IsCut B d p' a dropped q → dropped = true → q ≠ [] := by
  induction h generalizing t with
  | nil => exact fun p' hs hp' => absurd (starts_nil hs) hp'
  | @cons p a q dropped ps hp hcut hps ih =>
    rw [starts_iff (G := fun _ dropped q => dropped = true → q ≠ []) hp hcut]
    have hsplit := hcut.split
    change Joined d (a :: ps.map Prod.fst) t at hj
    by_cases hq : q = []
    · subst hq
      refine ⟨?_, fun p' hs hp' => absurd (starts_nil hs) hp'⟩
      rintro rfl
      rw [hps.eq_nil] at hj
      -- the delimiter after the last piece is in `t`, but not in the piece
      cases hj with
      | one =>
        have := hpt.length_le
        rw [hsplit] at this
        simp only [if_true, List.length_append, List.length_cons] at this
        omega
      | next _ hj => exact absurd hj not_joined_nil
      | delimiter _ hj => exact absurd hj not_joined_nil
    · refine ⟨fun _ => hq, ?_⟩
      have hqt : q <:+ t := by
        refine List.IsSuffix.trans ?_ hpt
        rw [hsplit]
        cases dropped with
        | true => exact ⟨a ++ [d], by simp⟩
        | false => exact ⟨a, rfl⟩
      have hplen : p.length = a.length + q.length + (if dropped then 1 else 0) := by
        rw [hsplit]
        cases dropped <;> simp [Nat.add_assoc]
      have hle := hpt.length_le
      have hne := hps.map_ne_nil hq
      generalize ps.map Prod.fst = as at hj hne ih
      cases hj with
      | one => exact absurd rfl hne
      | @next _ t' _ hj =>
        rw [List.length_append] at hle
        exact ih hj (List.suffix_of_suffix_length_le hqt (List.suffix_append _ _) (by omega))
      | @delimiter _ t' _ hj =>
        rw [List.length_append, List.length_cons] at hle
        have ht' : t' <:+ a ++ d :: t' := ⟨a ++ [d], by simp⟩
        by_cases hlt : q.length ≤ t'.length
        · exact ih hj (List.suffix_of_suffix_length_le hqt ht' hlt)
        · -- then `p` is all of `t`, and a delimiter would have been dropped
          cases dropped with
          | true =>
            simp only [if_true] at hplen
            omega
          | false =>
            have heq := hpt.eq_of_length_le (by
              simp only [Bool.false_eq_true, if_false] at hplen
              rw [List.length_append, List.length_cons]
              omega)
            have hq' : q = d :: t' := List.append_cancel_left (hsplit.symm.trans heq)
            exact absurd (by rw [hq']; rfl) hcut.head_ne

end

/-! ## UTF-8 -/

section

variable {B : Int} {d b : Byte} {p a q s t : Str} {dropped : Bool} {ps : List (Str × Bool)}

theorem IsUtf8Char.nextChar (h : IsUtf8Char b t) (s : Str) : utf8NextChar (b :: (t ++ s)) = s := by
  have hsize : utf8CharSize (b :: (t ++ s)) = t.length + 1 := by
    rw [utf8CharSize, ← h.size, List.length_append]
    omega
  rw [utf8NextChar, hsize, List.drop_succ_cons, List.drop_left]

/-- A sequence of characters, cut between two characters. -/
theorem ValidUtf8.split (h : ValidUtf8 p) (hb : Boundary p q) : ∃ a, p = a ++ q ∧ ValidUtf8 a ∧ ValidUtf8 q := by
  induction h with
  | nil =>
    rw [List.eq_nil_of_suffix_nil hb.suffix]
    exact ⟨[], rfl, .nil, .nil⟩
  | @char b t s hchar hs ih =>
    rcases Relation.ReflTransGen.cases_head hb with rfl | ⟨s', ⟨-, rfl⟩, hb'⟩
    · exact ⟨[], rfl, .nil, .char hchar hs⟩
    · rw [hchar.nextChar] at hb'
      obtain ⟨a, rfl, ha, hq⟩ := ih hb'
      exact ⟨b :: (t ++ a), by simp, .char hchar ha, hq⟩

theorem ValidUtf8.of_boundary (h : ValidUtf8 (a ++ q)) (hb : Boundary (a ++ q) q) : ValidUtf8 a ∧ ValidUtf8 q := by
  obtain ⟨a', hsplit, ha, hq⟩ := h.split hb
  rw [List.append_cancel_right hsplit]
  exact ⟨ha, hq⟩

set_option maxRecDepth 10000 in
theorem utf8LeadSize_ascii (h : b < 0x80) : utf8LeadSize b = 1 :=
  byte_forall (P := fun b => b < 0x80 → utf8LeadSize b = 1) (by decide) b h

theorem validUtf8_ascii (h : ∀ c ∈ s, c < 0x80) : ValidUtf8 s := by
  induction s with
  | nil => exact .nil
  | cons c s ih =>
    obtain ⟨hc, hs⟩ := List.forall_mem_cons.mp h
    exact .char (t := []) ⟨(utf8LeadSize_ascii hc).symm, .inl hc, nofun⟩ (ih hs)

theorem ValidUtf8.tail (h : ValidUtf8 (d :: q)) (hd : d < 0x80) : ValidUtf8 q := by
  cases h with
  | @char _ t s hchar hs =>
    have := hchar.size
    rw [utf8LeadSize_ascii hd] at this
    rw [List.length_eq_zero_iff.mp (Nat.succ.inj this)]
    exact hs

set_option maxRecDepth 10000 in
theorem continuation_range (h : b &&& 0xC0 = 0x80) : 0x80 ≤ b ∧ b < 0xC0 :=
  byte_forall (P := fun b => b &&& 0xC0 = 0x80 → 0x80 ≤ b ∧ b < 0xC0) (by decide) b h

set_option maxRecDepth 10000 in
theorem utf8LeadSize_lead (h : 0xC0 ≤ b) (h' : b < 0xF8) : 2 ≤ utf8LeadSize b :=
  byte_forall (P := fun b => 0xC0 ≤ b → b < 0xF8 → 2 ≤ utf8LeadSize b) (by decide) b h h'

/-- What follows the first byte of a character of several bytes does not begin
with a character. -/
theorem ValidUtf8.tail_head (h : ValidUtf8 (d :: q)) (hd : ¬ d < 0x80) :
    0xC0 ≤ d ∧ ∃ c r, q = c :: r ∧ c &&& 0xC0 = 0x80 := by
  cases h with
  | @char _ t s hchar hs =>
    obtain ⟨hlo, hhi⟩ := hchar.lead.resolve_left hd
    have hsize := hchar.size
    have := utf8LeadSize_lead hlo hhi
    cases t with
    | nil =>
      simp only [List.length_nil] at hsize
      omega
    | cons c r => exact ⟨hlo, c, r ++ s, rfl, hchar.continuation c List.mem_cons_self⟩

theorem ValidUtf8.head_not_continuation {c : Byte} (h : ValidUtf8 (c :: s)) : ¬ c &&& 0xC0 = 0x80 := by
  intro hc
  obtain ⟨h1, h2⟩ := continuation_range hc
  cases h with
  | char hchar =>
    rcases hchar.lead with h | ⟨h, -⟩
    · exact absurd h1 (UInt8.not_le.mpr h)
    · exact absurd h2 (UInt8.not_lt.mpr h)

theorem IsCut.valid (h : IsCut B d p a dropped q) (hv : ValidUtf8 p) :
    ValidUtf8 a ∧ (if dropped then ValidUtf8 (d :: q) else ValidUtf8 q) := by
  cases h with
  | fits => exact ⟨hv, .nil⟩
  | delimiter _ hd _ =>
    have hb := hd.boundary
    rw [hd.split] at hv hb
    exact hv.of_boundary hb
  | whole _ hsplit hb =>
    rw [hsplit] at hv hb
    exact hv.of_boundary hb

/-- When all pieces are made of whole characters, only a delimiter of one byte
was dropped. -/
theorem Pieces.delimiter_of_valid (h : Pieces B d p ps) (hv : ValidUtf8 p)
    (hall : ∀ a ∈ ps.map Prod.fst, ValidUtf8 a) :
    ∀ p', Starts B d p p' → p' ≠ [] → ∀ a dropped q, IsCut B d p' a dropped q →
      dropped = true → q ≠ [] → d < 0x80 := by
  induction h with
  | nil => exact fun p' hs hp' => absurd (starts_nil hs) hp'
  | @cons p a q dropped ps hp hcut hps ih =>
    rw [starts_iff (G := fun _ dropped q => dropped = true → q ≠ [] → d < 0x80) hp hcut]
    rw [List.map_cons, List.forall_mem_cons] at hall
    obtain ⟨-, hrest⟩ := hcut.valid hv
    have hG : dropped = true → q ≠ [] → d < 0x80 := by
      rintro rfl hq
      by_contra hd
      rw [if_pos rfl] at hrest
      obtain ⟨hlo, c, r, rfl, hc⟩ := hrest.tail_head hd
      -- the next piece begins inside of the character, and is not empty
      cases hps with
      | @cons _ a' q' dropped' _ hq' hcut' hps' =>
        have hva := hall.2 a' (by simp)
        cases a' with
        | nil =>
          have hsplit := hcut'.split
          rw [List.nil_append] at hsplit
          cases dropped' with
          | true =>
            obtain ⟨rfl, -⟩ := List.cons.inj hsplit
            exact absurd (continuation_range hc).2 (UInt8.not_lt.mpr hlo)
          | false =>
            simp only [Bool.false_eq_true, if_false] at hsplit
            subst hsplit
            exact hps'.not_stuck hq' hcut'
        | cons c' a' =>
          have hsplit := hcut'.split
          obtain ⟨rfl, -⟩ := List.cons.inj hsplit
          exact hva.head_not_continuation hc
    refine ⟨hG, ?_⟩
    by_cases hq : q = []
    · subst hq
      exact fun p' hs hp' => absurd (starts_nil hs) hp'
    · refine ih ?_ hall.2
      cases dropped with
      | true => exact ValidUtf8.tail hrest (hG rfl hq)
      | false => exact hrest

/-- When only delimiters of one byte before other text are dropped, the pieces
are made of whole characters and the text is the pieces joined. -/
theorem Pieces.joined (h : Pieces B d p ps) (hv : ValidUtf8 p) (hp : p ≠ [])
    (hall : ∀ p', Starts B d p p' → p' ≠ [] → ∀ a dropped q, IsCut B d p' a dropped q →
      dropped = true → q ≠ [] ∧ d < 0x80) :
    Joined d (ps.map Prod.fst) p ∧ ∀ a ∈ ps.map Prod.fst, ValidUtf8 a := by
  induction h with
  | nil => exact absurd rfl hp
  | @cons p a q dropped ps hp hcut hps ih =>
    rw [starts_iff (G := fun _ dropped q => dropped = true → q ≠ [] ∧ d < 0x80) hp hcut] at hall
    obtain ⟨hG, hall⟩ := hall
    obtain ⟨hva, hrest⟩ := hcut.valid hv
    have hsplit := hcut.split
    rw [List.map_cons, List.forall_mem_cons]
    by_cases hq : q = []
    · subst hq
      cases dropped with
      | true => exact absurd rfl (hG rfl).1
      | false =>
        simp only [Bool.false_eq_true, if_false, List.append_nil] at hsplit
        rw [hps.eq_nil, hsplit]
        exact ⟨.one a, hva, nofun⟩
    · cases dropped with
      | true =>
        obtain ⟨hj, hvs⟩ := ih (ValidUtf8.tail hrest (hG rfl).2) hq hall
        rw [hsplit]
        exact ⟨.delimiter a hj, hva, hvs⟩
      | false =>
        obtain ⟨hj, hvs⟩ := ih hrest hq hall
        rw [hsplit]
        exact ⟨.next a hj, hva, hvs⟩

end

/-! ## Lines -/

theorem isLf_lf : isLf (ch '\n') = true := by decide

theorem isLf_false {s : Str} (h : ch '\n' ∉ s) : ∀ c ∈ s, isLf c = false := fun c hc => by
  rw [isLf, decide_eq_false_iff_not]
  rintro rfl
  exact h hc

end Wirc
