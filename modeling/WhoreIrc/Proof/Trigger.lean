import WhoreIrc.Framework.SortedInsert
import WhoreIrc.Proof.ConfigFile
import WhoreIrc.Spec.Trigger

/-!
# The triggers of a run (`triggers_run_iff`)

`string_strcasecmp` orders names as their characters (`strcasecmp_order`), so that a
name comes before the longer ones that begin with it (`strcasecmp_of_strncasecmp`)
and is found first. The length given to `string_strncasecmp` is in bytes and counts
characters: a name with longer characters is not found (`oneByteChars_of_strncasecmp`).
-/

namespace Wirc

open Framework

/-! ## The names in the search -/

section

variable {name name2 rest : Str} {max : Nat}

/-- A name with characters of one byte is found at the beginning of the name of an option. -/
theorem strncasecmp_self (hname : OneByteChars name) (rest : Str) :
    stringStrncasecmp name (name ++ rest) name.length = 0 := by
  induction name with
  | nil => rfl
  | cons c name ih =>
    obtain ⟨hc, hname⟩ := List.forall_mem_cons.mp hname
    rw [List.cons_append, List.length_cons, strncasecmp_step (List.cons_ne_nil _ _) (List.cons_ne_nil _ _),
      oneByte_next hc,
      oneByte_next hc]
    refine ⟨?_, ih hname⟩
    rw [charcasecmp_oneByte hc _ name]
    exact charcasecmp_self _

/-- What is found there is not before the name in the list. -/
theorem strcasecmp_of_strncasecmp (hname : OneByteChars name) {name2 : Str}
    (h : stringStrncasecmp name2 (name ++ rest) name.length = 0) : stringStrcasecmp name name2 ≤ 0 := by
  induction name generalizing name2 with
  | nil =>
    rw [strcasecmp_nil]
    split <;> omega
  | cons c name ih =>
    obtain ⟨hc, hname⟩ := List.forall_mem_cons.mp hname
    have h2 : name2 ≠ [] := fun h2 => by
      rw [h2] at h
      exact strncasecmp_nil (List.cons_ne_nil _ _) (Nat.succ_ne_zero _) h
    rw [List.cons_append, List.length_cons, strncasecmp_step h2 (List.cons_ne_nil _ _), oneByte_next hc,
      charcasecmp_oneByte hc _ name] at h
    have hzero : utf8Charcasecmp (c :: name) name2 = 0 := by rw [utf8Charcasecmp_swap, h.1]; rfl
    rw [strcasecmp_step (List.cons_ne_nil _ _) h2, if_pos hzero, oneByte_next hc]
    exact ih hname h.2

/-! ## Names with characters of several bytes -/

theorem wideCharLower_cases (wchar : UInt32) :
    wideCharLower wchar = wchar ∨ (wideCharLower wchar < 128 ∧ wchar < 128) := by
  rw [wideCharLower]
  split
  · rename_i h
    right
    rw [Bool.and_eq_true, decide_eq_true_eq, decide_eq_true_eq, UInt32.le_iff_toNat_le, UInt32.le_iff_toNat_le] at h
    rw [UInt32.lt_iff_toNat_lt, UInt32.lt_iff_toNat_lt, UInt32.toNat_add]
    have h1 : (65 : UInt32).toNat = 65 := rfl
    have h2 : (90 : UInt32).toNat = 90 := rfl
    have h3 : (32 : UInt32).toNat = 32 := rfl
    have h4 : (128 : UInt32).toNat = 128 := rfl
    omega
  · exact .inl rfl

set_option maxRecDepth 10000 in
/-- A byte that is alone is a negative number, and a character of several bytes is not. -/
theorem wide_alone {b : Byte} (hb : 2 ≤ utf8LeadSize b) :
    (utf8WideChar [b]).toBitVec.getLsbD 27 = true := by
  have hsize : utf8CharSize [b] = 1 := by
    rw [utf8CharSize, List.length_nil]
    omega
  rw [(wideChar_of_size b 0 0 0 []).1 hsize]
  exact byte_forall (P := fun b => 2 ≤ utf8LeadSize b → (b.toBitVec.signExtend 32).getLsbD 27 = true) (by decide) b hb

set_option maxRecDepth 10000 in
theorem wide_several {b : Byte} (hb : 2 ≤ utf8LeadSize b) (c1 c2 c3 : Byte) (rest : Str) :
    (utf8WideChar (b :: c1 :: c2 :: c3 :: rest)).toBitVec.getLsbD 27 = false := by
  have hsize : utf8CharSize (b :: c1 :: c2 :: c3 :: rest) = utf8LeadSize b := by
    have := utf8LeadSize_cases b
    simp only [utf8CharSize, List.length_cons]
    omega
  rcases utf8LeadSize_cases b with h | h | h | h
  · omega
  · rw [(wideChar_of_size b c1 0 0 _).2.1 (hsize.trans h)]
    simp
  · rw [(wideChar_of_size b c1 c2 0 _).2.2.1 (hsize.trans h)]
    simp
  · have hbit : b.toBitVec.getLsbD 3 = false :=
      byte_forall (P := fun b => utf8LeadSize b = 4 → b.toBitVec.getLsbD 3 = false) (by decide) b h
    rw [(wideChar_of_size b c1 c2 c3 _).2.2.2 (hsize.trans h)]
    simpa using hbit

theorem bit_of_lt {wchar : UInt32} (h : wchar < 128) : wchar.toBitVec.getLsbD 27 = false := by
  rw [← BitVec.testBit_toNat]
  exact Nat.testBit_lt_two_pow (Nat.lt_trans (UInt32.lt_iff_toNat_lt.mp h) (by decide))

theorem charcasecmp_alone {b : Byte} (hb : 2 ≤ utf8LeadSize b) (hrest : 3 ≤ rest.length) :
    utf8Charcasecmp [b] (b :: rest) ≠ 0 := by
  obtain _ | ⟨c1, _ | ⟨c2, _ | ⟨c3, rest⟩⟩⟩ := rest
  · cases hrest
  · simp at hrest
  · simp at hrest
  have halone := wide_alone hb
  have hseveral := wide_several hb c1 c2 c3 rest
  rw [ne_eq, charcasecmp_eq_zero]
  generalize utf8WideChar [b] = wchar1 at halone
  generalize utf8WideChar (b :: c1 :: c2 :: c3 :: rest) = wchar2 at hseveral
  intro heq
  have hsmall : ¬ wchar1 < 128 := fun h => by rw [bit_of_lt h] at halone; cases halone
  rw [(wideCharLower_cases wchar1).resolve_right fun h => hsmall h.2] at heq
  rcases wideCharLower_cases wchar2 with h | h
  · rw [heq, h, hseveral] at halone
    cases halone
  · exact hsmall (heq ▸ h.1)

/-- A string with fewer characters than those compared is not at the beginning of a longer one. -/
theorem strncasecmp_long (hrest : 4 ≤ rest.length) (hmax : utf8Strlen name < max) :
    stringStrncasecmp name (name ++ rest) max ≠ 0 := by
  induction hlength : name.length using Nat.strongRecOn generalizing name max with | ind length ih => ?_
  have hmax0 : max ≠ 0 := Nat.ne_zero_of_lt hmax
  cases name with
  | nil => exact strncasecmp_nil (List.ne_nil_of_length_pos (Nat.lt_of_lt_of_le (by decide) hrest)) hmax0
  | cons b name =>
    have hne := List.cons_ne_nil b name
    obtain ⟨max, rfl⟩ := Nat.exists_eq_succ_of_ne_zero hmax0
    rw [utf8Strlen, dif_neg hne] at hmax
    rw [List.cons_append, ne_eq, strncasecmp_step hne (List.cons_ne_nil _ _), not_and]
    intro _
    by_cases hsize : utf8LeadSize b ≤ (b :: name).length
    · have hnext : utf8NextChar (b :: (name ++ rest)) = utf8NextChar (b :: name) ++ rest := by
        rw [List.length_cons] at hsize
        have hlonger : utf8LeadSize b ≤ (name ++ rest).length + 1 := by rw [List.length_append]; omega
        rw [utf8NextChar, utf8NextChar, utf8CharSize, utf8CharSize, Nat.min_eq_left hsize, Nat.min_eq_left hlonger,
          ← List.cons_append, List.drop_append_of_le_length hsize]
      rw [hnext]
      exact ih _ (hlength ▸ utf8NextChar_length_lt hne) (Nat.lt_of_succ_lt_succ hmax) rfl
    · -- the last character is cut short
      rw [List.length_cons] at hsize
      have hnil : utf8NextChar (b :: name) = [] := by
        rw [utf8NextChar, utf8CharSize, Nat.min_eq_right (by omega)]
        exact List.drop_length
      have hlead := utf8LeadSize_cases b
      rw [hnil]
      refine strncasecmp_nil (List.ne_nil_of_length_pos ?_) (by omega)
      rw [utf8NextChar, List.length_drop, utf8CharSize, List.length_cons, List.length_append]
      omega

theorem oneByteChars_of_strncasecmp (hrest : 4 ≤ rest.length)
    (h : stringStrncasecmp name (name ++ rest) name.length = 0) : OneByteChars name := by
  induction name with
  | nil => exact fun b hb => (List.not_mem_nil hb).elim
  | cons b name ih =>
    have hstep := h
    rw [List.cons_append, List.length_cons, strncasecmp_step (List.cons_ne_nil _ _) (List.cons_ne_nil _ _)] at hstep
    by_cases hb : utf8LeadSize b = 1
    · rw [oneByte_next hb, oneByte_next hb] at hstep
      exact List.forall_mem_cons.mpr ⟨hb, ih hstep.2⟩
    · have hlead : 2 ≤ utf8LeadSize b := by
        have := utf8LeadSize_cases b
        omega
      cases name with
      | nil => exact absurd hstep.1 (charcasecmp_alone hlead (Nat.le_of_succ_le hrest))
      | cons c name =>
        refine absurd h (strncasecmp_long hrest ?_)
        have hnext := utf8Strlen_le_length (utf8NextChar (b :: c :: name))
        have hsize : 2 ≤ utf8CharSize (b :: c :: name) := by
          rw [utf8CharSize, List.length_cons]
          omega
        rw [utf8Strlen, dif_neg (List.cons_ne_nil _ _)]
        rw [utf8NextChar, List.length_drop] at hnext
        simp only [List.length_cons, utf8NextChar] at hnext ⊢
        omega

end

/-! ## The searches in a list -/

section

variable {state : Triggers} {triggers : List (Addr × Trigger)} {name : Str}

theorem TriggersLinked.find (h : TriggersLinked state triggers) (p : Trigger → Bool) :
    state.memory.find p state.triggersCount.toNat state.ends.first =
      some ((triggers.find? fun x => p x.2).map Prod.fst) := by
  rw [h.ends, h.count, Int.toNat_natCast]
  exact (h.linked.linked ()).find (Nat.le_refl _)

theorem TriggersLinked.search (h : TriggersLinked state triggers) (hname : name ≠ []) :
    triggerSearch state name =
      some ((triggers.find? fun x => stringStrcasecmp x.2.name name = 0).map Prod.fst) := by
  rw [triggerSearch, if_neg hname, h.find]

/-- A valid name has no period. -/
theorem triggerNameValid_iff : triggerNameValid name = true ↔
    name ≠ [] ∧ name.head? ≠ some (ch '-') ∧ strchr name (ch ' ') = none ∧ strchr name (ch '.') = none := by
  rw [triggerNameValid]
  by_cases hnil : name = [] ∨ name.head? = some (ch '-')
  · rw [if_pos hnil]
    exact iff_of_false Bool.false_ne_true fun h => hnil.elim h.1 h.2.1
  · rw [if_neg hnil]
    rw [not_or] at hnil
    cases hspace : strchr name (ch ' ') <;> cases hperiod : strchr name (ch '.') <;> simp [hnil]

theorem strchr_optionName (hname : strchr name (ch '.') = none) (option : Str) :
    strchr (triggerOptionName name option) (ch '.') = some (lit "." ++ option) := by
  rw [triggerOptionName, List.append_assoc, strchr_append (strchr_none.mp hname)]
  rfl

theorem TriggersLinked.searchWithOption (h : TriggersLinked state triggers) (hname : triggerNameValid name = true)
    (option : Str) :
    triggerSearchWithOption state (triggerOptionName name option) =
      some ((triggers.find? fun x =>
        stringStrncasecmp x.2.name (name ++ (lit "." ++ option)) name.length = 0).map Prod.fst) := by
  have hoff : off (triggerOptionName name option) (lit "." ++ option) = name.length := by
    rw [triggerOptionName, List.append_assoc, off_append]
  rw [triggerSearchWithOption, strchr_optionName (triggerNameValid_iff.mp hname).2.2.2]
  dsimp only
  rw [hoff, h.find, triggerOptionName, List.append_assoc]

/-- The options of a trigger lead to it if and only if its name has only characters of one byte. -/
theorem optionsLead_iff (h : TriggersLinked state triggers) {x : Addr × Trigger} (hx : x ∈ triggers) :
    OptionsLead state x ↔ OneByteChars x.2.name := by
  have hvalid := h.valid x hx
  constructor
  · intro hlead
    have hfound := hlead (lit "enabled") (List.mem_cons_self ..)
    rw [h.searchWithOption hvalid, Option.some.injEq, Option.map_eq_some_iff] at hfound
    obtain ⟨y, hy, haddr⟩ := hfound
    have hmem := List.mem_of_find?_eq_some hy
    have hdata : y.2 = x.2 := h.linked.data_unique (i := ()) (j := ()) (a := x.1) (haddr ▸ hmem) hx
    have hzero := List.find?_some hy
    rw [hdata, decide_eq_true_eq] at hzero
    exact oneByteChars_of_strncasecmp (by decide) hzero
  · intro hone option _
    obtain ⟨pre, post, rfl⟩ := List.append_of_mem hx
    have hbefore : ∀ y ∈ pre, ¬ stringStrncasecmp y.2.name (x.2.name ++ (lit "." ++ option)) x.2.name.length = 0 := by
      intro y hy hzero
      have hle := strcasecmp_of_strncasecmp hone hzero
      have hsorted := (List.pairwise_append.mp h.sorted).2.2 y hy x (List.mem_cons_self ..)
      have hne := (List.pairwise_append.mp h.distinct).2.2 y hy x (List.mem_cons_self ..)
      exact hne (Int.le_antisymm hsorted ((strcasecmp_order.le_flip _ _).mp hle))
    rw [h.searchWithOption hvalid]
    rw [List.find?_append, List.find?_eq_none.mpr fun y hy => by rw [decide_eq_true_eq]; exact hbefore y hy,
      Option.none_or,
      List.find?_cons, decide_eq_true (strncasecmp_self hone _)]
    rfl

end

/-! ## Triggers that are added and removed -/

section

variable {memory : Heap Trigger} {ends : ListEnds} {rounds : Nat} {a : Addr} {trigger : Trigger}
  {triggers pre post : List (Addr × Trigger)}

/-- Memory is in use only at the addresses of a list. -/
def InUse (memory : Heap Trigger) (triggers : List (Addr × Trigger)) : Prop :=
  ∀ b, (memory b).isSome = true → b ∈ addrs triggers

theorem isSome_congr {b : Addr} {memory memory' : Heap Trigger} (h : memory b = none ↔ memory' b = none) :
    (memory b).isSome = (memory' b).isSome := by
  rw [Bool.eq_iff_iff, Option.isSome_iff_ne_none, Option.isSome_iff_ne_none, ne_eq, h]

theorem mem_addrs_middle {b : Addr} : b ∈ addrs (pre ++ (a, trigger) :: post) ↔ b = a ∨ b ∈ addrs (pre ++ post) := by
  simp only [List.map_append, List.map_cons, List.mem_append, List.mem_cons]
  exact or_left_comm

/-- Where a trigger goes in the list. -/
def placed (a : Addr) (trigger : Trigger) (triggers : List (Addr × Trigger)) : List (Addr × Trigger) :=
  insertBefore (fun x => stringStrcasecmp trigger.name x.2.name < 0) (a, trigger) triggers

theorem store_free (memory : Heap Trigger) (a : Addr) (node : Node Trigger) :
    (memory.free a).store a node = memory.store a node :=
  Function.update_idem ..

/-- `trigger_add` puts a trigger that is not in the list at its place. -/
theorem triggerAdd_ok (trigger : Trigger) (hl : Lists (memory.free a) fun _ : Unit => triggers)
    (he : ends = endsOf triggers)
    (hrounds : triggers.length ≤ rounds) (huse : InUse (memory.free a) triggers) :
    ∃ memory', triggerAdd rounds memory ends a trigger = some (memory', endsOf (placed a trigger triggers)) ∧
      (Lists memory' fun _ : Unit => placed a trigger triggers) ∧ InUse memory' (placed a trigger triggers) := by
  have hnone : (memory.free a) a = none := Function.update_self ..
  have hnot : a ∉ addrs triggers := fun ha => (hl.linked ()).allocated ha hnone
  have hseg : Seg memory none triggers none := (hl.linked ()).frame fun b hb =>
    (Heap.free_of_ne fun hba : b = a => hnot (hba ▸ hb)).symm
  obtain ⟨pre, post, rfl, hplaced, hpre, hpost⟩ :=
    insertBefore_split (fun x => decide (stringStrcasecmp trigger.name x.2.name < 0)) (a, trigger) triggers
  have hplaced : placed a trigger (pre ++ post) = pre ++ (a, trigger) :: post := hplaced
  have hfind : triggerFindPos rounds memory trigger ends.first = some (post.head?.map Prod.fst) := by
    have hfound : (pre ++ post).find? (fun x => decide (stringStrcasecmp trigger.name x.2.name < 0)) = post.head? := by
      rw [List.find?_append, List.find?_eq_none.mpr fun y hy => by rw [hpre y hy]; exact Bool.false_ne_true,
        Option.none_or]
      cases post with
      | nil => rfl
      | cons y post => exact List.find?_cons_of_pos (hpost y rfl)
    rw [triggerFindPos, he, endsOf, hseg.find hrounds, hfound]
  refine ⟨((memory.store a ⟨trigger, lastPtr none pre, firstPtr post none⟩).setPrev (firstPtr post none) (some a)).setNext
      (lastPtr none pre) (some a), ?_, ?_, fun b hb => ?_⟩
  · rw [triggerAdd, hfind, hplaced]
    cases post with
    | nil =>
      rw [he, List.append_nil]
      cases pre with
      | nil => rfl
      | cons x pre =>
        rw [endsOf, endsOf, lastPtr_append, if_pos lastPtr_cons_isSome]
        rfl
    | cons y post => exact linkBefore_eq he hseg
  · have hinsert := hl.insert (i := ()) rfl hnone trigger
    rw [store_free, Function.update_eq_const_of_subsingleton] at hinsert
    rw [hplaced]
    exact hinsert
  · rw [isSome_congr (Heap.setNext_eq_none.trans Heap.setPrev_eq_none)] at hb
    rw [hplaced, mem_addrs_middle]
    by_cases hba : b = a
    · exact .inl hba
    · rw [Heap.store_of_ne hba, ← Heap.free_of_ne (h := memory) hba] at hb
      exact .inr (huse b hb)

/-- A trigger taken out of the list. -/
theorem unlinked_ok (hl : Lists memory fun _ : Unit => pre ++ (a, trigger) :: post)
    (huse : InUse memory (pre ++ (a, trigger) :: post)) :
    (Lists (((memory.setNext (lastPtr none pre) (firstPtr post none)).setPrev (firstPtr post none)
        (lastPtr none pre)).free a) fun _ : Unit => pre ++ post) ∧
      InUse (((memory.setNext (lastPtr none pre) (firstPtr post none)).setPrev (firstPtr post none)
        (lastPtr none pre)).free a) (pre ++ post) := by
  refine ⟨?_, fun b hb => ?_⟩
  · have hunlink := hl.unlink (i := ()) rfl
    rw [Function.update_eq_const_of_subsingleton] at hunlink
    exact hunlink
  · by_cases hba : b = a
    · rw [hba, Heap.free, Function.update_self] at hb
      cases hb
    · rw [Heap.free_of_ne hba, isSome_congr (Heap.setPrev_eq_none.trans Heap.setNext_eq_none)] at hb
      exact (mem_addrs_middle.mp (huse b hb)).resolve_left hba

end

/-! ## One step -/

section

variable {state : Triggers} {triggers pre post : List (Addr × Trigger)} {a : Addr} {trigger : Trigger} {name : Str}

theorem mem_placed {x : Addr × Trigger} :
    x ∈ placed a trigger triggers ↔ x = (a, trigger) ∨ x ∈ triggers := mem_insertBefore

/-- The names with one that was not found among them. -/
theorem placed_ok {memory : Heap Trigger} {count : Int}
    (hl : Lists memory fun _ : Unit => placed a ⟨name⟩ triggers) (huse : InUse memory (placed a ⟨name⟩ triggers))
    (hcount : count = triggers.length + 1) (hvalid : ∀ x ∈ triggers, triggerNameValid x.2.name = true)
    (hname : triggerNameValid name = true) (hsorted : triggers.Pairwise fun x y => stringStrcasecmp x.2.name y.2.name ≤ 0)
    (hdistinct : triggers.Pairwise fun x y => stringStrcasecmp x.2.name y.2.name ≠ 0)
    (hnew : ∀ x ∈ triggers, stringStrcasecmp x.2.name name ≠ 0) :
    TriggersLinked ⟨memory, endsOf (placed a ⟨name⟩ triggers), count⟩ (placed a ⟨name⟩ triggers) := by
  have hperm : (placed a ⟨name⟩ triggers).Perm ((a, ⟨name⟩) :: triggers) := insertBefore_perm _ _ _
  refine ⟨hl, huse, rfl, ?_, fun x hx => ?_, ?_, ?_⟩
  · rw [hperm.length_eq]
    exact hcount
  · rcases mem_placed.mp hx with rfl | hx
    · exact hname
    · exact hvalid x hx
  · refine pairwise_insertBefore (fun x y z => strcasecmp_order.trans _ _ _) (fun y hy => ?_) (fun y hy => ?_) hsorted
    · exact Int.le_of_lt (of_decide_eq_true hy)
    · exact (strcasecmp_order.le_flip _ _).mpr (Int.not_lt.mp (of_decide_eq_false hy))
  · refine (hperm.pairwise_iff fun {x y} hxy => ?_).mpr (List.pairwise_cons.mpr ⟨fun x hx => ?_, hdistinct⟩)
    · exact fun h => hxy (strcasecmp_order.symm h)
    · exact fun h => hnew x hx (strcasecmp_order.symm h)

theorem placed_oneByte (hone : ∀ x ∈ triggers, OneByteChars x.2.name) :
    (∀ x ∈ placed a ⟨name⟩ triggers, OneByteChars x.2.name) ↔ OneByteChars name := by
  refine ⟨fun h => h (a, ⟨name⟩) (mem_placed.mpr (.inl rfl)), fun hname x hx => ?_⟩
  rcases mem_placed.mp hx with rfl | hx
  · exact hname
  · exact hone x hx

/-- A name that is not found is not that of a trigger. -/
theorem TriggersLinked.new_name (h : TriggersLinked state triggers) (hname : name ≠ [])
    (hsearch : triggerSearch state name = some none) : ∀ x ∈ triggers, stringStrcasecmp x.2.name name ≠ 0 := by
  rw [h.search hname, Option.some.injEq, Option.map_eq_none_iff] at hsearch
  intro x hx hzero
  exact List.find?_eq_none.mp hsearch x hx (decide_eq_true hzero)

/-- A trigger is created if its name is valid and new, and there is memory for it. -/
theorem triggerNew_ok (h : TriggersLinked state triggers) (a : Addr) (name : Str) :
    ∃ state', triggerNewWithOptions state a name = some state' ∧
      TriggersLinked state'
        (if triggerNameValid name = true ∧ triggerSearch state name = some none ∧ state.memory a = none then
          placed a ⟨name⟩ triggers else triggers) := by
  rw [triggerNewWithOptions, triggerAlloc]
  by_cases hvalid : triggerNameValid name = true
  swap
  · rw [if_pos (by simpa using hvalid), if_neg fun hand => hvalid hand.1]
    exact ⟨state, rfl, h⟩
  rw [if_neg (by simpa using hvalid)]
  have hname := (triggerNameValid_iff.mp hvalid).1
  have hsearch := h.search hname
  cases hfind : triggers.find? fun x => stringStrcasecmp x.2.name name = 0 with
  | some x =>
    rw [hfind, Option.map_some] at hsearch
    rw [hsearch, if_neg fun hand => by cases hand.2.1]
    exact ⟨state, rfl, h⟩
  | none =>
    rw [hfind, Option.map_none] at hsearch
    rw [hsearch]
    cases hmalloc : state.memory.malloc a with
    | none =>
      rw [if_neg]
      · exact ⟨state, rfl, h⟩
      · rintro ⟨-, -, hfree⟩
        rw [Heap.malloc, if_pos hfree] at hmalloc
        cases hmalloc
    | some b =>
      obtain ⟨hfree, rfl⟩ := Heap.malloc_eq_some.mp hmalloc
      have hmemory : state.memory.free b = state.memory := by
        rw [Heap.free, ← hfree, Function.update_eq_self]
      obtain ⟨memory', hadd, hl', huse'⟩ := triggerAdd_ok ⟨name⟩ (hmemory.symm ▸ h.linked) h.ends
        (Nat.le_of_eq (congrArg Int.toNat h.count).symm) (hmemory.symm ▸ h.only)
      rw [if_pos ⟨hvalid, rfl, hfree⟩, Option.map_some]
      dsimp only
      rw [hadd]
      exact ⟨_, rfl, placed_ok hl' huse' (by rw [h.count]) h.valid hvalid h.sorted h.distinct (h.new_name hname hsearch)⟩

/-- The trigger at an address in use, between what is before it and what is after it. -/
theorem TriggersLinked.split (h : TriggersLinked state triggers) (ha : (state.memory a).isSome = true) :
    ∃ pre trigger post, triggers = pre ++ (a, trigger) :: post ∧
      state.memory a = some ⟨trigger, lastPtr none pre, firstPtr post none⟩ := by
  obtain ⟨pre, trigger, post, heq, hnode⟩ := h.linked.node (i := ()) (h.only a ha)
  exact ⟨pre, trigger, post, heq, hnode⟩

theorem triggerFree_ok (h : TriggersLinked state (pre ++ (a, trigger) :: post)) :
    ∃ state', triggerFree state a = some state' ∧ TriggersLinked state' (pre ++ post) := by
  have hunlink := unlinkNode_eq h.ends (h.linked.linked ()) (h.linked.nodup ())
  obtain ⟨hl', huse'⟩ := unlinked_ok h.linked h.only
  have hsub : (pre ++ post).Sublist (pre ++ (a, trigger) :: post) := (List.sublist_cons_self _ _).append_left _
  rw [triggerFree, hunlink]
  refine ⟨_, rfl, hl', huse', rfl, ?_, fun x hx => h.valid x (hsub.subset hx), h.sorted.sublist hsub,
    h.distinct.sublist hsub⟩
  show state.triggersCount - 1 = _
  rw [h.count, List.length_append, List.length_append, List.length_cons]
  omega

/-- The ends of the list without a trigger. -/
theorem ends_without {trigger' : Trigger} :
    ListEnds.mk (if (lastPtr none pre).isSome then (endsOf (pre ++ (a, trigger') :: post)).first else firstPtr post none)
      (if (firstPtr post none).isSome then (endsOf (pre ++ (a, trigger') :: post)).last else lastPtr none pre) =
        endsOf (pre ++ post) := by
  rw [endsOf, endsOf, ListEnds.mk.injEq]
  constructor
  · cases pre with
    | nil => rfl
    | cons x pre =>
      rw [if_pos lastPtr_cons_isSome]
      rfl
  · cases post with
    | nil =>
      rw [List.append_nil]
      rfl
    | cons y post =>
      rw [firstPtr_cons, Option.isSome_some, if_pos rfl, lastPtr_append_of_ne (List.cons_ne_nil _ _),
        lastPtr_append_of_ne (List.cons_ne_nil _ _), lastPtr_cons_ne (List.cons_ne_nil _ _)]

/-- A trigger is renamed, and goes to its new place, if the name is valid and new. -/
theorem triggerRename_ok (h : TriggersLinked state (pre ++ (a, trigger) :: post)) (name : Str) :
    ∃ result, triggerRename state a name = some result ∧
      TriggersLinked result.2
        (if triggerNameValid name = true ∧ triggerSearch state name = some none then placed a ⟨name⟩ (pre ++ post)
          else pre ++ (a, trigger) :: post) := by
  rw [triggerRename]
  by_cases hvalid : triggerNameValid name = true
  swap
  · rw [if_pos (.inr (Bool.eq_false_iff.mpr hvalid)), if_neg fun hand => hvalid hand.1]
    exact ⟨_, rfl, h⟩
  have hname := (triggerNameValid_iff.mp hvalid).1
  have hsearch := h.search hname
  rw [if_neg fun hor => hor.elim hname fun hfalse => Bool.false_ne_true (hfalse ▸ hvalid)]
  cases hfind : (pre ++ (a, trigger) :: post).find? fun x => stringStrcasecmp x.2.name name = 0 with
  | some x =>
    rw [hfind, Option.map_some] at hsearch
    rw [hsearch, if_neg fun hand => by cases hand.2]
    exact ⟨_, rfl, h⟩
  | none =>
    rw [hfind, Option.map_none] at hsearch
    have hnew : ∀ x ∈ pre ++ post, stringStrcasecmp x.2.name name ≠ 0 := fun x hx =>
      h.new_name hname hsearch x (((List.sublist_cons_self _ _).append_left _).subset hx)
    have hsub : (pre ++ post).Sublist (pre ++ (a, trigger) :: post) := (List.sublist_cons_self _ _).append_left _
    have hdata : Lists (state.memory.setData a ⟨name⟩) _ := h.linked.setData (i := ()) rfl
    rw [Function.update_eq_const_of_subsingleton] at hdata
    have huse : InUse (state.memory.setData a ⟨name⟩) (pre ++ (a, ⟨name⟩) :: post) := fun b hb => by
      rw [Heap.setData, isSome_congr Heap.modify_eq_none] at hb
      exact mem_addrs_middle.mpr (mem_addrs_middle.mp (h.only b hb))
    obtain ⟨hl, huse⟩ := unlinked_ok hdata huse
    have hnode := (seg_append.mp (hdata.linked ())).2.1
    rw [hsearch, if_pos ⟨hvalid, rfl⟩]
    dsimp only
    rw [hnode]
    dsimp only
    have hends : ListEnds.mk (if (lastPtr none pre).isSome then state.ends.first else firstPtr post none)
        (if (firstPtr post none).isSome then state.ends.last else lastPtr none pre) = endsOf (pre ++ post) := by
      rw [h.ends]
      exact ends_without
    have hcount : state.triggersCount = (pre ++ post).length + 1 := by
      rw [h.count, List.length_append, List.length_append, List.length_cons]
      omega
    have hrounds : (pre ++ post).length ≤ state.triggersCount.toNat := by omega
    obtain ⟨memory', hadd, hl', huse'⟩ := triggerAdd_ok ⟨name⟩ hl hends hrounds huse
    rw [hadd]
    exact ⟨_, rfl, placed_ok hl' huse' hcount (fun x hx => h.valid x (hsub.subset hx)) hvalid (h.sorted.sublist hsub)
      (h.distinct.sublist hsub) hnew⟩

end

/-! ## Runs -/

section

variable {state : Triggers} {triggers triggers' : List (Addr × Trigger)}

/-- There is one list of triggers in a state. -/
theorem TriggersLinked.mem_of_mem (h : TriggersLinked state triggers) (h' : TriggersLinked state triggers')
    {x : Addr × Trigger} (hx : x ∈ triggers) : x ∈ triggers' := by
  obtain ⟨node, hnode, hdata⟩ := (h.linked.linked ()).mem (a := x.1) (d := x.2) hx
  obtain ⟨pre, trigger, post, rfl, hnode'⟩ := h'.split (a := x.1) (by rw [hnode]; rfl)
  rw [hnode] at hnode'
  cases hnode'
  cases hdata
  exact List.mem_append_right _ (List.mem_cons_self ..)

theorem triggersOk_iff (h : TriggersLinked state triggers) :
    TriggersOk state ↔ ∀ x ∈ triggers, OneByteChars x.2.name := by
  constructor
  · rintro ⟨triggers', h', hlead⟩ x hx
    exact (optionsLead_iff h hx).mp (hlead x (h.mem_of_mem h' hx))
  · intro hone
    exact ⟨triggers, h, fun x hx => (optionsLead_iff h hx).mpr (hone x hx)⟩

theorem triggersInit_linked : TriggersLinked triggersInit [] where
  linked := ⟨fun _ => trivial, fun _ => List.nodup_nil, fun _ _ hne => absurd rfl hne⟩
  only _ h := by cases h
  ends := rfl
  count := rfl
  valid _ h := (List.not_mem_nil h).elim
  sorted := List.Pairwise.nil
  distinct := List.Pairwise.nil

/-- The triggers after a step: those before it, but for one that is freed or renamed, and one with a new name. -/
theorem triggerStep_ok (h : TriggersLinked state triggers) (op : TriggerOp) :
    ∃ state' triggers', triggerStep state op = some state' ∧ TriggersLinked state' triggers' ∧
      ((∀ x ∈ triggers, OneByteChars x.2.name) →
        ((∀ x ∈ triggers', OneByteChars x.2.name) ↔ GivesOneByteChars state op)) := by
  cases op with
  | new newTrigger name =>
    obtain ⟨state', hstep, h'⟩ := triggerNew_ok h newTrigger name
    refine ⟨state', _, hstep, h', fun hone => ?_⟩
    rw [GivesOneByteChars]
    split
    · rename_i hnew
      rw [forall_prop_of_true hnew]
      exact placed_oneByte hone
    · rename_i hnew
      exact iff_of_true hone fun hand => absurd hand hnew
  | rename trigger name =>
    rw [triggerStep, GivesOneByteChars]
    by_cases hmem : (state.memory trigger).isSome = true
    · obtain ⟨pre, trigger', post, rfl, -⟩ := h.split hmem
      obtain ⟨result, hrename, h'⟩ := triggerRename_ok h name
      rw [if_pos hmem, hrename]
      refine ⟨_, _, rfl, h', fun hone => ?_⟩
      split
      · rename_i hnew
        rw [forall_prop_of_true ⟨hnew.1, hnew.2, hmem⟩]
        exact placed_oneByte fun x hx => hone x (((List.sublist_cons_self _ _).append_left _).subset hx)
      · rename_i hnew
        exact iff_of_true hone fun hand => absurd ⟨hand.1, hand.2.1⟩ hnew
    · rw [if_neg hmem]
      exact ⟨state, triggers, rfl, h, fun hone => iff_of_true hone fun hand => absurd hand.2.2 hmem⟩
  | free trigger =>
    rw [triggerStep]
    by_cases hmem : (state.memory trigger).isSome = true
    · obtain ⟨pre, trigger', post, rfl, -⟩ := h.split hmem
      obtain ⟨state', hfree, h'⟩ := triggerFree_ok h
      rw [if_pos hmem]
      exact ⟨state', _, hfree, h', fun hone => iff_of_true
        (fun x hx => hone x (((List.sublist_cons_self _ _).append_left _).subset hx)) trivial⟩
    · rw [if_neg hmem]
      exact ⟨state, triggers, rfl, h, fun hone => iff_of_true hone trivial⟩

/-- Whatever the names are, the list is right after any run, and the options of a
trigger lead to it if and only if its name has only characters of one byte. -/
theorem triggers_run (ops : List TriggerOp) :
    ∃ state, ops.foldlM triggerStep triggersInit = some state ∧ ∃ triggers, TriggersLinked state triggers ∧
      ∀ x ∈ triggers, OptionsLead state x ↔ OneByteChars x.2.name := by
  obtain ⟨state, hrun, triggers, h⟩ := foldlM_invariant (I := fun state => ∃ triggers, TriggersLinked state triggers)
    (fun state op ⟨triggers, h⟩ => by
      obtain ⟨state', triggers', hstep, h', -⟩ := triggerStep_ok h op
      exact ⟨state', hstep, triggers', h'⟩) ⟨[], triggersInit_linked⟩ ops
  exact ⟨state, hrun, triggers, h, fun x hx => optionsLead_iff h hx⟩

/-- In all states of a run the options lead to their triggers if and only if each name
that is given has only characters of one byte. -/
theorem triggers_run_iff (ops : List TriggerOp) :
    (∀ before after, ops = before ++ after →
        ∃ state, before.foldlM triggerStep triggersInit = some state ∧ TriggersOk state) ↔
      AlongM triggerStep GivesOneByteChars triggersInit ops := by
  refine alongM_states_iff (fun state op hok => ?_) ⟨[], triggersInit_linked, fun _ h => (List.not_mem_nil h).elim⟩ ops
  obtain ⟨triggers, h, hlead⟩ := hok
  have hone := (triggersOk_iff h).mp ⟨triggers, h, hlead⟩
  obtain ⟨state', triggers', hstep, h', hgives⟩ := triggerStep_ok h op
  rw [← hgives hone, ← triggersOk_iff h', hstep]
  simp

/-- The name of two bytes is not found at the beginning of the names of its options. -/
theorem triggers_fail : triggerNameValid [0xC3, 0xA9] = true ∧
    ([TriggerOp.new 1 [0xC3, 0xA9]].foldlM triggerStep triggersInit).map (fun state =>
        (state.ends.first, state.triggersCount,
          triggerSearchWithOption state (triggerOptionName [0xC3, 0xA9] (lit "enabled")))) =
      some (some 1, 1, some none) := by
  decide

end

end Wirc
