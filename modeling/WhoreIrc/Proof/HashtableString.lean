import WhoreIrc.Proof.Hashtable
import WhoreIrc.Proof.StringCase
import WhoreIrc.Spec.Hashtable

/-!
# Which tables are listed (`hashtable_listing_iff`)

The sorted list of the string forms of the keys is `sortedItems`. The string that is
built from it puts together the entries of the keys that are read there
(`buildSorted_foldlM`), and is the listing only if these are the keys of the table
(`keyAt_of_intercalate`).
-/

namespace Wirc

open Framework

variable {typeKeys : HashtableType}

/-! ## The string forms -/

theorem toString_keyText (h : Listable typeKeys) (key : HashtableKey typeKeys) :
    hashtableToString typeKeys key = some (keyText key) := by
  rcases h with rfl | rfl | rfl
  · rfl
  · rfl
  · rfl

theorem fmtInt_injective_long {x y : Int} (hx : longMin ≤ x ∧ x ≤ longMax) (hy : longMin ≤ y ∧ y ≤ longMax)
    (h : fmtInt x = fmtInt y) : x = y := by
  have hread := congrArg strtol h
  rw [strtol_fmtInt hx.1 hx.2, strtol_fmtInt hy.1 hy.2] at hread
  exact congrArg Prod.fst hread

theorem keyText_injective (h : Listable typeKeys) {key key' : HashtableKey typeKeys} (heq : keyText key = keyText key') :
    key = key' := by
  rcases h with rfl | rfl | rfl
  · have hrange (key : Int32) : longMin ≤ key.toInt ∧ key.toInt ≤ longMax := by
      have := key.le_toInt
      have := key.toInt_lt
      rw [longMin, longMax]
      omega
    exact Int32.toInt_inj.mp (fmtInt_injective_long (hrange key) (hrange key') heq)
  · exact heq
  · have hrange (key : Int64) : longMin ≤ key.toInt ∧ key.toInt ≤ longMax := by
      have := key.le_toInt
      have := key.toInt_lt
      rw [longMin, longMax]
      omega
    exact Int64.toInt_inj.mp (fmtInt_injective_long (hrange key) (hrange key') heq)

set_option maxRecDepth 10000 in
theorem fmtInt_letters (x : Int) : ∀ c ∈ fmtInt x, c ≠ ch ',' ∧ c ≠ ch ':' ∧ lowerByte c = c := by
  intro c hc
  rcases fmtInt_bytes hc with hdigit | rfl
  · exact byte_forall (P := fun c => isdigit c = true → c ≠ ch ',' ∧ c ≠ ch ':' ∧ lowerByte c = c) (by decide) c
      hdigit
  · decide

/-- The string form of a number has no separator and no letter. -/
theorem keyText_bytes (h : Listable typeKeys) (hstring : typeKeys ≠ .string) (key : HashtableKey typeKeys) :
    ∀ c ∈ keyText key, c ≠ ch ',' ∧ c ≠ ch ':' ∧ lowerByte c = c := by
  rcases h with rfl | rfl | rfl
  · exact fmtInt_letters _
  · exact absurd rfl hstring
  · exact fmtInt_letters _

/-! ## The list of keys -/

section

variable {V : Type} {items : List (ItemData (HashtableKey typeKeys) V)}

/-- An item is put in a sorted list. -/
def insertItem (list : List (ItemData (HashtableKey typeKeys) V)) (item : ItemData (HashtableKey typeKeys) V) :
    List (ItemData (HashtableKey typeKeys) V) :=
  insertBefore (fun x => stringStrcasecmp (keyText item.key) (keyText x.key) < 0) item list

/-- The items in the order of the string forms of their keys. -/
def sortedItems (items : List (ItemData (HashtableKey typeKeys) V)) : List (ItemData (HashtableKey typeKeys) V) :=
  items.foldl insertItem []

theorem foldl_insertItem_perm (list : List (ItemData (HashtableKey typeKeys) V)) :
    (items.foldl insertItem list).Perm (list ++ items) := by
  induction items generalizing list with
  | nil => rw [List.append_nil]; exact List.Perm.refl _
  | cons item items ih =>
    exact (ih _).trans (((insertBefore_perm _ _ _).append_right items).trans List.perm_middle.symm)

theorem sortedItems_perm (items : List (ItemData (HashtableKey typeKeys) V)) : (sortedItems items).Perm items :=
  foldl_insertItem_perm []

theorem foldl_insertItem_sorted {list : List (ItemData (HashtableKey typeKeys) V)}
    (h : list.Pairwise fun x y => stringStrcasecmp (keyText x.key) (keyText y.key) ≤ 0) :
    (items.foldl insertItem list).Pairwise fun x y => stringStrcasecmp (keyText x.key) (keyText y.key) ≤ 0 := by
  induction items generalizing list with
  | nil => exact h
  | cons item items ih =>
    refine ih (pairwise_insertBefore (fun a b c => strcasecmp_trans) (fun y hy => ?_) (fun y hy => ?_) h)
    · have := of_decide_eq_true hy
      omega
    · have := of_decide_eq_false hy
      rw [strcasecmp_swap]
      omega

theorem sortedItems_sorted (items : List (ItemData (HashtableKey typeKeys) V)) :
    (sortedItems items).Pairwise fun x y => stringStrcasecmp (keyText x.key) (keyText y.key) ≤ 0 :=
  foldl_insertItem_sorted List.Pairwise.nil

/-- A key that is not in the list is put in it. -/
theorem weelistAddSorted_item {list : List (ItemData (HashtableKey typeKeys) V)} {item : ItemData (HashtableKey typeKeys) V}
    (hne : keyText item.key ≠ []) (hnew : ∀ x ∈ list, keyText x.key ≠ keyText item.key) :
    weelistAddSorted (list.map fun x => keyText x.key) (keyText item.key) =
      (insertItem list item).map fun x => keyText x.key := by
  have hkeep : (list.map fun x => keyText x.key).eraseP (fun ptrItem => strcmp (keyText item.key) ptrItem = 0) =
      list.map fun x => keyText x.key := by
    refine List.eraseP_of_forall_not fun text htext hcmp => ?_
    obtain ⟨x, hx, rfl⟩ := List.mem_map.mp htext
    exact hnew x hx (strcmp_order.eq _ _ (of_decide_eq_true hcmp)).symm
  rw [weelistAddSorted, if_neg hne, hkeep, insertItem]
  exact (map_insertBefore (fun x : ItemData (HashtableKey typeKeys) V => keyText x.key)
    (fun text => stringStrcasecmp (keyText item.key) text < 0) item list).symm

/-- The sorted keys of a table. -/
theorem foldlM_weelistAddSorted (h : Listable typeKeys) {list : List (ItemData (HashtableKey typeKeys) V)}
    (hne : ∀ x ∈ items, keyText x.key ≠ []) (hkeys : (list ++ items).Pairwise fun x y => x.key ≠ y.key) :
    items.foldlM (fun list item => (hashtableToString typeKeys item.key).map (weelistAddSorted list))
        (list.map fun x => keyText x.key) =
      some ((items.foldl insertItem list).map fun x => keyText x.key) := by
  induction items generalizing list with
  | nil => rfl
  | cons item items ih =>
    obtain ⟨hitem, hne⟩ := List.forall_mem_cons.mp hne
    have hnew : ∀ x ∈ list, keyText x.key ≠ keyText item.key := fun x hx heq =>
      (List.pairwise_append.mp hkeys).2.2 x hx item (List.mem_cons_self ..) (keyText_injective h heq)
    rw [List.foldlM_cons, toString_keyText h]
    simp only [Option.map_some, Option.bind_eq_bind, Option.bind_some, weelistAddSorted_item hitem hnew]
    refine ih hne ?_
    have hperm : (insertItem list item ++ items).Perm (list ++ item :: items) :=
      ((insertBefore_perm _ _ _).append_right items).trans List.perm_middle.symm
    exact (hperm.pairwise_iff fun {x y} h => h.symm).mpr hkeys

end

/-! ## The string -/

section

variable {size : Nat} {str : Str} {key : HashtableKey typeKeys} {value : Option (HashtableKey .string)}

/-- An entry is put at the end of a listing. -/
def listingAppend (str text : Str) : Str := (if str = [] then [] else str ++ lit ",") ++ text

/-- A string that is put at the end of another one, if it has room. -/
def ifRoom (size : Nat) (str : Str) : Option Str := if str.length < size then some str else none

theorem strcatIn_eq (size : Nat) (str s : Str) : strcatIn size str s = ifRoom size (str ++ s) := by
  rw [strcatIn, ifRoom, List.length_append]

/-- Strings are put one after the other if the whole has room. -/
theorem ifRoom_bind (size : Nat) (str s : Str) :
    ((ifRoom size str).bind fun str => strcatIn size str s) = ifRoom size (str ++ s) := by
  rw [ifRoom]
  split
  · exact strcatIn_eq size str s
  · rename_i hroom
    rw [ifRoom, if_neg (by rw [List.length_append]; omega)]
    rfl

theorem buildComma_bind (size : Nat) (str text : Str) :
    ((hashtableBuildComma size str).bind fun str => strcatIn size str text) = ifRoom size (listingAppend str text) := by
  rw [hashtableBuildComma, listingAppend]
  by_cases hstr : str = []
  · rw [if_neg (not_not.mpr hstr), if_pos hstr, hstr]
    exact strcatIn_eq size [] text
  · rw [if_pos hstr, if_neg hstr, strcatIn_eq]
    exact ifRoom_bind size _ text

theorem buildValue_eq (size : Nat) (str : Str) (value : Option (HashtableKey .string)) :
    hashtableBuildValue size str value = strcatIn size str (value.getD (lit "(null)")) := by
  cases value with
  | none => rfl
  | some value => rfl

/-- An entry with a value. -/
theorem buildKeysValues_eq (h : Listable typeKeys) :
    hashtableBuildStringKeysValuesCb size str key value = ifRoom size (listingAppend str (entryText true ⟨key, value⟩)) := by
  have hentry : listingAppend str (entryText true ⟨key, value⟩) =
      listingAppend str (keyText key) ++ lit ":" ++ value.getD (lit "(null)") := by
    rw [entryText, if_pos rfl, listingAppend, listingAppend]
    simp only [List.append_assoc]
  rw [hentry, hashtableBuildStringKeysValuesCb, ← ifRoom_bind, ← ifRoom_bind, ← buildComma_bind]
  simp only [toString_keyText h, buildValue_eq, Option.bind_eq_bind, Option.bind_some, Option.bind_assoc]

theorem buildKeys_eq (h : Listable typeKeys) :
    hashtableBuildStringKeysCb size str key = ifRoom size (listingAppend str (entryText false ⟨key, value⟩)) := by
  rw [hashtableBuildStringKeysCb, toString_keyText h, entryText, if_neg Bool.false_ne_true, ← buildComma_bind]
  simp only [Option.bind_eq_bind, Option.bind_some]

variable {hashtable : Hashtable (HashtableKey typeKeys) (HashtableKey .string)}
  {m : HashtableKey typeKeys → Option (Option Str)} {values : Bool}

/-- The entry of the key that is read at the address of a string. -/
def entryAt (values : Bool) (m : HashtableKey typeKeys → Option (Option Str)) (data : Str) : Option Str :=
  (hashtableKeyAt typeKeys data).map fun key => entryText values ⟨key, (m key).join⟩

theorem buildSorted_eq (h : Listable typeKeys) (hm : Refines hashtable m) (data : Str) :
    hashtableBuildSorted hashtable values size str data =
      (entryAt values m data).bind fun text => ifRoom size (listingAppend str text) := by
  rw [hashtableBuildSorted, entryAt, Option.bind_map]
  refine congrArg (Option.bind (hashtableKeyAt typeKeys data)) (funext fun key => ?_)
  cases values with
  | false => exact buildKeys_eq h
  | true =>
    rw [if_pos rfl, hm.get]
    exact buildKeysValues_eq h

theorem listingAppend_ne_nil {text : Str} (htext : text ≠ []) : listingAppend str text ≠ [] :=
  List.append_ne_nil_of_right_ne_nil _ htext

theorem listingAppend_intercalate {done : List Str} (hdone : ∀ text ∈ done, text ≠ []) (text : Str) :
    listingAppend ((lit ",").intercalate done) text = (lit ",").intercalate (done ++ [text]) := by
  rw [listingAppend]
  cases done with
  | nil => rw [List.intercalate_nil, if_pos rfl, List.nil_append, List.nil_append, List.intercalate_singleton]
  | cons first done =>
    have hne : (lit ",").intercalate (first :: done) ≠ [] := by
      have hfirst := hdone first (List.mem_cons_self ..)
      cases done with
      | nil => rwa [List.intercalate_singleton]
      | cons second done =>
        rw [List.intercalate_cons_cons, List.append_assoc]
        exact List.append_ne_nil_of_left_ne_nil hfirst _
    rw [if_neg hne, intercalate_concat _ _ (List.cons_ne_nil _ _), List.append_assoc]

/-- The string that is built holds the entries that are read. -/
theorem buildSorted_foldlM (h : Listable typeKeys) (hm : Refines hashtable m) {list : List Str}
    (hne : ∀ data ∈ list, ∀ text, entryAt values m data = some text → text ≠ []) {done : List Str}
    (hdone : ∀ text ∈ done, text ≠ []) {str : Str} :
    list.foldlM (hashtableBuildSorted hashtable values size) ((lit ",").intercalate done) = some str ↔
      ∃ texts, list.mapM (entryAt values m) = some texts ∧ str = (lit ",").intercalate (done ++ texts) ∧
        (list ≠ [] → str.length < size) := by
  induction list generalizing done with
  | nil =>
    constructor
    · intro hfold
      cases hfold
      exact ⟨[], rfl, by rw [List.append_nil], fun h => absurd rfl h⟩
    · rintro ⟨texts, htexts, rfl, -⟩
      cases htexts
      simp only [List.reverse_nil, List.append_nil]
      rfl
  | cons data list ih =>
    obtain ⟨hdata, hne⟩ := List.forall_mem_cons.mp hne
    rw [List.foldlM_cons, List.mapM_cons, buildSorted_eq h hm]
    simp only [Option.bind_eq_bind]
    cases htext : entryAt values m data with
    | none => exact iff_of_false (fun hfold => by cases hfold) fun ⟨texts, htexts, _⟩ => by cases htexts
    | some text =>
      have hdone' : ∀ text' ∈ done ++ [text], text' ≠ [] := fun text' htext' => by
        rcases List.mem_append.mp htext' with hold | hnew
        · exact hdone text' hold
        · rw [List.mem_singleton.mp hnew]
          exact hdata text htext
      simp only [Option.bind_some, listingAppend_intercalate hdone, ifRoom]
      split
      · rename_i hroom
        rw [Option.bind_some, ih hne hdone']
        constructor
        · rintro ⟨texts, htexts, hstr, hlength⟩
          rw [List.append_assoc] at hstr
          refine ⟨text :: texts, by rw [htexts]; rfl, hstr, fun _ => ?_⟩
          by_cases hlist : list = []
          · rw [hlist] at htexts
            cases htexts
            rw [hstr]
            exact hroom
          · exact hlength hlist
        · rintro ⟨texts, htexts, hstr, hlength⟩
          obtain ⟨texts', htexts', heq⟩ := Option.bind_eq_some_iff.mp htexts
          cases heq
          exact ⟨texts', htexts', by rw [List.append_assoc]; exact hstr, fun _ => hlength (List.cons_ne_nil _ _)⟩
      · rename_i hroom
        refine iff_of_false (fun hfold => by cases hfold) fun ⟨texts, htexts, hstr, hlength⟩ => hroom ?_
        obtain ⟨texts', htexts', heq⟩ := Option.bind_eq_some_iff.mp htexts
        cases heq
        have hbegin := intercalate_prefix (lit ",") (done ++ [text]) texts'
        rw [List.append_assoc, List.singleton_append, ← hstr] at hbegin
        exact Nat.lt_of_le_of_lt hbegin.length_le (hlength (List.cons_ne_nil _ _))

/-- The string that is built from an empty one. -/
theorem buildSorted_nil (h : Listable typeKeys) (hm : Refines hashtable m) {list : List Str}
    (hne : ∀ data ∈ list, ∀ text, entryAt values m data = some text → text ≠ []) {str : Str} :
    list.foldlM (hashtableBuildSorted hashtable values size) [] = some str ↔
      ∃ texts, list.mapM (entryAt values m) = some texts ∧ str = (lit ",").intercalate texts ∧
        (list ≠ [] → str.length < size) :=
  @buildSorted_foldlM _ size _ _ _ h hm list hne [] (fun _ htext => absurd htext List.not_mem_nil) str

end

/-! ## The length -/

section

variable {values : Bool} {items : List (ItemData (HashtableKey typeKeys) (HashtableKey .string))}

theorem toInt_add (a b : Int) : toInt (toInt a + b) = toInt (a + b) := Int.bmod_add_bmod

theorem computeLength_eq (h : Listable typeKeys) (length : Int)
    (item : ItemData (HashtableKey typeKeys) (HashtableKey .string)) :
    hashtableComputeLength true values length item = some (toInt (length + ((entryText values item).length + 1 : Nat))) := by
  cases values with
  | false =>
    have hkey : length + (keyText item.key).length + 1 = length + ((keyText item.key).length + 1 : Nat) := by omega
    rw [hashtableComputeLength, if_neg (by decide), if_pos rfl, hashtableComputeLengthKeysCb, toString_keyText h, entryText,
      if_neg Bool.false_ne_true, ← hkey]
    rfl
  | true =>
    have hvalue (length : Int) : hashtableComputeLengthValuesCb length item.value =
        some (toInt (length + (item.value.getD (lit "(null)")).length + 1)) := by
      cases item.value with
      | none => rfl
      | some value => rfl
    have htext : (entryText true item).length = (keyText item.key).length + 1 + (item.value.getD (lit "(null)")).length := by
      rw [entryText, if_pos rfl, List.length_append, List.length_append, ← Nat.add_assoc]
      rfl
    rw [hashtableComputeLength, if_pos (by decide), hashtableComputeLengthKeysValuesCb, hashtableComputeLengthKeysCb,
      toString_keyText h]
    simp only [Option.bind_eq_bind, Option.bind_some]
    rw [hvalue, Int.add_assoc (toInt _), toInt_add, htext]
    refine congrArg (fun x => some (toInt x)) ?_
    omega

/-- The length that is counted. -/
theorem computeLength_foldlM (h : Listable typeKeys) (length : Int) :
    items.foldlM (hashtableComputeLength true values) (toInt length) =
      some (toInt (length + (listingSize values items : Nat))) := by
  induction items generalizing length with
  | nil => exact congrArg (fun x => some (toInt x)) (Int.add_zero length).symm
  | cons item items ih =>
    rw [List.foldlM_cons, computeLength_eq h, toInt_add]
    refine (ih _).trans ?_
    rw [listingSize, listingSize, List.map_cons, List.sum_cons]
    refine congrArg (fun x => some (toInt x)) ?_
    omega

theorem computeLength_zero (h : Listable typeKeys) :
    items.foldlM (hashtableComputeLength true values) 0 = some (toInt (listingSize values items)) := by
  have hcount := @computeLength_foldlM _ values items h 0
  rwa [show toInt 0 = 0 from rfl, Int.zero_add] at hcount

/-- The listing has one byte less than is counted. -/
theorem intercalate_length (values : Bool) (hne : items ≠ []) :
    ((lit ",").intercalate (items.map (entryText values))).length + 1 = listingSize values items := by
  induction items with
  | nil => exact absurd rfl hne
  | cons item items ih =>
    have hcomma : (lit ",").length = 1 := rfl
    rw [listingSize, List.map_cons, List.map_cons, List.sum_cons]
    cases items with
    | nil => rw [List.map_nil, List.intercalate_singleton]; rfl
    | cons item' items =>
      have ih := ih (List.cons_ne_nil _ _)
      rw [listingSize] at ih
      rw [← ih, List.map_cons, List.intercalate_cons_cons, List.length_append, List.length_append, hcomma]
      omega

end

/-! ## The keys that are read -/

section

variable {values : Bool} {m : HashtableKey typeKeys → Option (Option Str)}
  {items : List (ItemData (HashtableKey typeKeys) (HashtableKey .string))}

/-- A byte ends the form of a key. -/
def EndsKey (c : Byte) : Prop := c = ch ',' ∨ c = ch ':'

instance (c : Byte) : Decidable (EndsKey c) := inferInstanceAs (Decidable (_ ∨ _))

/-- Two forms of keys that are followed by separators in the same string are the same. -/
theorem key_cancel {text text' rest rest' : Str} (htext : ∀ c ∈ text, ¬EndsKey c) (htext' : ∀ c ∈ text', ¬EndsKey c)
    (hrest : ∀ c ∈ rest.head?, EndsKey c) (hrest' : ∀ c ∈ rest'.head?, EndsKey c) (h : text ++ rest = text' ++ rest') :
    text = text' := by
  have hkey {text rest : Str} (htext : ∀ c ∈ text, ¬EndsKey c) (hrest : ∀ c ∈ rest.head?, EndsKey c) :
      (text ++ rest).takeWhile (fun c => ¬EndsKey c) = text := by
    rw [List.takeWhile_append_of_pos fun c hc => decide_eq_true (htext c hc)]
    cases rest with
    | nil => exact List.append_nil text
    | cons c rest =>
      rw [List.takeWhile_cons_of_neg (by simpa using hrest c rfl), List.append_nil]
  rw [← hkey htext hrest, h, hkey htext' hrest']

/-- Two entries of the same table at the same place in a string are the same. -/
theorem entry_cancel (h : Listable typeKeys) (hstring : typeKeys ≠ .string) {key key' : HashtableKey typeKeys}
    {rest rest' : Str} (hrest : ∀ c ∈ rest.head?, EndsKey c) (hrest' : ∀ c ∈ rest'.head?, EndsKey c)
    (heq : entryText values ⟨key, (m key).join⟩ ++ rest = entryText values ⟨key', (m key').join⟩ ++ rest') :
    key = key' ∧ rest = rest' := by
  have hletters (key : HashtableKey typeKeys) : ∀ c ∈ keyText key, ¬EndsKey c := fun c hc hend =>
    hend.elim (keyText_bytes h hstring key c hc).1 (keyText_bytes h hstring key c hc).2.1
  have hkey : key = key' := by
    refine keyText_injective h ?_
    cases values with
    | false => exact key_cancel (hletters key) (hletters key') hrest hrest' heq
    | true =>
      have hvalue (value rest : Str) : ∀ c ∈ (lit ":" ++ (value ++ rest)).head?, EndsKey c := fun c hc => by
        cases hc
        exact Or.inr rfl
      simp only [entryText, if_pos, List.append_assoc] at heq
      exact key_cancel (hletters key) (hletters key') (hvalue _ rest) (hvalue _ rest') heq
  subst hkey
  exact ⟨rfl, List.append_cancel_left heq⟩

/-- The entries that are read from the keys of a list give the same string only if the
keys that are read are those of the list. -/
theorem keyAt_of_intercalate (h : Listable typeKeys) (hstring : typeKeys ≠ .string)
    (hvalue : ∀ item ∈ items, item.value = (m item.key).join) {texts : List Str}
    (htexts : (items.map fun item => keyText item.key).mapM (entryAt values m) = some texts)
    (heq : (lit ",").intercalate texts = (lit ",").intercalate (items.map (entryText values))) :
    ∀ item ∈ items, hashtableKeyAt typeKeys (keyText item.key) = some item.key := by
  have hcomma (rest : Str) : ∀ c ∈ (lit "," ++ rest).head?, EndsKey c := fun c hc => by
    cases hc
    exact Or.inl rfl
  have hnil : ∀ c ∈ ([] : Str).head?, EndsKey c := fun c hc => by cases hc
  -- The first entries are compared, then the rest of the strings.
  induction items generalizing texts with
  | nil => exact fun item hitem => absurd hitem List.not_mem_nil
  | cons item items ih =>
    obtain ⟨hitem, hvalue⟩ := List.forall_mem_cons.mp hvalue
    obtain ⟨text, texts', htext, htexts', rfl⟩ := mapM_cons_some.mp htexts
    obtain ⟨key', hkey', rfl⟩ := Option.map_eq_some_iff.mp htext
    have hentry : entryText values item = entryText values ⟨item.key, (m item.key).join⟩ := by rw [← hitem]
    rw [List.map_cons, hentry] at heq
    have hboth : key' = item.key ∧ (lit ",").intercalate texts' = (lit ",").intercalate (items.map (entryText values)) := by
      cases items with
      | nil =>
        obtain rfl : texts' = [] := (Option.some.inj htexts').symm
        have hsingle (text : Str) : (lit ",").intercalate [text] = text ++ [] := by
          rw [List.intercalate_singleton, List.append_nil]
        rw [List.map_nil, hsingle, hsingle] at heq
        exact ⟨(entry_cancel h hstring hnil hnil heq).1, rfl⟩
      | cons second items =>
        obtain ⟨text2, texts2, -, -, rfl⟩ := mapM_cons_some.mp htexts'
        rw [List.map_cons, List.intercalate_cons_cons, List.intercalate_cons_cons, List.append_assoc,
          List.append_assoc] at heq
        obtain ⟨hkey, hrest⟩ := entry_cancel h hstring (hcomma _) (hcomma _) heq
        exact ⟨hkey, List.append_cancel_left hrest⟩
    refine List.forall_mem_cons.mpr ⟨?_, ih hvalue htexts' hboth.2⟩
    rw [hkey', hboth.1]

/-- The entries of a list whose keys are read as they are. -/
theorem entries_of_keyAt (hvalue : ∀ item ∈ items, item.value = (m item.key).join)
    (hkey : ∀ item ∈ items, hashtableKeyAt typeKeys (keyText item.key) = some item.key) :
    (items.map fun item => keyText item.key).mapM (entryAt values m) = some (items.map (entryText values)) := by
  induction items with
  | nil => rfl
  | cons item items ih =>
    obtain ⟨hitem, hvalue⟩ := List.forall_mem_cons.mp hvalue
    obtain ⟨hfirst, hkey⟩ := List.forall_mem_cons.mp hkey
    rw [List.map_cons, List.mapM_cons, entryAt, hfirst, Option.map_some, ← hitem, ih hvalue hkey]
    rfl

end

/-! ## The listing -/

section

variable {values : Bool} {hashtable : Hashtable (HashtableKey typeKeys) (HashtableKey .string)}
  {m : HashtableKey typeKeys → Option (Option Str)}
  {items listing : List (ItemData (HashtableKey typeKeys) (HashtableKey .string))}

theorem getString_listing (values : Bool) :
    hashtableGetString hashtable (listingProperty values) = hashtableGetKeysValues hashtable true true values := by
  have hcmp (s t : Str) : stringStrcasecmp s t = 0 ↔ s.map lowerByte = t.map lowerByte ∧ stringStrcasecmp s t = 0 :=
    ⟨fun h => ⟨strcasecmp_bytes h, h⟩, And.right⟩
  rw [hashtableGetString]
  cases values with
  | false =>
    rw [listingProperty, if_neg Bool.false_ne_true, if_neg, if_neg, if_neg, if_pos (stringStrcasecmp_self _)]
    all_goals exact fun h => absurd ((hcmp _ _).mp h).1 (by decide)
  | true =>
    rw [listingProperty, if_pos rfl, if_neg, if_neg, if_neg, if_neg, if_neg, if_neg, if_pos (stringStrcasecmp_self _)]
    all_goals exact fun h => absurd ((hcmp _ _).mp h).1 (by decide)

/-- The listing of a table that is not empty, when there is memory for it. -/
theorem getKeysValues_eq (h : Listable typeKeys) (hwalk : hashtableWalk hashtable = some items)
    (hdistinct : items.Pairwise fun x y => x.key ≠ y.key) (hne : ∀ item ∈ items, keyText item.key ≠ []) :
    hashtableGetKeysValues hashtable true true values =
      if toInt (listingSize values items) = 0 then some none
      else (mallocInt (toInt (listingSize values items) + 1)).elim (some none) fun size =>
        (((sortedItems items).map fun item => keyText item.key).foldlM (hashtableBuildSorted hashtable values size) []).map
          some := by
  have hkeys : hashtableGetListKeys hashtable = some ((sortedItems items).map fun item => keyText item.key) := by
    rw [hashtableGetListKeys, hwalk]
    exact @foldlM_weelistAddSorted _ _ items h [] hne hdistinct
  rw [hashtableGetKeysValues, hwalk, Option.bind_eq_bind, Option.bind_some, computeLength_zero h, Option.bind_eq_bind,
    Option.bind_some]
  split
  · rfl
  · cases mallocInt (toInt (listingSize values items) + 1) with
    | none => rfl
    | some size =>
      dsimp only
      rw [if_pos (by decide), hkeys, Option.elim_some, Option.map_eq_bind]
      rfl

theorem listingSize_perm (h : items.Perm listing) : listingSize values items = listingSize values listing :=
  (h.map _).sum_eq

theorem listingSize_nil : @listingSize typeKeys values [] = 0 := rfl

theorem listingSize_pos (values : Bool) (h : items ≠ []) : 0 < listingSize values items := by
  rw [← intercalate_length values h]
  exact Nat.succ_pos _

theorem entryText_ne_nil {item : ItemData (HashtableKey typeKeys) (HashtableKey .string)} (h : keyText item.key ≠ []) :
    entryText values item ≠ [] := by
  cases values with
  | false => exact h
  | true => exact List.append_ne_nil_of_left_ne_nil h _

theorem entryAt_ne_nil (h : Listable typeKeys) {data text : Str} (hdata : data ≠ []) (htext : entryAt values m data = some text) :
    text ≠ [] := by
  obtain ⟨key, hkey, rfl⟩ := Option.map_eq_some_iff.mp htext
  refine entryText_ne_nil ?_
  rcases h with rfl | rfl | rfl
  · exact fmtInt_ne_nil _
  · cases hkey
    exact hdata
  · exact fmtInt_ne_nil _

/-- Numbers are sorted in one way. -/
theorem sorted_unique (h : Listable typeKeys) (hstring : typeKeys ≠ .string)
    (hvalue : ∀ item ∈ items, item.value = (m item.key).join) (hperm : items.Perm listing)
    (hitems : items.Pairwise fun x y => stringStrcasecmp (keyText x.key) (keyText y.key) ≤ 0)
    (hlisting : listing.Pairwise fun x y => stringStrcasecmp (keyText x.key) (keyText y.key) ≤ 0) : items = listing := by
  refine List.Perm.eq_of_pairwise (fun x y hx hy hxy hyx => ?_) hitems hlisting hperm
  have hlower (key : HashtableKey typeKeys) : (keyText key).map lowerByte = keyText key := by
    rw [List.map_congr_left fun c hc => (keyText_bytes h hstring key c hc).2.2, List.map_id']
  have hzero : stringStrcasecmp (keyText x.key) (keyText y.key) = 0 := by
    rw [strcasecmp_swap] at hyx
    omega
  have htext := strcasecmp_bytes hzero
  rw [hlower, hlower] at htext
  have hkey := keyText_injective h htext
  have hx := hvalue x hx
  rw [hkey, ← hvalue y (hperm.mem_iff.mpr hy)] at hx
  cases x
  cases y
  exact congrArg₂ _ hkey hx

/-- The table is listed if the keys are those that are read. -/
theorem ListingFits.right (h : Listable typeKeys) (hm : Refines hashtable m)
    (hkeys : ∀ key, m key ≠ none → keyText key ≠ []) (hfits : ListingFits hashtable m values) :
    ListingRight hashtable m values := by
  obtain ⟨items, hwalk, hitems, hdistinct, -⟩ := hm.walk
  have hperm := sortedItems_perm items
  have hmem (item : ItemData (HashtableKey typeKeys) (HashtableKey .string)) :
      item ∈ sortedItems items ↔ m item.key = some item.value := hperm.mem_iff.trans (hitems _ _).symm
  have hvalue : ∀ item ∈ sortedItems items, item.value = (m item.key).join := fun item hitem => by
    rw [(hmem item).mp hitem]
    rfl
  have hne : ∀ item ∈ sortedItems items, keyText item.key ≠ [] := fun item hitem =>
    hkeys item.key (by rw [(hmem item).mp hitem]; exact Option.some_ne_none _)
  have hnil : sortedItems items ≠ [] := by
    obtain ⟨key, hkey⟩ := hfits.entry
    obtain ⟨value, hvalue⟩ := Option.ne_none_iff_exists'.mp hkey
    exact List.ne_nil_of_mem ((hmem ⟨key, value⟩).mpr hvalue)
  have hnodup : (sortedItems items).Nodup :=
    ((hperm.pairwise_iff fun {x y} h => h.symm).mpr hdistinct).imp fun {x y} hxy heq => hxy (congrArg _ heq)
  have hsize : listingSize values (sortedItems items) = listingSize values items := listingSize_perm hperm
  have hlength := intercalate_length values hnil
  have hfit := hfits.size items hwalk
  have hpos := listingSize_pos values hnil
  have htoInt : toInt (listingSize values items) = listingSize values items := toInt_of_range (by omega) (by omega)
  have hmalloc : mallocInt (toInt (listingSize values items) + 1) = some (listingSize values items + 1) := by
    rw [htoInt]
    exact mallocInt_of_fits hfit
  refine ⟨sortedItems items, hnodup, hmem, sortedItems_sorted items, ?_, items, _, hwalk, computeLength_zero h, ?_⟩
  · rw [getString_listing, getKeysValues_eq h hwalk hdistinct fun item hitem => hne item (hperm.mem_iff.mpr hitem),
      if_neg (by omega), hmalloc, Option.elim_some, Option.map_eq_some_iff]
    refine ⟨_, (buildSorted_nil h hm ?_).mpr
      ⟨_, entries_of_keyAt hvalue fun item hitem => hfits.key _ ?_, rfl, fun _ => ?_⟩, rfl⟩
    · intro data hdata text htext
      obtain ⟨item, hitem, rfl⟩ := List.mem_map.mp hdata
      exact entryAt_ne_nil h (hne item hitem) htext
    · rw [(hmem item).mp hitem]
      exact Option.some_ne_none _
    · omega
  · rw [htoInt]
    omega

/-- Memory of the size of a listing is for a size that does not wrap around. -/
theorem size_of_malloc {total size : Nat} (h : mallocInt (toInt total + 1) = some size) (hroom : total ≤ size) :
    total + 1 < 2147483648 := by
  rw [mallocInt, toInt_add] at h
  split at h
  · cases h
  · have hsize := Option.some.inj h
    rw [toInt, Int.bmod] at *
    omega

/-- The keys of a table that is listed are those that are read. -/
theorem ListingRight.fits (h : Listable typeKeys) (hm : Refines hashtable m)
    (hkeys : ∀ key, m key ≠ none → keyText key ≠ []) (hright : ListingRight hashtable m values) :
    ListingFits hashtable m values := by
  obtain ⟨items, hwalk, hitems, hdistinct, -⟩ := hm.walk
  obtain ⟨listing, hnodup, hlisting, hlistingSorted, hget, -⟩ := hright
  have hne : ∀ item ∈ items, keyText item.key ≠ [] := fun item hitem =>
    hkeys item.key (by rw [(hitems item.key item.value).mpr hitem]; exact Option.some_ne_none _)
  have hperm : listing.Perm items := by
    have hnodup' : items.Nodup := hdistinct.imp fun {x y} hxy heq => hxy (congrArg _ heq)
    exact (List.perm_ext_iff_of_nodup hnodup hnodup').mpr fun item => (hlisting item).trans (hitems _ _)
  rw [getString_listing, getKeysValues_eq h hwalk hdistinct hne] at hget
  split at hget
  · cases hget
  · rename_i hzero
    have hnil : items ≠ [] := fun hnil => hzero (by rw [hnil, listingSize_nil]; rfl)
    cases hmalloc : mallocInt (toInt (listingSize values items) + 1) with
    | none => rw [hmalloc] at hget; cases hget
    | some size =>
      rw [hmalloc, Option.elim_some, Option.map_eq_some_iff] at hget
      obtain ⟨str, hfold, hstr⟩ := hget
      obtain rfl := Option.some.inj hstr
      have hsorted : sortedItems items ≠ [] := fun hsorted => hnil ((hsorted ▸ sortedItems_perm items).nil_eq.symm)
      obtain ⟨texts, htexts, hstr, hsize⟩ := (buildSorted_nil h hm fun data hdata text htext => by
          obtain ⟨item, hitem, rfl⟩ := List.mem_map.mp hdata
          exact entryAt_ne_nil h (hne item ((sortedItems_perm items).mem_iff.mp hitem)) htext).mp hfold
      refine ⟨?_, fun items' hwalk' => ?_, fun key hkey => ?_⟩
      · obtain ⟨item, hitem⟩ := List.exists_mem_of_ne_nil items hnil
        exact ⟨item.key, by rw [(hitems item.key item.value).mpr hitem]; exact Option.some_ne_none _⟩
      · obtain rfl := Option.some.inj (hwalk.symm.trans hwalk')
        have hlength := intercalate_length values fun hlisting : listing = [] => by
          rw [hlisting] at hperm
          exact hnil hperm.nil_eq.symm
        have hroom := hsize (mt List.map_eq_nil_iff.mp hsorted)
        have hsame : listingSize values listing = listingSize values items := listingSize_perm hperm
        exact size_of_malloc hmalloc (by omega)
      · by_cases hstring : typeKeys = .string
        · subst hstring
          rfl
        · have hvalue : ∀ item ∈ sortedItems items, item.value = (m item.key).join := fun item hitem => by
            rw [(hitems item.key item.value).mpr ((sortedItems_perm items).mem_iff.mp hitem)]
            rfl
          have heq := sorted_unique h hstring hvalue ((sortedItems_perm items).trans hperm.symm) (sortedItems_sorted items)
            hlistingSorted
          obtain ⟨value, hkeyValue⟩ := Option.ne_none_iff_exists'.mp hkey
          have hitem := (sortedItems_perm items).mem_iff.mpr ((hitems key value).mp hkeyValue)
          rw [← heq] at hstr
          exact keyAt_of_intercalate h hstring hvalue htexts hstr.symm ⟨key, value⟩ hitem

/-- A table with keys that are numbers or strings that are not empty and values that are
strings is listed in the order of its keys if and only if it is not empty, the size of
the listing is an `int`, and each key is what is read at the address of its string form
(true of strings). -/
theorem hashtable_listing_iff (hashtable : Hashtable (HashtableKey typeKeys) (HashtableKey .string))
    (m : HashtableKey typeKeys → Option (Option Str)) (values : Bool) (htype : Listable typeKeys)
    (hm : Refines hashtable m) (hkeys : ∀ key, m key ≠ none → keyText key ≠ []) :
    ListingRight hashtable m values ↔ ListingFits hashtable m values :=
  ⟨fun h => h.fits htype hm hkeys, fun h => h.right htype hm hkeys⟩

end

/-! Tables with one key. -/

section

variable {key key' : HashtableKey typeKeys} {value : Str}

/-- The entries of a table with one key. -/
def singleEntry (key : HashtableKey typeKeys) (value : Str) : HashtableKey typeKeys → Option (Option Str) :=
  Function.update (fun _ => none) key (some (some value))

theorem singleEntry_ne_none (h : singleEntry key value key' ≠ none) : key' = key := by
  by_contra hkey
  exact h (Function.update_of_ne hkey _ _)

theorem singleTable (htype : Listable typeKeys) (key : HashtableKey typeKeys) (value : Str) :
    ∃ hashtable : Hashtable (HashtableKey typeKeys) (HashtableKey .string),
      Refines hashtable (singleEntry key value) ∧ hashtableWalk hashtable = some [⟨key, some value⟩] := by
  have hkeys : typeKeys ≠ .buffer := by
    rintro rfl
    exact absurd htype (by rw [Listable]; decide)
  obtain ⟨empty, -, -, htypeValues, -, -, hempty⟩ :=
    hashtableNew_refines (HashtableKey .string) Int.one_pos hkeys .string
  obtain ⟨hashtable, item, hset, hkind, hm⟩ := hempty.set key (some value)
  rw [htypeValues, if_neg (by decide)] at hm
  refine ⟨hashtable, hm, ?_⟩
  obtain ⟨items, hwalk, hitems, hdistinct, -⟩ := hm.walk
  have hnodup : items.Nodup := hdistinct.imp fun {x y} hxy heq => hxy (congrArg _ heq)
  have hperm : items.Perm [⟨key, some value⟩] := by
    refine (List.perm_ext_iff_of_nodup hnodup (List.nodup_singleton _)).mpr fun x => (hitems x.key x.value).symm.trans ?_
    obtain ⟨k, v⟩ := x
    rw [List.mem_singleton]
    constructor
    · intro h
      obtain rfl : k = key := @singleEntry_ne_none _ _ _ value (by rw [singleEntry, h]; exact Option.some_ne_none _)
      rw [Function.update_self] at h
      rw [Option.some.inj h]
    · intro h
      cases h
      exact Function.update_self ..
  rw [hwalk, List.perm_singleton.mp hperm]

end

theorem hashtable_listing_iff_one : ∃ hashtable : Hashtable (HashtableKey .string) (HashtableKey .string),
    Refines hashtable (singleEntry (lit "a") (lit "x")) ∧
      @ListingRight .string hashtable (singleEntry (lit "a") (lit "x")) true := by
  obtain ⟨hashtable, hm, hwalk⟩ := @singleTable .string (.inr (.inl rfl)) (lit "a") (lit "x")
  refine ⟨hashtable, hm, (hashtable_listing_iff hashtable _ true (.inr (.inl rfl)) hm fun key h => ?_).mpr ⟨?_, ?_, ?_⟩⟩
  · rw [singleEntry_ne_none h]
    decide
  · exact ⟨lit "a", by decide⟩
  · intro items hitems
    obtain rfl := Option.some.inj (hwalk.symm.trans hitems)
    decide
  · exact fun key h => rfl

/-- The bytes of `"123456789"` are read as the number 875770417. -/
theorem hashtable_listing_fails : ∃ hashtable : Hashtable (HashtableKey .integer) (HashtableKey .string),
    Refines hashtable (singleEntry (123456789 : Int32) (lit "x")) ∧
      hashtableGetString hashtable (lit "keys_sorted") = some (some (lit "875770417")) ∧
      ¬@ListingRight .integer hashtable (singleEntry (123456789 : Int32) (lit "x")) false := by
  obtain ⟨hashtable, hm, hwalk⟩ := @singleTable .integer (.inl rfl) (123456789 : Int32) (lit "x")
  have htext : @keyText .integer (123456789 : Int32) = lit "123456789" := by decide
  have hread : hashtableKeyAt .integer (lit "123456789") = some (875770417 : Int32) := by decide
  have hne {key : Int32} (h : @singleEntry .integer (123456789 : Int32) (lit "x") key ≠ none) :
      @keyText .integer key ≠ [] := by
    rw [singleEntry_ne_none h]
    decide
  refine ⟨hashtable, hm, ?_, fun hright => ?_⟩
  · have hitem : ∀ item ∈ [(⟨(123456789 : Int32), some (lit "x")⟩ : ItemData (HashtableKey .integer) (HashtableKey .string))],
        keyText item.key ≠ [] := by decide
    have hmalloc : mallocInt (toInt ((10 : Nat) : Int) + 1) = some 11 := by
      rw [toInt_of_range (by decide) (by decide)]
      exact mallocInt_of_fits (n := 11) (by decide)
    have hsize : @listingSize .integer false [⟨(123456789 : Int32), some (lit "x")⟩] = 10 := by decide
    have hfold : [lit "123456789"].foldlM (hashtableBuildSorted hashtable false 11) [] = some (lit "875770417") := by
      refine (buildSorted_nil (.inl rfl) hm fun data hdata text htext => ?_).mpr
        ⟨[lit "875770417"], by decide, by decide, by decide⟩
      rw [List.mem_singleton.mp hdata] at htext
      exact entryAt_ne_nil (.inl rfl) (by decide) htext
    refine (getString_listing false).trans ?_
    rw [getKeysValues_eq (.inl rfl) hwalk (List.pairwise_singleton _ _) hitem, hsize, if_neg (by decide), hmalloc]
    exact congrArg (Option.map some) hfold
  · have hfits := hright.fits (.inl rfl) hm fun key => hne
    have hkey := hfits.key (123456789 : Int32) (by decide)
    rw [htext, hread] at hkey
    exact absurd hkey (by decide)

end Wirc
