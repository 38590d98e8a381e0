import WhoreIrc.Proof.ConfigOption
import WhoreIrc.Proof.StringCase
import WhoreIrc.Spec.ConfigFile

/-!
# Configuration files: what is written is read back

A line is read whole (`readLoop_line`), taken apart where it was put together
(`parseLine_value`, `parseLine_none`), and its text gives back the value of the
option (`loadOption_written`). The options of a section are read one after
another (`readLoop_options`), from the header on (`configFile_roundtrip`).
-/

namespace Wirc

/-! ## Comparing words -/

/-- A word is not "null" if its first byte is a character that is not `n`. -/
theorem not_null_of_head {c : Byte} {s : Str} (hsize : utf8LeadSize c = 1)
    (hc : wideCharLower ⟨c.toBitVec.signExtend 32⟩ ≠ 110) : stringStrcasecmp (c :: s) (lit "null") ≠ 0 := by
  have hwide : utf8WideChar (c :: s) = ⟨c.toBitVec.signExtend 32⟩ := oneByte_wide hsize s
  have hnull : wideCharLower (utf8WideChar (lit "null")) = 110 := by decide
  have hcmp : utf8Charcasecmp (c :: s) (lit "null") ≠ 0 := by
    simp only [utf8Charcasecmp, hwide, hnull]
    split
    · decide
    · decide
  rw [strcasecmp_step (List.cons_ne_nil _ _) (by decide), if_neg hcmp]
  split <;> decide

set_option maxRecDepth 10000 in
theorem not_null_of_digit {c : Byte} (h : isdigit c = true) (s : Str) : stringStrcasecmp (c :: s) (lit "null") ≠ 0 := by
  have hall : ∀ c : Byte, isdigit c = true →
      utf8LeadSize c = 1 ∧ wideCharLower ⟨c.toBitVec.signExtend 32⟩ ≠ 110 :=
    byte_forall (P := fun c => isdigit c = true → utf8LeadSize c = 1 ∧ wideCharLower ⟨c.toBitVec.signExtend 32⟩ ≠ 110)
      (by decide)
  exact not_null_of_head (hall c h).1 (hall c h).2

/-! ## Lines of a file -/

theorem fgets_line {content : Str} (h : ch '\n' ∉ content) {n : Nat} (hn : content.length < n) (rest : Str) :
    fgets n (content ++ ch '\n' :: rest) = (content ++ [ch '\n'], rest) := by
  induction content generalizing n with
  | nil =>
    obtain ⟨m, rfl⟩ := Nat.exists_eq_add_of_lt hn
    simp [fgets]
  | cons c content ih =>
    obtain ⟨m, rfl⟩ : ∃ m, n = m + 1 := ⟨n - 1, by simp only [List.length_cons] at hn; omega⟩
    rw [List.mem_cons, not_or] at h
    rw [List.cons_append, fgets, if_neg (Ne.symm h.1), ih h.2 (by simpa using hn), List.cons_append]

theorem fgets_cut (content : Str) (h : ch '\n' ∉ content) (rest : Str) :
    fgets content.length (content ++ rest) = (content, rest) := by
  induction content with
  | nil => simp [fgets]
  | cons c content ih =>
    rw [List.mem_cons, not_or] at h
    rw [List.cons_append, List.length_cons, fgets, if_neg (Ne.symm h.1), ih h.2]

theorem configFileLoop_eq {S : Type} (readLine : S → Str → S) (reader : S) {file : Str} (h : file ≠ []) :
    configFileLoop readLine reader file =
      configFileLoop readLine (readLine reader ((fgets 16382 file).1.takeWhile (· ≠ 0))) (fgets 16382 file).2 := by
  cases file with
  | nil => exact absurd rfl h
  | cons c file' => rw [configFileLoop]

theorem takeWhile_oneLine {text : Str} (h : OneLine text) (rest : Str) :
    (text ++ ch '\n' :: rest).takeWhile (· ≠ ch '\n') = text := by
  rw [List.takeWhile_append_of_pos (fun c hc => by simpa using (h c hc).2.2), List.takeWhile_cons_of_neg (by simp),
    List.append_nil]

/-- The end of a line changes nothing in it. -/
theorem parseLine_newline {text : Str} (h : OneLine text) :
    configFileParseLine (text ++ [ch '\n']) = configFileParseLine text := by
  have hcr : (text ++ [ch '\n']).takeWhile (· ≠ ch '\r') = text ++ [ch '\n'] := by
    rw [List.takeWhile_eq_self_iff]
    intro c hc
    rcases List.mem_append.mp hc with hc | hc
    · simpa using (h c hc).2.1
    · obtain rfl := List.mem_singleton.mp hc
      decide
  have hcr' : text.takeWhile (· ≠ ch '\r') = text := List.takeWhile_eq_self_iff.mpr fun c hc => by
    simpa using (h c hc).2.1
  have hlf' : text.takeWhile (· ≠ ch '\n') = text := List.takeWhile_eq_self_iff.mpr fun c hc => by
    simpa using (h c hc).2.2
  unfold configFileParseLine
  simp only [hcr, hcr', hlf', takeWhile_oneLine h []]

/-- The bytes after the spaces at the beginning are those of the line. -/
theorem mem_skipSpaces {text : Str} {c : Byte} (hc : c ≠ ch ' ') : c ∈ skipSpaces text ↔ c ∈ text := by
  refine ⟨fun h => (skipSpaces_suffix text).subset h, fun h => ?_⟩
  rw [← List.takeWhile_append_dropWhile (p := (· = ch ' ')) (l := text), List.mem_append] at h
  refine h.resolve_left fun hspace => hc ?_
  simpa using List.mem_takeWhile_imp hspace

theorem takeWhile_append_of_mem {text : Str} {c : Byte} (h : c ∈ text) (rest : Str) :
    (text ++ rest).takeWhile (· ≠ c) = text.takeWhile (· ≠ c) := by
  induction text with
  | nil => cases h
  | cons b text ih =>
    by_cases hb : b = c
    · rw [hb, List.cons_append, List.takeWhile_cons_of_neg (by simp), List.takeWhile_cons_of_neg (by simp)]
    · rw [List.cons_append, List.takeWhile_cons_of_pos (by simpa using hb),
        List.takeWhile_cons_of_pos (by simpa using hb),
        ih ((List.mem_cons.mp h).resolve_left (Ne.symm hb))]

theorem strchr_isSome {text : Str} {c : Byte} (h : c ∈ text) : ∃ p, strchr text c = some p := by
  refine Option.ne_none_iff_exists'.mp fun hnone => ?_
  exact strchr_none.mp hnone h

/-- The end of a line does not change what it is taken for. -/
theorem lineKind_newline {text : Str} (h : OneLine text) (hne : skipSpaces text ≠ []) :
    configFileLineKind (text ++ [ch '\n']) = configFileLineKind text := by
  unfold configFileLineKind
  rw [parseLine_newline h]
  obtain ⟨c, rest, hskip⟩ := List.exists_cons_of_ne_nil hne
  have hskip' : skipSpaces (text ++ [ch '\n']) = c :: (rest ++ [ch '\n']) := by
    have : (text.dropWhile (· = ch ' ')).isEmpty = false := by
      simpa [skipSpaces] using hne
    rw [skipSpaces, List.dropWhile_append, this]
    simp only [Bool.false_eq_true, if_false]
    rw [← skipSpaces, hskip, List.cons_append]
  have hequal : (ch '=' ∉ c :: (rest ++ [ch '\n'])) ↔ ch '=' ∉ c :: rest := by
    simp [show ch '=' ≠ ch '\n' by decide]
  simp only [hskip, hskip', hequal]
  by_cases hc : c = ch '['
  · by_cases hmem : ch ']' ∈ text
    · have hrest : ch ']' ∈ rest := by
        have := (mem_skipSpaces (by decide : ch ']' ≠ ch ' ')).mpr hmem
        rw [hskip, hc] at this
        exact (List.mem_cons.mp this).resolve_left (by decide)
      obtain ⟨p, hp⟩ := strchr_isSome hmem
      obtain ⟨p', hp'⟩ := @strchr_isSome (text ++ [ch '\n']) _ (List.mem_append_left _ hmem)
      simp only [hp, hp', takeWhile_append_of_mem hrest]
    · have h1 : strchr text (ch ']') = none := strchr_none.mpr hmem
      have h2 : strchr (text ++ [ch '\n']) (ch ']') = none := strchr_none.mpr (by
        rw [List.mem_append, not_or]
        exact ⟨hmem, by decide⟩)
      simp only [h1, h2]
  · simp only [hc, false_and, if_false]

theorem lineKind_blank : configFileLineKind [ch '\n'] = .nothing := rfl

theorem oneLine_of_noControl {text : Str} (h : ∀ c ∈ text, ¬ iscntrl c) : OneLine text := by
  intro c hc
  refine ⟨?_, ?_, ?_⟩
  all_goals
    rintro rfl
    exact h _ hc (by decide)

theorem oneLine_append {text text' : Str} (h : OneLine text) (h' : OneLine text') : OneLine (text ++ text') :=
  fun c hc => (List.mem_append.mp hc).elim (h c) (h' c)

theorem lineKind_header {name : Str} (hname : HeaderName name) :
    configFileLineKind (ch '[' :: (name ++ [ch ']'])) = .sectionName name := by
  have hskip : skipSpaces (ch '[' :: (name ++ [ch ']'])) = ch '[' :: (name ++ [ch ']']) := rfl
  have hequal : ch '=' ∉ ch '[' :: (name ++ [ch ']']) := by
    rw [List.mem_cons, List.mem_append, not_or, not_or]
    exact ⟨by decide, hname.noEqual, by decide⟩
  have htake : (name ++ [ch ']']).takeWhile (· ≠ ch ']') = name := by
    rw [List.takeWhile_append_of_pos fun c hc => by simpa using fun h : c = ch ']' => hname.noBracket (h ▸ hc),
      List.takeWhile_cons_of_neg (by simp), List.append_nil]
  obtain ⟨p, hp⟩ := @strchr_isSome (ch '[' :: (name ++ [ch ']'])) (ch ']') (by simp)
  simp only [configFileLineKind, hskip, hequal, hp, htake, not_false_eq_true, and_true, if_true,
    (by decide : (ch '[' = ch '#') = False), (by decide : (ch '[' = ch '\r') = False),
    (by decide : (ch '[' = ch '\n') = False), decide_false, Bool.or_self, Bool.false_eq_true, if_false]

theorem lineKind_option {text rest : Str} {c : Byte} (htext : text = c :: rest) (hspace : c ≠ ch ' ')
    (hcomment : c ≠ ch '#') (hbracket : c ≠ ch '[') (hcr : c ≠ ch '\r') (hlf : c ≠ ch '\n') :
    configFileLineKind text = .option (configFileParseLine text).1 (configFileParseLine text).2 := by
  have hskip : skipSpaces text = c :: rest := by
    rw [htext, skipSpaces, List.dropWhile_cons_of_neg (by simpa using hspace)]
  simp only [configFileLineKind, hskip, hcomment, hcr, hlf, hbracket, decide_false, Bool.or_self, Bool.false_eq_true,
    if_false, false_and]

section Loop

variable {S : Type} {readLine : S → Str → S} {step : S → ConfigLineKind → S}
  (hkind : ∀ reader line, readLine reader line = step reader (configFileLineKind line))
  (hnothing : ∀ reader, step reader .nothing = reader)

include hkind hnothing

/-- A line that is not longer than the buffer is read whole. -/
theorem configFileLoop_line {text : Str} (h : OneLine text) (hne : skipSpaces text ≠ []) (hlen : text.length < 16383)
    (reader : S) (rest : Str) :
    configFileLoop readLine reader (text ++ ch '\n' :: rest) =
      configFileLoop readLine (step reader (configFileLineKind text)) rest := by
  have hlf : ch '\n' ∉ text := fun hmem => (h _ hmem).2.2 rfl
  have hzero : ∀ tail : Str, 0 ∉ tail → (text ++ tail).takeWhile (· ≠ 0) = text ++ tail := fun tail htail =>
    List.takeWhile_eq_self_iff.mpr fun c hc => by
      rcases List.mem_append.mp hc with hc | hc
      · simpa using (h c hc).1
      · simpa using fun h0 : c = 0 => htail (h0 ▸ hc)
  rw [configFileLoop_eq _ _ (by simp)]
  rcases Nat.lt_or_ge text.length 16382 with hlt | hge
  · rw [fgets_line hlf hlt, hzero _ (by decide), hkind, lineKind_newline h hne]
  · -- the newline does not fit: it is read as a line of its own
    have hlen : text.length = 16382 := by omega
    have hcut := fgets_cut text hlf (ch '\n' :: rest)
    rw [hlen] at hcut
    have hzero' := hzero [] (by simp)
    rw [List.append_nil] at hzero'
    rw [hcut, hzero', hkind, configFileLoop_eq _ _ (List.cons_ne_nil _ _)]
    have hline : fgets 16382 (ch '\n' :: rest) = ([ch '\n'], rest) := rfl
    have hblank : ([ch '\n'] : Str).takeWhile (· ≠ 0) = [ch '\n'] := rfl
    rw [hline, hblank, hkind, lineKind_blank, hnothing]

/-- The header of a section, after an empty line. -/
theorem configFileLoop_header {name : Str} (hname : HeaderName name) (hlen : name.length + 2 < 16383) (reader : S)
    (rest : Str) :
    configFileLoop readLine reader (lit "\n[" ++ name ++ lit "]\n" ++ rest) =
      configFileLoop readLine (step reader (.sectionName name)) rest := by
  have hheader : lit "\n[" ++ name ++ lit "]\n" ++ rest =
      ch '\n' :: ((ch '[' :: (name ++ [ch ']'])) ++ ch '\n' :: rest) := by
    simp [lit]
  have hline : OneLine (ch '[' :: (name ++ [ch ']'])) :=
    @oneLine_append [ch '['] _ (by decide) (oneLine_append (oneLine_of_noControl hname.noControl) (by decide))
  rw [hheader, configFileLoop_eq _ _ (List.cons_ne_nil _ _)]
  have hblank : fgets 16382 (ch '\n' :: ((ch '[' :: (name ++ [ch ']'])) ++ ch '\n' :: rest)) =
      ([ch '\n'], (ch '[' :: (name ++ [ch ']'])) ++ ch '\n' :: rest) := rfl
  have hblankLine : readLine reader (([ch '\n'] : Str).takeWhile (· ≠ 0)) = reader := by
    have heq : ([ch '\n'] : Str).takeWhile (· ≠ 0) = [ch '\n'] := rfl
    rw [heq, hkind, lineKind_blank, hnothing]
  rw [hblank, hblankLine, configFileLoop_line hkind hnothing hline (List.cons_ne_nil _ _)
    (by simp only [List.length_cons, List.length_append, List.length_nil]; omega), lineKind_header hname]

end Loop

section Reading

variable (palette : GuiPalette) (garbage : Int32) (check : AnyOption → Option Str → Bool) (reader : ConfigReader)

/-- What the reader does with a line. -/
def ConfigLineKind.read : ConfigLineKind → ConfigReader
  | .nothing => reader
  | .sectionName name => { reader with ptrSection := configFileSearchSection reader.sections name }
  | .option optionName value => configFileReadOption palette garbage check reader optionName value

theorem readLine_kind (line : Str) : configFileReadLine palette garbage check reader line =
    (configFileLineKind line).read palette garbage check reader := by
  unfold configFileReadLine configFileLineKind
  dsimp only
  split
  · rfl
  · split
    · rfl
    · split
      · cases strchr line (ch ']') with
        | none => rfl
        | some p => rfl
      · rfl

theorem readLoop_eq_loop (file : Str) : configFileReadLoop palette garbage check reader file =
    configFileLoop (configFileReadLine palette garbage check) reader file := by
  fun_induction configFileReadLoop palette garbage check reader file with
  | case1 reader => rw [configFileLoop]
  | case2 reader c file' ih => rw [configFileLoop, ih]

theorem readLoop_line {text : Str} (h : OneLine text) (hne : skipSpaces text ≠ []) (hlen : text.length < 16383)
    (rest : Str) :
    configFileReadLoop palette garbage check reader (text ++ ch '\n' :: rest) =
      configFileReadLoop palette garbage check (configFileReadLine palette garbage check reader text) rest := by
  rw [readLoop_eq_loop, readLoop_eq_loop, readLine_kind]
  exact @configFileLoop_line ConfigReader _ (fun reader kind => kind.read palette garbage check reader)
    (readLine_kind palette garbage check) (fun _ => rfl) _ h hne hlen reader rest

/-- The header of a section selects it. -/
theorem readLoop_header {sections : List ConfigSection} {name : Str} (hname : HeaderName name)
    (hlen : name.length + 2 < 16383) (ptrSection : Option Nat) (rest : Str) :
    configFileReadLoop palette garbage check ⟨sections, ptrSection⟩ (lit "\n[" ++ name ++ lit "]\n" ++ rest) =
      configFileReadLoop palette garbage check ⟨sections, configFileSearchSection sections name⟩ rest := by
  rw [readLoop_eq_loop, readLoop_eq_loop]
  exact @configFileLoop_header ConfigReader _ (fun reader kind => kind.read palette garbage check reader)
    (readLine_kind palette garbage check) (fun _ => rfl) _ hname hlen ⟨sections, ptrSection⟩ rest

end Reading

/-! ## Names -/

/-- A name as it is written: with its escape, it does not look like a comment,
or like a section, and it is read as the name. -/
structure Escaped (text name : Str) : Prop where
  oneLine : OneLine text
  noEqual : ¬ lit " =" <:+: text
  head : ∃ c rest, text = c :: rest ∧ c ≠ ch ' ' ∧ c ≠ ch '#' ∧ c ≠ ch '[' ∧ c ≠ ch '\r' ∧ c ≠ ch '\n'
  noSpaceLast : text.getLast? ≠ some (ch ' ')
  unescape : configFileUnescape text = name

theorem escaped_oneLine {name : Str} (hne : name ≠ []) (hline : OneLine name) (hequal : ¬ lit " =" <:+: name)
    (hfirst : name.head? ≠ some (ch ' ')) (hlast : name.getLast? ≠ some (ch ' ')) :
    Escaped (configFileOptionEscape name ++ name) name := by
  obtain ⟨c, rest, rfl⟩ := List.exists_cons_of_ne_nil hne
  have hspace : c ≠ ch ' ' := fun hc => hfirst (by rw [hc]; rfl)
  by_cases hc : (c = ch '#' || c = ch '[' || c = ch '\\') = true
  · have hesc : configFileOptionEscape (c :: rest) = [ch '\\'] := by
      simp only [configFileOptionEscape, if_pos hc]
      rfl
    rw [hesc, List.singleton_append]
    refine ⟨?_, ?_, ⟨_, _, rfl, by decide, by decide, by decide, by decide, by decide⟩, ?_, rfl⟩
    · exact @oneLine_append [ch '\\'] _ (by decide) hline
    · rw [List.infix_cons_iff, not_or]
      exact ⟨by simp [lit, ch], hequal⟩
    · rw [List.getLast?_cons_cons]
      exact hlast
  · have hesc : configFileOptionEscape (c :: rest) = [] := by
      simp only [configFileOptionEscape, if_neg hc]
    rw [hesc, List.nil_append]
    simp only [Bool.or_eq_true, decide_eq_true_eq, not_or] at hc
    have hcontrol := hline c List.mem_cons_self
    refine ⟨hline, hequal, ⟨c, rest, rfl, hspace, hc.1.1, hc.1.2, hcontrol.2.1, hcontrol.2.2⟩, hlast, ?_⟩
    simp only [configFileUnescape, if_neg hc.2]

theorem escaped_name {name : Str} (h : LineName name) : Escaped (configFileOptionEscape name ++ name) name :=
  escaped_oneLine h.nonempty (oneLine_of_noControl h.noControl) h.noEqual h.noSpaceFirst h.noSpaceLast

/-- The first ` =` is the one that is written after the name. -/
theorem strstr_name {text : Str} (h : ¬ lit " =" <:+: text) (tail : Str) :
    strstr (text ++ (lit " = " ++ tail)) (lit " =") = some (lit " = " ++ tail) := by
  induction text with
  | nil => rfl
  | cons c text ih =>
    rw [List.infix_cons_iff, not_or] at h
    have hno : (lit " =").isPrefixOf (c :: (text ++ (lit " = " ++ tail))) = false := by
      rw [Bool.eq_false_iff, ne_eq, List.isPrefixOf_iff_prefix]
      intro hpre
      cases text with
      | nil =>
        have := (List.cons_prefix_cons.mp (List.cons_prefix_cons.mp hpre).2).1
        exact absurd this (by decide)
      | cons d text =>
        obtain ⟨hc, hd⟩ := List.cons_prefix_cons.mp hpre
        have hd := (List.cons_prefix_cons.mp hd).1
        exact h.1 (by rw [← hc, ← hd]; exact ⟨text, rfl⟩)
    rw [List.cons_append, strstr, hno, if_neg (by decide), ih h.2]

theorem lineName_of_last {text : Str} (h : text.getLast? ≠ some (ch ' ')) : configFileLineName text = text := by
  cases text with
  | nil => rfl
  | cons c rest =>
    rw [configFileLineName]
    cases rest with
    | nil => rfl
    | cons d rest =>
      rw [List.getLast?_cons_cons] at h
      rw [rdropWhile_space h]

/-! ## Values in lines -/

theorem oneLine_line {text : Str} (h : OneLine text) :
    (text.takeWhile (· ≠ ch '\r')).takeWhile (· ≠ ch '\n') = text := by
  have hcr : text.takeWhile (· ≠ ch '\r') = text := List.takeWhile_eq_self_iff.mpr fun c hc => by
    simpa using (h c hc).2.1
  rw [hcr]
  exact List.takeWhile_eq_self_iff.mpr fun c hc => by simpa using (h c hc).2.2

theorem parseLine_value {text name tail : Str} (h : Escaped text name) (htail : OneLine tail) :
    configFileParseLine (text ++ (lit " = " ++ tail)) = (name, configFileLineValue (lit " " ++ tail)) := by
  have hline : OneLine (text ++ (lit " = " ++ tail)) :=
    oneLine_append h.oneLine (oneLine_append (by decide) htail)
  simp only [configFileParseLine, oneLine_line hline, strstr_name h.noEqual, take_off_append,
    lineName_of_last h.noSpaceLast, h.unescape]
  rfl

theorem parseLine_none {text name : Str} (h : Escaped text name) : configFileParseLine text = (name, none) := by
  simp only [configFileParseLine, oneLine_line h.oneLine, strstr_none.mpr h.noEqual, h.unescape]

theorem lineValue_word {word : Str} (h : PlainWord word) : configFileLineValue (lit " " ++ word) = some word := by
  obtain ⟨c, rest, rfl⟩ := List.exists_cons_of_ne_nil h.nonempty
  have hskip : skipSpaces (lit " " ++ (c :: rest)) = c :: rest := by
    have hc : c ≠ ch ' ' := fun hc => h.noSpaceFirst (by rw [hc]; rfl)
    simp only [skipSpaces, lit]
    rw [show " ".toList.map ch = [ch ' '] from rfl, List.singleton_append, List.dropWhile_cons_of_pos (by decide),
      List.dropWhile_cons_of_neg (by simpa using hc)]
  simp only [configFileLineValue, hskip, if_neg h.notNull]
  split
  · rename_i hrest
    rw [hrest]
  · rename_i hrest
    obtain ⟨d, rest, rfl⟩ := List.exists_cons_of_ne_nil hrest
    have hlast := h.noSpaceLast
    rw [List.getLast?_cons_cons] at hlast
    rw [rdropWhile_space hlast, if_neg]
    intro hquoted
    refine h.notQuoted ⟨by simp, ?_⟩
    rcases hquoted with ⟨rfl, hq⟩ | ⟨rfl, hq⟩
    · exact ⟨hq.symm, .inl rfl⟩
    · exact ⟨hq.symm, .inr rfl⟩

theorem lineValue_string (text : Str) :
    configFileLineValue (lit " " ++ (lit "\"" ++ text ++ lit "\"")) = some text := by
  have hskip : skipSpaces (lit " " ++ (lit "\"" ++ text ++ lit "\"")) = ch '"' :: (text ++ [ch '"']) := rfl
  have hnull := @not_null_of_head (ch '"') (text ++ [ch '"']) (by decide) (by decide)
  have hlast : (text ++ [ch '"']).getLast? ≠ some (ch ' ') := by
    rw [List.getLast?_concat]
    decide
  have hquote : (ch '"' :: (text ++ [ch '"'])).getLast? = some (ch '"') := by
    rw [← List.cons_append, List.getLast?_concat]
  simp only [configFileLineValue, hskip, if_neg hnull]
  rw [if_neg (by simp), rdropWhile_space hlast, if_pos (.inr ⟨trivial, hquote⟩), List.tail_cons, List.dropLast_concat]

/-! ## Values that are read back -/

theorem number_byte {c : Byte} (h : isdigit c = true ∨ c = ch '-') :
    c ≠ 0 ∧ c ≠ ch '\r' ∧ c ≠ ch '\n' ∧ c ≠ ch ' ' ∧ c ≠ ch '\'' ∧ c ≠ ch '"' ∧ c ≠ ch '+' := by
  refine ⟨?_, ?_, ?_, ?_, ?_, ?_, ?_⟩
  all_goals
    rintro rfl
    exact absurd h (by decide)

theorem plainWord_fmtInt (x : Int) : PlainWord (fmtInt x) := by
  have hbyte : ∀ c ∈ fmtInt x, _ := fun c hc => number_byte (fmtInt_bytes hc)
  have hne : fmtInt x ≠ [] := by
    unfold fmtInt
    split
    · exact List.cons_ne_nil _ _
    · exact fmtNat_ne_nil _
  refine ⟨hne, fun c hc => ⟨(hbyte c hc).1, (hbyte c hc).2.1, (hbyte c hc).2.2.1⟩,
    fun h => (hbyte _ (List.mem_of_mem_head? h)).2.2.2.1 rfl, fun h => (hbyte _ (List.mem_of_mem_getLast? h)).2.2.2.1 rfl,
    ?_, ?_⟩
  · obtain ⟨c, rest, hcons⟩ := List.exists_cons_of_ne_nil hne
    rw [hcons]
    rcases @fmtInt_bytes x _ (hcons ▸ List.mem_cons_self) with hc | rfl
    · exact not_null_of_digit hc rest
    · exact not_null_of_head (by decide) (by decide)
  · rintro ⟨-, -, h | h⟩
    · exact (hbyte _ (List.mem_of_mem_head? h)).2.2.2.2.1 rfl
    · exact (hbyte _ (List.mem_of_mem_head? h)).2.2.2.2.2.1 rfl

theorem fmtInt_no_sign (x : Int) :
    startsWith (fmtInt x) (lit "++") = false ∧ startsWith (fmtInt x) (lit "--") = false := by
  constructor
  · rw [Bool.eq_false_iff, ne_eq, startsWith_iff]
    rintro ⟨rest, hrest⟩
    have hplus : ch '+' ∈ fmtInt x := hrest ▸ List.mem_cons_self
    exact (number_byte (fmtInt_bytes hplus)).2.2.2.2.2.2 rfl
  · rw [Bool.eq_false_iff, ne_eq, startsWith_iff]
    rintro ⟨rest, hrest⟩
    have hdigit : ch '-' ∈ fmtNat x.natAbs := by
      unfold fmtInt at hrest
      split at hrest
      · rw [(List.cons.inj hrest).2]
        exact List.mem_cons_self
      · rw [hrest]
        exact List.mem_cons_self
    exact absurd (fmtNat_digits _ _ hdigit) (by decide)

section Written

variable (palette : GuiPalette) (garbage : Int32) {t : ConfigOptionType} {option : ConfigOption t}

theorem plainWord_boolean (value : Bool) : PlainWord (if value then lit "on" else lit "off") := by
  cases value with
  | false => constructor <;> decide +kernel
  | true => constructor <;> decide +kernel

/-- Values that are not strings are written as plain words. -/
theorem plainWord_value (h : ReadsBack option) (ht : t ≠ .string) {value : ConfigValue t}
    (hvalue : option.value = some value) : PlainWord (configFileValueText palette option value) := by
  rw [ReadsBack, hvalue] at h
  cases t with
  | boolean => exact plainWord_boolean value
  | string => exact absurd rfl ht
  | color => exact h.elim
  | integer =>
    cases hwords : option.stringValues with
    | none =>
      simp only [configFileValueText, hwords]
      exact plainWord_fmtInt _
    | some words =>
      simp only [hwords] at h
      obtain ⟨-, word, hword, hplain, -⟩ := h
      simp only [configFileValueText, hwords]
      rw [List.getD_eq_getElem?_getD, hword]
      exact hplain

/-- The text of a value is on one line, and it is read as the value string. -/
theorem valueText_read (h : ReadsBack option) {value : ConfigValue t} (hvalue : option.value = some value) :
    OneLine (configFileValueText palette option value) ∧
      configFileLineValue (lit " " ++ configFileValueText palette option value) = configFileWrittenValue palette option := by
  by_cases ht : t = .string
  · subst ht
    have hline : OneLine value := by
      rw [ReadsBack, hvalue] at h
      exact h
    refine ⟨oneLine_append (oneLine_append (by decide) hline) (by decide), ?_⟩
    exact (lineValue_string value).trans hvalue.symm
  · have hplain := plainWord_value palette h ht hvalue
    have hwritten : configFileWrittenValue palette option = some (configFileValueText palette option value) := by
      cases t with
      | string => exact absurd rfl ht
      | boolean => simp only [configFileWrittenValue, hvalue, Option.map_some]
      | integer => simp only [configFileWrittenValue, hvalue, Option.map_some]
      | color => simp only [configFileWrittenValue, hvalue, Option.map_some]
    exact ⟨hplain.oneLine, by rw [hwritten, lineValue_word hplain]⟩

theorem setBoolean_word (old : Option Bool) (value : Bool) :
    (configFileSetBoolean old (if value then lit "on" else lit "off")).2 = some value := by
  rcases old with _ | _ | _ <;> cases value <;> decide +kernel

theorem setInteger_fmtInt {min max v : Int32} (hin : WithinBounds min max v.toInt) (old : Option Int32) :
    (configFileSetInteger min max old (fmtInt v.toInt)).2 = some v := by
  have hmin := v.le_toInt
  have hmax := v.toInt_lt
  have hlong := @strtol_fmtInt v.toInt (by rw [longMin]; omega) (by rw [longMax]; omega)
  have hparse : parseNumber (fmtInt v.toInt) = some v.toInt := by
    rw [parseNumber, hlong, if_pos rfl]
  obtain ⟨hplus, hminus⟩ := fmtInt_no_sign v.toInt
  have hnew : configFileNewInteger min max (old.getD 0) (fmtInt v.toInt) = some v := by
    rw [configFileNewInteger_iff]
    refine ⟨v.toInt, ?_, boundsTested_of_within hin _, (Int32.ofInt_toInt v).symm⟩
    simp only [denotedNumber, hplus, hminus, Bool.false_eq_true, if_false, hparse]
  simp only [configFileSetInteger, hnew, configFileStoreInt]

theorem setWord_word {words : List Str} {max v : Int32} {word : Str} (hpos : 0 ≤ v.toInt)
    (hword : words[v.toInt.toNat]? = some word) (hplus : startsWith word (lit "++") = false)
    (hminus : startsWith word (lit "--") = false)
    (hfirst : ∀ i < v.toInt.toNat, ∀ word', words[i]? = some word' → stringStrcasecmp word' word ≠ 0)
    (old : Option Int32) : (configFileSetWord words max old word).2 = some v := by
  have hfind : (words.findIdx? fun word' => stringStrcasecmp word' word = 0) = some v.toInt.toNat := by
    obtain ⟨hlen, heq⟩ := List.getElem?_eq_some_iff.mp hword
    rw [List.findIdx?_eq_some_iff_getElem]
    refine ⟨hlen, by rw [heq]; exact decide_eq_true (stringStrcasecmp_self word), fun i hi => ?_⟩
    simpa using hfirst i hi _ (List.getElem?_eq_getElem _)
  have hindex : configFileWordIndex words max (old.getD 0) word = v := by
    simp only [configFileWordIndex, hplus, hminus, Bool.false_eq_true, if_false, hfind]
    rw [← Int32.ofInt_eq_ofNat, Int.toNat_of_nonneg hpos, Int32.ofInt_toInt]
  have h0 : (0 : Int32) ≤ v := by
    rw [Int32.le_iff_toInt_le]
    exact hpos
  simp only [configFileSetWord, hindex, if_pos h0, configFileStoreInt]

/-- The value string gives the value back, whatever the value was before. -/
theorem setValue_written (h : ReadsBack option) {value : ConfigValue t} (hvalue : option.value = some value)
    {text : Str} (htext : configFileWrittenValue palette option = some text) (old : Option (ConfigValue t))
    (loaded : Bool) :
    (configFileSetValue palette garbage { option with value := old, loaded := loaded } text).2 = some value := by
  rw [ReadsBack, hvalue] at h
  cases t with
  | boolean =>
    simp only [configFileWrittenValue, hvalue, Option.map_some, configFileValueText, Option.some.injEq] at htext
    subst htext
    exact setBoolean_word old value
  | string =>
    simp only [configFileWrittenValue, hvalue, Option.some.injEq] at htext
    subst htext
    rfl
  | color => exact h.elim
  | integer =>
    cases hwords : option.stringValues with
    | none =>
      simp only [configFileWrittenValue, hvalue, Option.map_some, configFileValueText, hwords,
        Option.some.injEq] at htext
      subst htext
      simp only [hwords] at h
      simp only [configFileSetValue]
      exact setInteger_fmtInt h old
    | some words =>
      simp only [hwords] at h
      obtain ⟨hpos, word, hword, -, hplus, hminus, hfirst⟩ := h
      simp only [configFileWrittenValue, hvalue, Option.map_some, configFileValueText, hwords,
        List.getD_eq_getElem?_getD, hword, Option.getD_some, Option.some.injEq] at htext
      subst htext
      simp only [configFileSetValue]
      exact setWord_word hpos hword hplus hminus hfirst old

end Written

/-! ## The options of a section -/

section Options

variable (palette : GuiPalette) (garbage : Int32) (check : AnyOption → Option Str → Bool)

/-- The option with the value it was written with. -/
def loadedOption (option : AnyOption) : AnyOption := otherValue option option.2.value true

/-- The check callback lets the value of an option through. -/
def Checked (palette : GuiPalette) (check : AnyOption → Option Str → Bool) (option : AnyOption) : Prop :=
  ∀ value loaded, check (otherValue option value loaded) (configFileWrittenValue palette option.2) = true

theorem writtenValue_isSome {t : ConfigOptionType} {option : ConfigOption t} {value : ConfigValue t}
    (hvalue : option.value = some value) : ∃ text, configFileWrittenValue palette option = some text := by
  cases t with
  | string => exact ⟨value, hvalue⟩
  | boolean => exact ⟨_, congrArg (Option.map _) hvalue⟩
  | integer => exact ⟨_, congrArg (Option.map _) hvalue⟩
  | color => exact ⟨_, congrArg (Option.map _) hvalue⟩

theorem writtenValue_none {t : ConfigOptionType} {option : ConfigOption t} (hvalue : option.value = none) :
    configFileWrittenValue palette option = none := by
  cases t with
  | string => exact hvalue
  | boolean => exact congrArg (Option.map _) hvalue
  | integer => exact congrArg (Option.map _) hvalue
  | color => exact congrArg (Option.map _) hvalue

/-- The option has its value again, whatever its value was before. -/
theorem loadOption_written {option : AnyOption} (h : ReadsBack option.2) (hcheck : Checked palette check option)
    (old : Option (ConfigValue option.1)) (loaded : Bool) :
    configFileLoadOption palette garbage check (configFileWrittenValue palette option.2) (otherValue option old loaded) =
      loadedOption option := by
  obtain ⟨t, option⟩ := option
  simp only [configFileLoadOption, configFileOptionSet, hcheck old loaded, Bool.not_true, Bool.false_eq_true, if_false,
    configFileOptionChanged]
  cases hvalue : option.value with
  | some value =>
    obtain ⟨text, htext⟩ := writtenValue_isSome palette hvalue
    have hset := setValue_written palette garbage h hvalue htext old loaded
    simp only [htext, loadedOption, otherValue, hset, hvalue]
  | none =>
    have hnull : option.nullValueAllowed = true := by
      simpa [ReadsBack, hvalue] using h
    simp only [writtenValue_none palette hvalue, loadedOption, otherValue, hnull, Bool.true_and, hvalue]
    cases old with
    | none => rfl
    | some old => rfl

theorem optionIndex_append {first rest : List AnyOption} {option : AnyOption} {name : Str}
    (hname : option.2.name = name)
    (hfirst : ∀ o ∈ first, stringStrcasecmp o.2.name name ≠ 0) :
    configFileOptionIndex (first ++ option :: rest) name = some first.length := by
  rw [configFileOptionIndex, List.findIdx?_eq_some_iff_getElem]
  refine ⟨by simp, ?_, fun j hj => ?_⟩
  · rw [List.getElem_of_append rfl rfl, hname]
    exact decide_eq_true (stringStrcasecmp_self name)
  · rw [List.getElem_append_left hj]
    simpa using hfirst _ (List.getElem_mem hj)

theorem modify_append (first rest : List AnyOption) (option : AnyOption) (f : AnyOption → AnyOption) :
    (first ++ option :: rest).modify first.length f = first ++ f option :: rest := by
  induction first with
  | nil => rfl
  | cons o first ih => rw [List.cons_append, List.length_cons, List.modify_succ_cons, ih, List.cons_append]

/-- The reader in a section with some options. -/
def readerAt (sections : List ConfigSection) (i : Nat) (current : ConfigSection) (options : List AnyOption) :
    ConfigReader :=
  ⟨sections.set i { current with options := options }, some i⟩

theorem readerAt_section {sections : List ConfigSection} {i : Nat} (hi : i < sections.length) (current : ConfigSection)
    (options : List AnyOption) :
    (readerAt sections i current options).sections[i]? = some { current with options := options } := by
  simp [readerAt, hi]

theorem readOption_written {sections : List ConfigSection} {i : Nat} (hi : i < sections.length)
    {current : ConfigSection}
    (hread : current.callbackRead = none) {option : AnyOption} (h : ReadsBack option.2)
    (hcheck : Checked palette check option) {first : List AnyOption}
    (hfirst : ∀ o ∈ first, stringStrcasecmp o.2.name option.2.name ≠ 0) (old : Option (ConfigValue option.1))
    (loaded : Bool) (rest : List AnyOption) :
    configFileReadOption palette garbage check
        (readerAt sections i current (first ++ otherValue option old loaded :: rest)) option.2.name
        (configFileWrittenValue palette option.2) =
      readerAt sections i current (first ++ loadedOption option :: rest) := by
  have hsection := readerAt_section hi current (first ++ otherValue option old loaded :: rest)
  have hindex := @optionIndex_append first rest (otherValue option old loaded) option.2.name rfl hfirst
  have hptr : (readerAt sections i current (first ++ otherValue option old loaded :: rest)).ptrSection = some i := rfl
  simp only [configFileReadOption, hptr, Option.bind_some, hsection, hread, configFileFindOption, hindex,
    Option.map_some]
  have hmodify : ∀ s : ConfigSection, ∀ f : ConfigSection → ConfigSection,
      (sections.set i s).modify i f = sections.set i (f s) := fun s f => by
    refine List.ext_getElem? fun j => ?_
    by_cases hij : i = j
    · subst hij
      simp [hi]
    · simp [hij]
  simp only [readerAt, hmodify, modify_append, loadOption_written palette garbage check h hcheck]

/-- The line of an option: its first byte, and what is read from it. -/
theorem writeOption_line {option : AnyOption} (hname : LineName option.2.name) (h : ReadsBack option.2) :
    ∃ text c rest, configFileWriteOption palette option = text ++ [ch '\n'] ∧ OneLine text ∧ text = c :: rest ∧
      c ≠ ch ' ' ∧ c ≠ ch '#' ∧ c ≠ ch '[' ∧ c ≠ ch '\r' ∧ c ≠ ch '\n' ∧
      configFileParseLine text = (option.2.name, configFileWrittenValue palette option.2) := by
  have hescaped := escaped_name hname
  obtain ⟨c, rest, hcons, hc⟩ := hescaped.head
  cases hvalue : option.2.value with
  | none =>
    refine ⟨_, c, rest, ?_, hescaped.oneLine, hcons, hc.1, hc.2.1, hc.2.2.1, hc.2.2.2.1, hc.2.2.2.2, ?_⟩
    · simp only [configFileWriteOption, hvalue]
      rfl
    · rw [parseLine_none hescaped, writtenValue_none palette hvalue]
  | some value =>
    obtain ⟨hline, hread⟩ := valueText_read palette h hvalue
    refine ⟨_, c, rest ++ (lit " = " ++ configFileValueText palette option.2 value), ?_,
      oneLine_append hescaped.oneLine (oneLine_append (by decide : OneLine (lit " = ")) hline),
      by rw [hcons, List.cons_append], hc.1, hc.2.1,
      hc.2.2.1, hc.2.2.2.1, hc.2.2.2.2, ?_⟩
    · simp only [configFileWriteOption, hvalue, List.append_assoc]
      rfl
    · rw [parseLine_value hescaped hline, hread]

/-- A line that does not look like a comment or like a section has an option. -/
theorem readLine_option (reader : ConfigReader) {text rest : Str} {c : Byte} (htext : text = c :: rest)
    (hspace : c ≠ ch ' ') (hcomment : c ≠ ch '#') (hbracket : c ≠ ch '[') (hcr : c ≠ ch '\r') (hlf : c ≠ ch '\n') :
    configFileReadLine palette garbage check reader text =
      configFileReadOption palette garbage check reader (configFileParseLine text).1 (configFileParseLine text).2 := by
  rw [readLine_kind, lineKind_option htext hspace hcomment hbracket hcr hlf]
  rfl

/-- The options of a section are read one after another. -/
theorem readLoop_options {sections : List ConfigSection} {i : Nat} (hi : i < sections.length) {current : ConfigSection}
    (hread : current.callbackRead = none) {options olds : List AnyOption}
    (holds : List.Forall₂ (fun option old => ∃ value loaded, old = otherValue option value loaded) options olds)
    (hname : ∀ option ∈ options, LineName option.2.name) (h : ∀ option ∈ options, ReadsBack option.2)
    (hlen : ∀ option ∈ options, (configFileWriteOption palette option).length ≤ 16383)
    (hcheck : ∀ option ∈ options, Checked palette check option)
    (hpair : options.Pairwise fun a b => stringStrcasecmp a.2.name b.2.name ≠ 0) (first : List AnyOption)
    (hfirst : ∀ a ∈ first, ∀ b ∈ options, stringStrcasecmp a.2.name b.2.name ≠ 0) :
    configFileReadLoop palette garbage check (readerAt sections i current (first ++ olds))
        (options.flatMap (configFileWriteOption palette)) =
      readerAt sections i current (first ++ options.map loadedOption) := by
  induction holds generalizing first with
  | nil =>
    rw [List.flatMap_nil, configFileReadLoop]
    rfl
  | @cons option old options olds hold holds ih =>
    obtain ⟨value, loaded, rfl⟩ := hold
    have hin : ∀ o, o ∈ options → o ∈ option :: options := fun o ho => List.mem_cons_of_mem _ ho
    obtain ⟨hrest, hpair⟩ := List.pairwise_cons.mp hpair
    obtain ⟨text, c, rest, hwrite, hline, hcons, h1, h2, h3, h4, h5, hparse⟩ :=
      writeOption_line palette (hname option List.mem_cons_self) (h option List.mem_cons_self)
    have hskip : skipSpaces text ≠ [] := by
      rw [hcons, skipSpaces, List.dropWhile_cons_of_neg (by simpa using h1)]
      exact List.cons_ne_nil _ _
    have hshort : text.length < 16383 := by
      have := hlen option List.mem_cons_self
      rw [hwrite, List.length_append, List.length_singleton] at this
      omega
    rw [List.flatMap_cons, hwrite, List.append_assoc, List.singleton_append,
      readLoop_line palette garbage check _ hline hskip hshort,
      readLine_option palette garbage check _ hcons h1 h2 h3 h4 h5, hparse,
      readOption_written palette garbage check hi hread (h option List.mem_cons_self) (hcheck option List.mem_cons_self)
        (fun a ha => hfirst a ha option List.mem_cons_self)]
    have hnext := ih (fun o ho => hname o (hin o ho)) (fun o ho => h o (hin o ho)) (fun o ho => hlen o (hin o ho))
      (fun o ho => hcheck o (hin o ho)) hpair (first ++ [loadedOption option]) (fun a ha b hb => by
        rcases List.mem_append.mp ha with ha | ha
        · exact hfirst a ha b (hin b hb)
        · obtain rfl := List.mem_singleton.mp ha
          exact hrest b hb)
    rw [List.append_assoc, List.append_assoc] at hnext
    exact hnext

end Options

/-- A section that is written and read back has the options that were written,
with their values, whatever the values were when it was read. -/
theorem configFile_roundtrip (palette : GuiPalette) (garbage : Int32) (check : AnyOption → Option Str → Bool)
    {sections : List ConfigSection} {i : Nat} {written current : ConfigSection} (hcurrent : sections[i]? = some current)
    (hsearch : configFileSearchSection sections written.name = some i) (hread : current.callbackRead = none)
    (hheader : HeaderName written.name) (hheaderLen : written.name.length + 2 < 16383)
    (hname : ∀ option ∈ written.options, LineName option.2.name)
    (hpair : written.options.Pairwise fun a b => stringStrcasecmp a.2.name b.2.name ≠ 0)
    (hvalue : ∀ option ∈ written.options, ReadsBack option.2)
    (hlen : ∀ option ∈ written.options, (configFileWriteOption palette option).length ≤ 16383)
    (hcheck : ∀ option ∈ written.options, Checked palette check option)
    (hsame : List.Forall₂ (fun option old => ∃ value loaded, old = otherValue option value loaded) written.options
      current.options) :
    configFileReadInternal palette garbage check sections (configFileWriteSection palette written) =
      sections.set i { current with options := written.options.map loadedOption } := by
  obtain ⟨hi, hget⟩ := List.getElem?_eq_some_iff.mp hcurrent
  have hreader : (⟨sections, some i⟩ : ConfigReader) = readerAt sections i current ([] ++ current.options) := by
    rw [readerAt, List.nil_append, ← hget, List.set_getElem_self]
  have hoptions := readLoop_options palette garbage check hi hread hsame hname hvalue hlen hcheck hpair [] (by simp)
  rw [configFileReadInternal, configFileWriteSection, readLoop_header palette garbage check hheader hheaderLen, hsearch,
    hreader, hoptions, List.nil_append]
  rfl

/-- A section with a string and an integer. -/
def lookSection (text : Str) (size : Int32) : ConfigSection :=
  { name := lit "look"
    options :=
      [⟨.string, { name := lit "[text", stringValues := none, min := 0, max := 0, defaultValue := some [],
                   value := some text, nullValueAllowed := false, callbackChange := false, inSection := true,
                   loaded := true }⟩,
       ⟨.integer, { smallInteger with value := some size }⟩]
    callbackRead := none
    callbackCreateOption := none }

theorem configFile_roundtrip_look :
    configFileReadInternal plainPalette 0 (fun _ _ => true) [lookSection [] 0]
        (configFileWriteSection plainPalette (lookSection (lit " null = \"# ") 7)) =
      [lookSection [] 0].set 0 { lookSection [] 0 with
        options := (lookSection (lit " null = \"# ") 7).options.map loadedOption } := by
  refine configFile_roundtrip plainPalette 0 _ rfl (by decide +kernel) rfl
    ⟨by decide, by decide, by decide⟩ (by decide) ?_ (List.pairwise_pair.mpr (by decide +kernel)) ?_ (by decide) (fun _ _ _ _ => rfl)
    (.cons ⟨_, _, rfl⟩ (.cons ⟨_, _, rfl⟩ .nil))
  · intro option hoption
    rcases List.mem_cons.mp hoption with rfl | hoption
    · exact ⟨by decide, by decide, by decide, by decide, by decide⟩
    · obtain rfl := List.mem_singleton.mp hoption
      exact ⟨by decide, by decide, by decide, by decide, by decide⟩
  · intro option hoption
    rcases List.mem_cons.mp hoption with rfl | hoption
    · exact (by decide : OneLine (lit " null = \"# "))
    · obtain rfl := List.mem_singleton.mp hoption
      exact (by decide : (0 : Int) ≤ 7 ∧ (7 : Int) ≤ 10)

/-- A section with an option that has the words "null" and "other". -/
def wordSection (index : Int32) : ConfigSection :=
  { name := lit "look"
    options := [⟨.integer, { name := lit "word", stringValues := some [lit "null", lit "other"], min := 0, max := 1,
                             defaultValue := some 0, value := some index, nullValueAllowed := false,
                             callbackChange := false, inSection := true, loaded := true }⟩]
    callbackRead := none
    callbackCreateOption := none }

/-- The word "null" is read as no value. -/
theorem configFile_roundtrip_fails :
    ¬ ∀ (palette : GuiPalette) (garbage : Int32) (written current : ConfigSection),
      current.callbackRead = none → current.callbackCreateOption = none → HeaderName written.name →
      configFileSearchSection [current] written.name = some 0 → (∀ option ∈ written.options, LineName option.2.name) →
      (written.options.Pairwise fun a b => stringStrcasecmp a.2.name b.2.name ≠ 0) →
      (∀ option ∈ written.options, option.2.value.isSome ∧ option.2.WordsIndexed) →
      (∀ option ∈ written.options, (configFileWriteOption palette option).length ≤ 16383) →
      List.Forall₂ (fun option old => ∃ value loaded, old = otherValue option value loaded) written.options
        current.options →
      configFileReadInternal palette garbage (fun _ _ => true) [current] (configFileWriteSection palette written) =
        [{ current with options := written.options.map loadedOption }] := by
  intro h
  have hread := h plainPalette 0 (wordSection 0) (wordSection 1) rfl rfl ⟨by decide, by decide, by decide⟩
    (by decide +kernel)
    (fun option hoption => by
      obtain rfl := List.mem_singleton.mp hoption
      exact ⟨by decide, by decide, by decide, by decide, by decide⟩)
    (List.pairwise_singleton _ _)
    (fun option hoption => by
      obtain rfl := List.mem_singleton.mp hoption
      refine ⟨rfl, fun words hwords => ?_⟩
      obtain rfl := Option.some.inj hwords
      refine ⟨by decide, by decide, fun v hv => ?_, fun v hv => ?_⟩
      · obtain rfl := Option.some.inj hv
        decide
      · obtain rfl := Option.some.inj hv
        decide)
    (by decide) (.cons ⟨_, _, rfl⟩ .nil)
  have hoptions := congrArg (List.map ConfigSection.options) hread
  revert hoptions
  decide +kernel

end Wirc
