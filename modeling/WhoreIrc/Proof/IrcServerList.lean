import Mathlib.Data.List.Perm.Basic
import WhoreIrc.Spec.IrcServer

/-!
# Reordering servers is a permutation (`irc_server_reorder_perm`)

`reordered` puts one server at a time: a name that the list has not is skipped
(`reordered_skip`), and the server of another one is put before the rest
(`reordered_put`). The loop does the same in memory, after the servers that are
placed already.
-/

namespace Wirc

open Framework

/-! ## The order -/

theorem eraseDups_filter {α : Type*} [BEq α] [LawfulBEq α] (p : α → Bool) (l : List α) :
    (l.filter p).eraseDups = l.eraseDups.filter p := by
  induction hn : l.length using Nat.strong_induction_on generalizing l with
  | _ n ih =>
    cases l with
    | nil => rfl
    | cons a l =>
      have hlt : (l.filter fun b => !b == a).length < n := by
        rw [← hn]
        exact Nat.lt_succ_of_le (List.length_filter_le ..)
      have hrest := ih _ hlt (l.filter fun b => !b == a) rfl
      rw [List.eraseDups_cons]
      by_cases ha : p a
      · rw [List.filter_cons_of_pos ha, List.filter_cons_of_pos ha, List.eraseDups_cons, List.filter_filter, ← hrest,
          List.filter_filter]
        simp only [Bool.and_comm]
      · rw [List.filter_cons_of_neg ha, List.filter_cons_of_neg ha, ← hrest, List.filter_filter]
        refine congrArg List.eraseDups (List.filter_congr fun b _ => ?_)
        by_cases hb : b = a
        · rw [hb, Bool.not_eq_true] at *
          rw [ha, Bool.false_and]
        · rw [beq_eq_false_iff_ne.mpr hb, Bool.not_false, Bool.and_true]

section

variable {Server : Type} {name : Server → Str} {string : Str} {strings : List Str} {before after : List (Addr × Server)}
  {server : Addr × Server} {list : List (Addr × Server)}

theorem reordered_nil : reordered name [] list = list := by
  simp only [reordered, List.eraseDups_nil, List.filterMap_nil, List.nil_append, List.not_mem_nil, not_false_eq_true,
    decide_true, List.filter_true]

/-- The named servers, without those of a name that the list has not. -/
theorem filterMap_find_filter (hnone : ∀ x ∈ list, name x.2 ≠ string) :
    ((strings.filter fun b => !b == string).eraseDups.filterMap fun string => list.find? fun x => name x.2 = string) =
      strings.eraseDups.filterMap fun string => list.find? fun x => name x.2 = string := by
  rw [eraseDups_filter, List.filterMap_filter]
  refine List.filterMap_congr fun string' _ => ?_
  by_cases heq : string' = string
  · have hfind : list.find? (fun x => decide (name x.2 = string)) = none :=
      List.find?_eq_none.mpr fun x hx => by simpa using hnone x hx
    rw [heq, beq_self_eq_true, hfind]
    rfl
  · rw [beq_eq_false_iff_ne.mpr heq]
    rfl

theorem filter_skip (hnone : ∀ x ∈ list, name x.2 ≠ string) :
    (list.filter fun x => name x.2 ∉ string :: strings) = list.filter fun x => name x.2 ∉ strings := by
  refine List.filter_congr fun x hx => ?_
  rw [decide_eq_decide, List.mem_cons, not_or]
  exact and_iff_right (hnone x hx)

theorem reordered_skip (hnone : ∀ x ∈ list, name x.2 ≠ string) :
    reordered name (string :: strings) list = reordered name strings list := by
  have hfind : list.find? (fun x => decide (name x.2 = string)) = none :=
    List.find?_eq_none.mpr fun x hx => by simpa using hnone x hx
  rw [reordered, reordered, List.eraseDups_cons,
    List.filterMap_cons_none (f := fun string => list.find? fun x => name x.2 = string) hfind,
    filterMap_find_filter hnone, filter_skip hnone]

theorem reordered_put (strings : List Str) (before : List (Addr × Server)) (hname : name server.2 = string)
    (hnone : ∀ x ∈ before ++ after, name x.2 ≠ string) :
    reordered name (string :: strings) (before ++ server :: after) = server :: reordered name strings (before ++ after) := by
  have hbefore : before.find? (fun x => decide (name x.2 = string)) = none :=
    List.find?_eq_none.mpr fun x hx => by simpa using hnone x (List.mem_append_left _ hx)
  have hfind : (before ++ server :: after).find? (fun x => decide (name x.2 = string)) = some server := by
    rw [List.find?_append, hbefore, Option.none_or,
      List.find?_cons_of_pos (p := fun x : Addr × Server => name x.2 = string) (decide_eq_true hname)]
  have hother : ((strings.filter fun b => !b == string).eraseDups.filterMap fun string =>
      (before ++ server :: after).find? fun x => name x.2 = string) =
      (strings.filter fun b => !b == string).eraseDups.filterMap fun string =>
        (before ++ after).find? fun x => name x.2 = string := by
    refine List.filterMap_congr fun string' hmem => ?_
    have hne : string' ≠ string := by
      have hfilter := (List.mem_filter.mp (List.mem_eraseDups.mp hmem)).2
      rintro rfl
      rw [beq_self_eq_true] at hfilter
      exact Bool.false_ne_true hfilter
    rw [List.find?_append, List.find?_append, List.find?_cons_of_neg]
    rw [decide_eq_true_eq, hname]
    exact hne.symm
  have hserver : ¬ (decide (name server.2 ∉ string :: strings)) = true := by
    rw [decide_eq_true_eq, not_not, hname]
    exact List.mem_cons_self ..
  have hfilter : ((before ++ server :: after).filter fun x => name x.2 ∉ string :: strings) =
      (before ++ after).filter fun x => name x.2 ∉ strings := by
    rw [← filter_skip hnone, List.filter_append,
      List.filter_cons_of_neg (p := fun x : Addr × Server => name x.2 ∉ string :: strings) hserver, List.filter_append]
  rw [reordered, reordered, List.eraseDups_cons,
    List.filterMap_cons_some (f := fun string => (before ++ server :: after).find? fun x => name x.2 = string) hfind,
    hother, filterMap_find_filter hnone, hfilter]
  rfl

/-- The servers of a list that have another name than one of them. -/
theorem others_of_nodup (before : List (Addr × Server)) (hnames : ((before ++ server :: after).map fun x => name x.2).Nodup) :
    (∀ x ∈ before ++ after, name x.2 ≠ name server.2) ∧ ((before ++ after).map fun x => name x.2).Nodup := by
  have hperm : ((before ++ server :: after).map fun x => name x.2).Perm
      (name server.2 :: (before ++ after).map fun x => name x.2) := List.perm_middle.map _
  obtain ⟨hserver, hrest⟩ := List.nodup_cons.mp (hperm.nodup_iff.mp hnames)
  refine ⟨fun x hx heq => hserver ?_, hrest⟩
  rw [← heq]
  exact List.mem_map_of_mem hx

theorem reordered_perm (hnames : (list.map fun x => name x.2).Nodup) (strings : List Str) :
    (reordered name strings list).Perm list := by
  induction strings generalizing list with
  | nil => rw [reordered_nil]
  | cons string strings ih =>
    by_cases hmem : ∃ x ∈ list, name x.2 = string
    · obtain ⟨server, hmem, rfl⟩ := hmem
      obtain ⟨before, after, rfl⟩ := List.append_of_mem hmem
      obtain ⟨hnone, hrest⟩ := others_of_nodup _ hnames
      rw [reordered_put _ _ rfl hnone]
      exact ((ih hrest).cons server).trans List.perm_middle.symm
    · rw [reordered_skip fun x hx heq => hmem ⟨x, hx, heq⟩]
      exact ih hnames

end

/-! ## The servers in memory -/

section

variable {Server : Type} {name : Server → Str} {rounds : Nat} {servers : IrcServerList Server} {a p : Addr} {d e : Server}
  {xs ys zs rest : List (Addr × Server)} {string : Str} {strings : List Str}

/-- The server `a` is moved before the server `p`. -/
theorem ircServerMoveBefore_holds (h : servers.Holds (xs ++ (p, d) :: ys ++ (a, e) :: zs)) :
    ∃ servers', ircServerMoveBefore servers p a = some servers' ∧
      servers'.Holds (xs ++ (a, e) :: ((p, d) :: ys ++ zs)) ∧
      ∀ b ∉ addrs (xs ++ (p, d) :: ys ++ (a, e) :: zs), servers'.memory b = servers.memory b := by
  obtain ⟨hlinked, hnodup, hends⟩ := h
  have hperm : (addrs (xs ++ (p, d) :: ys ++ (a, e) :: zs)).Perm (addrs ((a, e) :: (xs ++ (p, d) :: ys ++ zs))) :=
    List.perm_middle.map Prod.fst
  obtain ⟨ha, hrest⟩ : a ∉ addrs (xs ++ (p, d) :: ys ++ zs) ∧ (addrs (xs ++ (p, d) :: ys ++ zs)).Nodup :=
    List.nodup_cons.mp (hperm.nodup_iff.mp hnodup)
  have hserver2 : servers.memory a = some ⟨e, lastPtr none (xs ++ (p, d) :: ys), firstPtr zs none⟩ :=
    (seg_append.mp hlinked).2.1
  -- what is left without `a`
  have hends' := unlinkNode_eq hends hlinked hnodup
  rw [unlinkNode, hserver2, Option.map_some, Option.some.injEq, Prod.mk.injEq] at hends'
  obtain ⟨hfirst, hlast⟩ := ListEnds.mk.inj hends'.2
  have hunlink := hlinked.unlink hnodup
  rw [List.append_assoc, List.cons_append] at hunlink ha hrest hfirst hlast
  have hpa : p ≠ a := by
    rintro rfl
    exact ha (by rw [addrs_append]; exact List.mem_append_right _ (List.mem_cons_self ..))
  have hserver := (seg_append.mp hunlink).2.1
  rw [Heap.free_of_ne hpa] at hserver
  rw [ircServerMoveBefore, hserver2, Option.bind_eq_bind, Option.bind_some]
  dsimp only
  rw [hserver, Option.bind_some]
  refine ⟨_, rfl, ⟨hlinked.move hnodup (List.cons_ne_nil _ _), ?_, ?_⟩, fun b hb => move_of_notMem hb⟩
  · have hperm' : (addrs (xs ++ (a, e) :: ((p, d) :: ys ++ zs))).Perm (addrs ((a, e) :: (xs ++ (p, d) :: (ys ++ zs)))) :=
      List.perm_middle.map Prod.fst
    exact hperm'.nodup_iff.mpr (List.nodup_cons.mpr ⟨ha, hrest⟩)
  · have hlast' : lastPtr none (xs ++ (p, d) :: (ys ++ zs)) = lastPtr none (xs ++ (a, e) :: ((p, d) :: ys ++ zs)) := by
      rw [lastPtr_append_of_ne (List.cons_ne_nil _ _), lastPtr_append_of_ne (List.cons_ne_nil _ _)]
      rfl
    rw [hfirst, hlast, hlast', endsOf, ListEnds.mk.injEq]
    refine ⟨?_, rfl⟩
    cases xs with
    | nil => exact if_pos rfl
    | cons x xs =>
      refine if_neg fun hx => (List.nodup_cons.mp hrest).1 ?_
      rw [Option.some.inj hx]
      have hmem : (p, d) ∈ xs ++ (p, d) :: (ys ++ zs) := List.mem_append_right xs (List.mem_cons_self ..)
      exact List.mem_map_of_mem hmem

/-- The loop finds the next server where it is. -/
theorem ircServerReorderLoop_head (h : servers.Holds (xs ++ (p, d) :: rest)) (hname : name d = string)
    (hrounds : rest.length < rounds) (numMoved : Int) :
    ircServerReorderLoop name rounds (string :: strings) (some p) servers numMoved =
      ircServerReorderLoop name rounds strings (firstPtr rest none) servers numMoved := by
  have hlinked := (seg_append.mp h.linked).2
  have hlength : ((p, d) :: rest).length ≤ rounds := hrounds
  have hfind := hlinked.find (p := fun server => decide (name server = string)) hlength
  rw [List.find?_cons_of_pos (p := fun x : Addr × Server => decide (name x.2 = string)) (decide_eq_true hname)] at hfind
  rw [ircServerReorderLoop]
  rw [firstPtr_cons, Option.map_some] at hfind
  rw [hfind, Option.bind_eq_bind, Option.bind_some, if_pos rfl, hlinked.1]
  rfl

/-- The loop finds the server further in the list. -/
theorem ircServerReorderLoop_move (h : servers.Holds (xs ++ (p, d) :: ys ++ (a, e) :: zs)) (hname : name e = string)
    (hnone : ∀ x ∈ (p, d) :: ys, name x.2 ≠ string) (hrounds : ((p, d) :: ys ++ (a, e) :: zs).length ≤ rounds)
    (numMoved : Int) :
    ircServerReorderLoop name rounds (string :: strings) (some p) servers numMoved =
      (ircServerMoveBefore servers p a).bind fun servers =>
        ircServerReorderLoop name rounds strings (some p) servers (numMoved + 1) := by
  have hlinked := h.linked
  rw [List.append_assoc] at hlinked
  have hfind := (seg_append.mp hlinked).2.find (p := fun server => decide (name server = string)) hrounds
  have hys : ((p, d) :: ys).find? (fun x => decide (name x.2 = string)) = none :=
    List.find?_eq_none.mpr fun x hx => by simpa using hnone x hx
  rw [List.find?_append, hys, Option.none_or,
    List.find?_cons_of_pos (p := fun x : Addr × Server => decide (name x.2 = string)) (decide_eq_true hname)] at hfind
  have hpa : (some a : Option Addr) ≠ some p := by
    intro heq
    have hnodup := h.nodup
    rw [List.append_assoc, addrs_append] at hnodup
    refine (List.nodup_cons.mp (List.nodup_append.mp hnodup).2.1).1 ?_
    rw [← Option.some.inj heq]
    have hmem : (a, e) ∈ ys ++ (a, e) :: zs := List.mem_append_right ys (List.mem_cons_self ..)
    exact List.mem_map.mpr ⟨(a, e), hmem, rfl⟩
  rw [ircServerReorderLoop]
  rw [List.cons_append, firstPtr_cons] at hfind
  rw [hfind, Option.bind_eq_bind, Option.bind_some]
  exact if_neg hpa

/-- The loop does not find a server. -/
theorem ircServerReorderLoop_skip (h : servers.Holds (xs ++ (p, d) :: rest))
    (hnone : ∀ x ∈ (p, d) :: rest, name x.2 ≠ string) (hrounds : rest.length < rounds) (numMoved : Int) :
    ircServerReorderLoop name rounds (string :: strings) (some p) servers numMoved =
      ircServerReorderLoop name rounds strings (some p) servers numMoved := by
  have hlength : ((p, d) :: rest).length ≤ rounds := hrounds
  have hfind := (seg_append.mp h.linked).2.find (p := fun server => decide (name server = string)) hlength
  have hnone' : ((p, d) :: rest).find? (fun x => decide (name x.2 = string)) = none :=
    List.find?_eq_none.mpr fun x hx => by simpa using hnone x hx
  rw [hnone', firstPtr_cons] at hfind
  rw [ircServerReorderLoop]
  rw [hfind, Option.bind_eq_bind, Option.bind_some]
  rfl

/-- The loop, when the servers of `xs` are placed already. -/
theorem ircServerReorderLoop_right (strings : List Str) (xs : List (Addr × Server)) (h : servers.Holds (xs ++ rest)) (hnames : (rest.map fun x => name x.2).Nodup)
    (hrounds : rest.length ≤ rounds) (numMoved : Int) :
    ∃ servers' moved, ircServerReorderLoop name rounds strings (firstPtr rest none) servers numMoved =
        some (servers', numMoved + moved) ∧
      servers'.Holds (xs ++ reordered name strings rest) ∧ 0 ≤ moved ∧ (moved = 0 ↔ reordered name strings rest = rest) ∧
      ∀ b ∉ addrs (xs ++ rest), servers'.memory b = servers.memory b := by
  induction strings generalizing servers xs rest numMoved with
  | nil =>
    rw [reordered_nil]
    exact ⟨servers, 0, by rw [ircServerReorderLoop, Int.add_zero], h, Int.le_refl _, iff_of_true rfl rfl, fun _ _ => rfl⟩
  | cons string strings ih =>
    cases rest with
    | nil =>
      have hperm : (reordered name (string :: strings) ([] : List (Addr × Server))).Perm [] :=
        reordered_perm (by rw [List.map_nil]; exact List.nodup_nil) _
      have hnil := List.perm_nil.mp hperm
      rw [hnil]
      exact ⟨servers, 0, by rw [firstPtr_nil, ircServerReorderLoop, Int.add_zero], h, Int.le_refl _, iff_of_true rfl rfl,
        fun _ _ => rfl⟩
    | cons x rest =>
      obtain ⟨p, d⟩ := x
      rw [firstPtr_cons]
      by_cases hmem : ∃ x ∈ (p, d) :: rest, name x.2 = string
      · obtain ⟨⟨a, e⟩, hmem, hname⟩ := hmem
        obtain ⟨before, after, heq⟩ := List.append_of_mem hmem
        cases before with
        | nil =>
          -- the server is at its place
          rw [List.nil_append, List.cons.injEq, Prod.mk.injEq] at heq
          obtain ⟨⟨rfl, rfl⟩, rfl⟩ := heq
          obtain ⟨hnone, hrest⟩ := others_of_nodup [] hnames
          have h' : servers.Holds (xs ++ [(p, d)] ++ rest) := by rw [List.append_assoc]; exact h
          obtain ⟨servers', moved, hloop, hholds, hle, hmoved, hframe⟩ :=
            ih _ h' hrest (Nat.le_of_lt hrounds) numMoved
          have hput := reordered_put strings [] hname (fun x hx => hname ▸ hnone x hx)
          rw [List.nil_append] at hput
          refine ⟨servers', moved, ?_, ?_, hle, ?_, ?_⟩
          · rw [ircServerReorderLoop_head h hname hrounds]
            exact hloop
          · rw [hput]
            rw [List.append_assoc] at hholds
            exact hholds
          · rw [hput, List.cons_inj_right]
            exact hmoved
          · rw [List.append_assoc] at hframe
            exact hframe
        | cons x ys =>
          -- the server is moved
          rw [List.cons_append, List.cons.injEq] at heq
          obtain ⟨rfl, rfl⟩ := heq
          obtain ⟨hnone, hrest⟩ := others_of_nodup ((p, d) :: ys) hnames
          rw [hname] at hnone
          have h' : servers.Holds (xs ++ (p, d) :: ys ++ (a, e) :: after) := by rw [List.append_assoc]; exact h
          obtain ⟨servers1, hmove, hholds1, hframe1⟩ := ircServerMoveBefore_holds h'
          have h1 : servers1.Holds (xs ++ [(a, e)] ++ ((p, d) :: ys ++ after)) := by rw [List.append_assoc]; exact hholds1
          have hlength : ((p, d) :: ys ++ after).length ≤ rounds := by
            have hcons : ((p, d) :: (ys ++ (a, e) :: after)).length ≤ rounds := hrounds
            simp only [List.length_cons, List.length_append] at hcons ⊢
            omega
          obtain ⟨servers', moved, hloop, hholds, hle, hmoved, hframe⟩ := ih _ h1 hrest hlength (numMoved + 1)
          have hput := reordered_put strings ((p, d) :: ys) hname hnone
          rw [List.cons_append] at hput
          refine ⟨servers', moved + 1, ?_, ?_, Int.le_add_one hle, ?_, ?_⟩
          · rw [ircServerReorderLoop_move h' hname (fun x hx => hnone x (List.mem_append_left _ hx)) hrounds, hmove,
              Option.bind_some]
            rw [Int.add_right_comm, Int.add_assoc] at hloop
            exact hloop
          · rw [hput]
            rw [List.append_assoc] at hholds
            exact hholds
          · rw [hput]
            refine iff_of_false (by omega) fun hsame => ?_
            -- another server than the first one comes first
            have hfirst : name e = name d := congrArg (fun x => name x.2) (List.cons.inj hsame).1
            exact hnone (p, d) (List.mem_append_left _ (List.mem_cons_self ..)) (hfirst.symm.trans hname)
          · intro b hb
            rw [hframe b, hframe1 b]
            · rw [List.append_assoc]
              exact hb
            · have hperm : (addrs (xs ++ [(a, e)] ++ ((p, d) :: ys ++ after))).Perm
                  (addrs (xs ++ ((p, d) :: ys ++ (a, e) :: after))) := by
                have hmiddle : ((a, e) :: ((p, d) :: ys ++ after)).Perm ((p, d) :: ys ++ (a, e) :: after) :=
                  List.perm_middle.symm
                rw [List.append_assoc]
                exact (hmiddle.append_left xs).map Prod.fst
              exact fun hmem => hb (hperm.mem_iff.mp hmem)
      · have hnone : ∀ x ∈ (p, d) :: rest, name x.2 ≠ string := fun x hx heq => hmem ⟨x, hx, heq⟩
        rw [reordered_skip hnone, ircServerReorderLoop_skip h hnone hrounds]
        exact ih xs h hnames hrounds numMoved

/-- After `irc_server_reorder` the list holds the same servers, linked in the order asked for,
and 0 is returned if and only if it was their order before. -/
theorem irc_server_reorder_perm {list : List (Addr × Server)} (h : servers.Holds list)
    (hnames : (list.map fun server => name server.2).Nodup) (hrounds : list.length ≤ rounds) (strings : List Str) :
    ∃ result, ircServerReorder name rounds servers strings = some result ∧ ReorderRight name servers list strings result := by
  obtain ⟨servers', moved, hloop, hholds, -, hmoved, hframe⟩ :=
    ircServerReorderLoop_right strings [] h hnames hrounds 0
  refine ⟨(servers', 0 + moved), ?_, hholds, reordered_perm hnames strings, ?_, hframe⟩
  · rw [ircServerReorder, h.ends]
    exact hloop
  · rw [Int.zero_add]
    exact hmoved

end

/-- Two servers, by their names. -/
def twoServers : IrcServerList Str where
  memory := fun a => if a = 1 then some ⟨lit "a", none, some 2⟩ else if a = 2 then some ⟨lit "b", some 1, none⟩ else none
  ends := ⟨some 1, some 2⟩

theorem irc_server_reorder_perm_two :
    twoServers.Holds [(1, lit "a"), (2, lit "b")] ∧
      ∃ result, ircServerReorder id 2 twoServers [lit "c", lit "b"] = some result ∧
        ReorderRight id twoServers [(1, lit "a"), (2, lit "b")] [lit "c", lit "b"] result := by
  have hholds : twoServers.Holds [(1, lit "a"), (2, lit "b")] := ⟨⟨rfl, rfl, trivial⟩, by decide, rfl⟩
  exact ⟨hholds, irc_server_reorder_perm hholds (by decide) (by decide) [lit "c", lit "b"]⟩

end Wirc
