import Mathlib.Data.List.Nodup
import WhoreIrc.Spec.IrcRedirect
import WhoreIrc.Framework.Run
import WhoreIrc.Framework.Runs

/-!
# Redirections deliver each message once

Each redirect of the list agrees with the history (`Pending`), and each step adds
to both. The callbacks of a signal are the same on a list with and without the
redirect that sends it, which is freed after them.
-/

namespace Wirc

open IrcRedirectCall Framework

section

variable {server server' : IrcRedirects} {calls : List IrcRedirectCall} {redirect redirect' : IrcRedirect}
  {ptrRedirect : Nat}

/-! ## The history -/

theorem messagesAccepted_concat (calls : List IrcRedirectCall) (call : IrcRedirectCall) (id : Nat) :
    messagesAccepted (calls ++ [call]) id = messagesAccepted calls id ++ messagesAccepted [call] id := by
  rw [messagesAccepted, List.filterMap_append, List.filter_append, List.map_append]
  rfl

theorem runsCompleted_concat (calls : List IrcRedirectCall) (call : IrcRedirectCall) (id : Nat) :
    runsCompleted (calls ++ [call]) id = runsCompleted calls id + runsCompleted [call] id := List.countP_append

/-- A call for another redirect. -/
theorem messagesAccepted_other {call : IrcRedirectCall} {id : Nat} (h : call.redirect ≠ id) :
    messagesAccepted [call] id = [] := by
  cases call with
  | add id' message command =>
    have hne : (id' == id) = false := beq_eq_false_iff_ne.mpr h
    simp only [messagesAccepted, List.filterMap_cons, added, List.filterMap_nil, List.filter_cons, hne, List.filter_nil,
      Bool.false_eq_true, if_false, List.map_nil]
  | test _ => rfl
  | stop _ _ => rfl
  | send _ _ => rfl

theorem runsCompleted_other {call : IrcRedirectCall} {id : Nat} (h : call.redirect ≠ id) :
    runsCompleted [call] id = 0 := by
  cases call with
  | stop id' error =>
    have hne : (id' == id) = false := beq_eq_false_iff_ne.mpr h
    rw [runsCompleted, List.countP_singleton]
    simp only [completes, hne, Bool.false_and, Bool.false_eq_true, if_false]
  | test _ => rfl
  | add _ _ _ => rfl
  | send _ _ => rfl

theorem Sends_redirect {call : IrcRedirectCall} {id : Nat} (h : call.Sends id) : call.redirect = id := by
  cases call with
  | send r signal => exact h
  | test _ => exact h.elim
  | add _ _ _ => exact h.elim
  | stop _ _ => exact h.elim

/-- The redirect agrees with the history. -/
structure Pending (calls : List IrcRedirectCall) (redirect : IrcRedirect) : Prop where
  unsent : ∀ call ∈ calls, ¬ call.Sends redirect.id
  current : redirect.currentCount = runsCompleted calls redirect.id + 1
  le : redirect.currentCount ≤ redirect.count
  output : redirect.output =
    if messagesFiltered redirect.cmdFilter (messagesAccepted calls redirect.id) = [] then none
    else some (List.intercalate [ch '\n'] (messagesFiltered redirect.cmdFilter (messagesAccepted calls redirect.id)))
  outputSize : redirect.outputSize = outputSizeOf (messagesFiltered redirect.cmdFilter (messagesAccepted calls redirect.id))

/-- The parts of a redirect that the history is about. -/
structure IrcRedirect.SameHistory (redirect redirect' : IrcRedirect) : Prop where
  id : redirect'.id = redirect.id
  count : redirect'.count = redirect.count
  currentCount : redirect'.currentCount = redirect.currentCount
  cmdFilter : redirect'.cmdFilter = redirect.cmdFilter
  output : redirect'.output = redirect.output
  outputSize : redirect'.outputSize = redirect.outputSize

theorem Pending.same (h : Pending calls redirect) (hsame : redirect.SameHistory redirect') :
    Pending calls redirect' where
  unsent := by rw [hsame.id]; exact h.unsent
  current := by rw [hsame.id, hsame.currentCount]; exact h.current
  le := by rw [hsame.currentCount, hsame.count]; exact h.le
  output := by rw [hsame.id, hsame.cmdFilter, hsame.output]; exact h.output
  outputSize := by rw [hsame.id, hsame.cmdFilter, hsame.outputSize]; exact h.outputSize

/-- A call for another redirect, which is not to send a signal. -/
theorem Pending.concat {call : IrcRedirectCall} (h : Pending calls redirect) (hother : call.redirect ≠ redirect.id) :
    Pending (calls ++ [call]) redirect where
  unsent := by
    intro call' hmem
    rw [List.mem_append, List.mem_singleton] at hmem
    rcases hmem with hmem | rfl
    · exact h.unsent call' hmem
    · exact fun hsends => hother (Sends_redirect hsends)
  current := by rw [runsCompleted_concat, runsCompleted_other hother]; exact h.current
  le := h.le
  output := by rw [messagesAccepted_concat, messagesAccepted_other hother, List.append_nil]; exact h.output
  outputSize := by rw [messagesAccepted_concat, messagesAccepted_other hother, List.append_nil]; exact h.outputSize

/-- The message is tested. -/
theorem Pending.test (h : Pending calls redirect) (other : IrcRedirect) :
    Pending (calls ++ [.test other]) redirect where
  unsent := by
    intro call' hmem
    rw [List.mem_append, List.mem_singleton] at hmem
    rcases hmem with hmem | rfl
    · exact h.unsent call' hmem
    · exact id
  current := by rw [runsCompleted_concat]; exact h.current
  le := h.le
  output := by rw [messagesAccepted_concat]; exact (List.append_nil (messagesAccepted calls redirect.id)).symm ▸ h.output
  outputSize := by
    rw [messagesAccepted_concat]
    exact (List.append_nil (messagesAccepted calls redirect.id)).symm ▸ h.outputSize

/-- The message is added. -/
theorem Pending.add (h : Pending calls redirect) (message command : Str) :
    Pending (calls ++ [.add redirect.id message command]) (ircRedirectMessageAdd redirect message command) := by
  have haccepted : messagesAccepted (calls ++ [.add redirect.id message command]) redirect.id =
      messagesAccepted calls redirect.id ++ [(message, command)] := by
    rw [messagesAccepted_concat]
    simp only [messagesAccepted, List.filterMap_cons, added, List.filterMap_nil, List.filter_cons,
      beq_self_eq_true, if_true,
      List.filter_nil, List.map_cons, List.map_nil]
  have hunsent : ∀ call ∈ calls ++ [.add redirect.id message command], ¬ call.Sends redirect.id := by
    intro call hmem
    rw [List.mem_append, List.mem_singleton] at hmem
    rcases hmem with hmem | rfl
    · exact h.unsent call hmem
    · exact id
  have hcurrent : redirect.currentCount =
      runsCompleted (calls ++ [.add redirect.id message command]) redirect.id + 1 := by
    rw [runsCompleted_concat]
    exact h.current
  have hfiltered : messagesFiltered redirect.cmdFilter (messagesAccepted calls redirect.id ++ [(message, command)]) =
      messagesFiltered redirect.cmdFilter (messagesAccepted calls redirect.id) ++
        messagesFiltered redirect.cmdFilter [(message, command)] := by
    rw [messagesFiltered, List.filter_append, List.map_append]
    rfl
  rw [ircRedirectMessageAdd]
  split
  · rename_i hfilter
    -- the command is not for the output
    have hnone : messagesFiltered redirect.cmdFilter [(message, command)] = [] := by
      cases hcase : redirect.cmdFilter with
      | none =>
        rw [hcase] at hfilter
        exact absurd hfilter Bool.false_ne_true
      | some cmdFilter =>
        rw [hcase, Option.any_some, Bool.not_eq_true'] at hfilter
        simp only [messagesFiltered, List.filter_cons, Option.all_some, hfilter, Bool.false_eq_true, if_false,
          List.filter_nil, List.map_nil]
    refine ⟨hunsent, hcurrent, h.le, ?_, ?_⟩
    · rw [haccepted, hfiltered, hnone, List.append_nil]
      exact h.output
    · rw [haccepted, hfiltered, hnone, List.append_nil]
      exact h.outputSize
  · rename_i hfilter
    have hone : messagesFiltered redirect.cmdFilter [(message, command)] = [message] := by
      cases hcase : redirect.cmdFilter with
      | none => rfl
      | some cmdFilter =>
        rw [hcase, Option.any_some, Bool.not_eq_true', Bool.not_eq_false] at hfilter
        simp only [messagesFiltered, List.filter_cons, Option.all_some, hfilter, if_true, List.filter_nil,
          List.map_cons,
          List.map_nil]
    by_cases hnil : messagesFiltered redirect.cmdFilter (messagesAccepted calls redirect.id) = []
    · have houtput := h.output
      have hsize := h.outputSize
      rw [if_pos hnil] at houtput
      rw [houtput]
      refine ⟨hunsent, hcurrent, h.le, ?_, ?_⟩
      · rw [haccepted, hfiltered, hone, hnil, List.nil_append, if_neg (List.cons_ne_nil _ _),
          List.intercalate_singleton]
      · rw [haccepted, hfiltered, hone, hnil, List.nil_append, outputSizeOf, if_neg (List.cons_ne_nil _ _),
          List.intercalate_singleton]
    · have houtput := h.output
      have hsize := h.outputSize
      rw [if_neg hnil] at houtput
      rw [houtput]
      refine ⟨hunsent, hcurrent, h.le, ?_, ?_⟩
      · rw [haccepted, hfiltered, hone, if_neg (List.append_ne_nil_of_right_ne_nil _ (List.cons_ne_nil _ _)),
          intercalate_concat _ _ hnil]
        rfl
      · rw [haccepted, hfiltered, hone, outputSizeOf,
          if_neg (List.append_ne_nil_of_right_ne_nil _ (List.cons_ne_nil _ _)), intercalate_concat _ _ hnil]
        rw [outputSizeOf, if_neg hnil] at hsize
        rw [hsize]
        simp only [List.length_append, List.length_singleton]
        omega

/-- A run is complete, and it is not the last one. -/
theorem Pending.stop (h : Pending calls redirect) (hlt : ¬ redirect.count < redirect.counted.currentCount) :
    Pending (calls ++ [.stop redirect.id none]) redirect.counted.continued := by
  have hone : runsCompleted [.stop redirect.id none] redirect.id = 1 := by
    rw [runsCompleted, List.countP_singleton]
    simp only [completes, beq_self_eq_true, Option.isNone_none, Bool.and_self, if_true]
  refine ⟨?_, ?_, Int.not_lt.mp hlt, ?_, ?_⟩
  · intro call hmem
    rw [List.mem_append, List.mem_singleton] at hmem
    rcases hmem with hmem | rfl
    · exact h.unsent call hmem
    · exact id
  · show redirect.currentCount + 1 = (runsCompleted (calls ++ [.stop redirect.id none]) redirect.id : Int) + 1
    rw [runsCompleted_concat, hone, h.current]
    omega
  · rw [messagesAccepted_concat]
    exact (List.append_nil (messagesAccepted calls redirect.id)).symm ▸ h.output
  · rw [messagesAccepted_concat]
    exact (List.append_nil (messagesAccepted calls redirect.id)).symm ▸ h.outputSize

/-- What is sent when the redirect is stopped for good. -/
theorem Pending.signalRight (h : Pending calls redirect) {error : Option Str}
    (herror : error = none ∨ ∃ text, error = some text ∧ text ≠ [])
    (hend : error.isSome ∨ redirect.count < redirect.counted.currentCount)
    (hcalls : server.calls = calls ++ [.stop redirect.id error]) :
    SignalRight server.calls redirect.counted (ircRedirectSignal server redirect.counted error) := by
  have haccepted : messagesAccepted server.calls redirect.id = messagesAccepted calls redirect.id := by
    rw [hcalls, messagesAccepted_concat]
    exact List.append_nil _
  refine ⟨?_, ?_, ?_⟩
  · intro hnil
    rcases herror with rfl | ⟨text, rfl, htext⟩
    · refine ⟨?_, ?_⟩
      · have hone : runsCompleted [.stop redirect.id none] redirect.id = 1 := by
          rw [runsCompleted, List.countP_singleton]
          simp only [completes, beq_self_eq_true, Option.isNone_none, Bool.and_self, if_true]
        have hlt : redirect.count < redirect.currentCount + 1 := hend.resolve_left Bool.false_ne_true
        have hle := h.le
        have hcurrent := h.current
        show (runsCompleted server.calls redirect.id : Int) = redirect.count
        rw [hcalls, runsCompleted_concat, hone]
        omega
      · rw [hcalls, List.getLast?_concat]
        rfl
    · exact absurd hnil htext
  · show redirect.output.getD [] = List.intercalate _ (messagesFiltered redirect.cmdFilter (messagesAccepted server.calls redirect.id))
    rw [haccepted, h.output]
    split
    · rename_i hnil
      rw [hnil]
      rfl
    · rfl
  · show fmtInt redirect.outputSize = fmtInt (outputSizeOf (messagesFiltered redirect.cmdFilter (messagesAccepted server.calls redirect.id)))
    rw [haccepted, h.outputSize]

/-! ## The list and the history -/

/-- Signals are right, and nothing is done for a redirect after its signal. -/
def SendsLast (calls : List IrcRedirectCall) : Prop :=
  ∀ before redirect signal after, calls = before ++ .send redirect signal :: after →
    SignalRight before redirect signal ∧ ∀ call ∈ after, call.redirect ≠ redirect.id

theorem SendsLast.concat {call : IrcRedirectCall} (h : SendsLast calls)
    (hafter : ∀ call' ∈ calls, ¬ call'.Sends call.redirect)
    (hsend : ∀ redirect signal, call = .send redirect signal → SignalRight calls redirect signal) :
    SendsLast (calls ++ [call]) := by
  intro before redirect signal after heq
  rcases List.eq_nil_or_concat after with rfl | ⟨after, last, rfl⟩
  · have hlength : [call].length = [IrcRedirectCall.send redirect signal].length := rfl
    obtain ⟨rfl, hcall⟩ := List.append_inj' heq hlength
    exact ⟨hsend redirect signal (List.cons.inj hcall).1, List.forall_mem_nil _⟩
  · rw [List.concat_eq_append, ← List.cons_append, ← List.append_assoc] at heq
    have hlength : [call].length = [last].length := rfl
    obtain ⟨rfl, hcall⟩ := List.append_inj' heq hlength
    obtain ⟨hright, hlast⟩ := h before redirect signal after rfl
    refine ⟨hright, fun call' hmem => ?_⟩
    rw [List.concat_eq_append, List.mem_append, List.mem_singleton] at hmem
    rcases hmem with hmem | rfl
    · exact hlast call' hmem
    · intro hsame
      refine hafter (.send redirect signal) (List.mem_append_right _ (List.mem_cons_self ..)) ?_
      rw [(List.cons.inj hcall).1]
      exact hsame.symm

/-- The redirects of the list agree with the history, and the others are done with. -/
structure HistoryRight (server : IrcRedirects) : Prop where
  nodup : (server.redirects.map IrcRedirect.id).Nodup
  lt : ∀ redirect ∈ server.redirects, redirect.id < server.created
  pending : ∀ redirect ∈ server.redirects, Pending server.calls redirect
  sent : ∀ id < server.created, (∀ redirect ∈ server.redirects, redirect.id ≠ id) → ∃ call ∈ server.calls, call.Sends id
  known : ∀ call ∈ server.calls, call.redirect < server.created
  last : SendsLast server.calls

/-- The redirects before and after the one at a place. -/
theorem exists_split (h : HistoryRight server) (hget : server.redirects[ptrRedirect]? = some redirect) :
    ∃ walked rest, server.redirects = walked ++ redirect :: rest ∧ walked.length = ptrRedirect ∧
      (∀ other ∈ walked ++ rest, other.id ≠ redirect.id) := by
  obtain ⟨hlt, hget⟩ := List.getElem?_eq_some_iff.mp hget
  have hsplit : server.redirects = server.redirects.take ptrRedirect ++ redirect :: server.redirects.drop (ptrRedirect + 1) := by
    rw [← hget, ← List.drop_eq_getElem_cons hlt, List.take_append_drop]
  refine ⟨_, _, hsplit, List.length_take_of_le (Nat.le_of_lt hlt), ?_⟩
  have hnodup := h.nodup
  rw [hsplit, List.map_append, List.map_cons, List.nodup_middle, List.nodup_cons, ← List.map_append] at hnodup
  intro other hmem hsame
  exact hnodup.1 (List.mem_map.mpr ⟨other, hmem, hsame⟩)

/-- A redirect of the list changes as a call for it says. -/
theorem HistoryRight.set {call : IrcRedirectCall} (h : HistoryRight server)
    (hget : server.redirects[ptrRedirect]? = some redirect) (hid : redirect'.id = redirect.id)
    (hcall : call.redirect = redirect.id) (hsend : ∀ id, ¬ call.Sends id)
    (hpending : Pending (server.calls ++ [call]) redirect') :
    HistoryRight ((server.set ptrRedirect redirect').call call) := by
  obtain ⟨walked, rest, hsplit, rfl, hother⟩ := exists_split h hget
  have hlist : ((server.set walked.length redirect').call call).redirects = walked ++ redirect' :: rest := by
    show server.redirects.set walked.length redirect' = _
    rw [hsplit, List.set_append_right _ _ (Nat.le_refl _), Nat.sub_self, List.set_cons_zero]
  have hmem : redirect ∈ server.redirects := by
    rw [hsplit]
    exact List.mem_append_right _ (List.mem_cons_self ..)
  have hcases : ∀ other ∈ walked ++ redirect' :: rest, other =
      redirect' ∨ (other ∈ server.redirects ∧ other.id ≠ redirect.id) := by
    intro other hmem
    rw [List.mem_append, List.mem_cons] at hmem
    rw [hsplit, List.mem_append, List.mem_cons]
    rcases hmem with hmem | rfl | hmem
    · exact .inr ⟨.inl hmem, hother other (List.mem_append_left _ hmem)⟩
    · exact .inl rfl
    · exact .inr ⟨.inr (.inr hmem), hother other (List.mem_append_right _ hmem)⟩
  refine ⟨?_, ?_, ?_, ?_, ?_, ?_⟩
  · have hnodup := h.nodup
    rw [hsplit] at hnodup
    rw [hlist]
    simpa only [List.map_append, List.map_cons, hid] using hnodup
  · rw [hlist]
    intro other hmem'
    rcases hcases other hmem' with rfl | ⟨hmem', -⟩
    · rw [hid]
      exact h.lt redirect hmem
    · exact h.lt other hmem'
  · rw [hlist]
    intro other hmem'
    rcases hcases other hmem' with rfl | ⟨hmem', hne⟩
    · exact hpending
    · exact (h.pending other hmem').concat (hcall ▸ hne.symm)
  · rw [hlist]
    intro id hlt hnone
    obtain ⟨call', hmem', hsends⟩ := h.sent id hlt fun other hmem' => by
      rw [hsplit, List.mem_append, List.mem_cons] at hmem'
      rcases hmem' with hmem' | rfl | hmem'
      · exact hnone other (List.mem_append_left _ hmem')
      · rw [← hid]
        exact hnone redirect' (List.mem_append_right _ (List.mem_cons_self ..))
      · exact hnone other (List.mem_append_right _ (List.mem_cons_of_mem _ hmem'))
    exact ⟨call', List.mem_append_left _ hmem', hsends⟩
  · intro call' hmem'
    rcases List.mem_append.mp hmem' with hmem' | hmem'
    · exact h.known call' hmem'
    · rw [List.mem_singleton.mp hmem', hcall]
      exact h.lt redirect hmem
  · refine h.last.concat ?_ ?_
    · rw [hcall]
      exact (h.pending redirect hmem).unsent
    · rintro redirect'' signal rfl
      exact absurd rfl (hsend redirect''.id)

/-- A redirect is stopped for good: its signal is sent and it is freed. -/
theorem HistoryRight.free {error : Option Str} (h : HistoryRight server)
    (hget : server.redirects[ptrRedirect]? = some redirect)
    (hcalls : server'.calls = server.calls ++ [.stop redirect.id error])
    (hredirects : server'.redirects = server.redirects.eraseIdx ptrRedirect)
    (hcreated : server'.created = server.created)
    {signal : IrcRedirectSignal} (hsignal : SignalRight server'.calls redirect.counted signal) :
    HistoryRight (server'.call (.send redirect.counted signal)) := by
  obtain ⟨walked, rest, hsplit, rfl, hother⟩ := exists_split h hget
  have hlist : server'.redirects = walked ++ rest := by
    rw [hredirects, hsplit, List.eraseIdx_append_of_length_le (Nat.le_refl _), Nat.sub_self, List.eraseIdx_cons_zero]
  have hmem : redirect ∈ server.redirects := by
    rw [hsplit]
    exact List.mem_append_right _ (List.mem_cons_self ..)
  have hsub : ∀ other ∈ walked ++ rest, other ∈ server.redirects := by
    intro other hmem'
    rw [hsplit, List.mem_append, List.mem_cons]
    exact (List.mem_append.mp hmem').imp_right .inr
  have hunsent := (h.pending redirect hmem).unsent
  refine ⟨?_, ?_, ?_, ?_, ?_, ?_⟩
  · have hnodup := h.nodup
    rw [hsplit, List.map_append, List.map_cons, List.nodup_middle, List.nodup_cons, ← List.map_append] at hnodup
    show (server'.redirects.map IrcRedirect.id).Nodup
    rw [hlist]
    exact hnodup.2
  · show ∀ other ∈ server'.redirects, other.id < server'.created
    rw [hlist, hcreated]
    exact fun other hmem' => h.lt other (hsub other hmem')
  · show ∀ other ∈ server'.redirects, Pending (server'.calls ++ [.send redirect.counted signal]) other
    rw [hlist, hcalls]
    intro other hmem'
    have hstop : (IrcRedirectCall.stop redirect.id error).redirect ≠ other.id := (hother other hmem').symm
    have hsend : (IrcRedirectCall.send redirect.counted signal).redirect ≠ other.id := (hother other hmem').symm
    exact ((h.pending other (hsub other hmem')).concat hstop).concat hsend
  · show ∀ id < server'.created, (∀ other ∈ server'.redirects, other.id ≠ id) →
      ∃ call ∈ server'.calls ++ [.send redirect.counted signal], call.Sends id
    rw [hlist, hcalls, hcreated]
    intro id hlt hnone
    by_cases hid : redirect.id = id
    · exact ⟨_, List.mem_append_right _ (List.mem_singleton_self _), hid⟩
    · obtain ⟨call', hmem', hsends⟩ := h.sent id hlt fun other hmem' => by
        rw [hsplit, List.mem_append, List.mem_cons] at hmem'
        rcases hmem' with hmem' | rfl | hmem'
        · exact hnone other (List.mem_append_left _ hmem')
        · exact hid
        · exact hnone other (List.mem_append_right _ hmem')
      exact ⟨call', List.mem_append_left _ (List.mem_append_left _ hmem'), hsends⟩
  · show ∀ call ∈ server'.calls ++ [.send redirect.counted signal], call.redirect < server'.created
    rw [hcalls, hcreated]
    intro call' hmem'
    rw [List.mem_append, List.mem_append, List.mem_singleton, List.mem_singleton] at hmem'
    rcases hmem' with (hmem' | rfl) | rfl
    · exact h.known call' hmem'
    · exact h.lt redirect hmem
    · exact h.lt redirect hmem
  · show SendsLast (server'.calls ++ [.send redirect.counted signal])
    have hstop : ∀ call' ∈ server'.calls, ¬ call'.Sends redirect.id := by
      rw [hcalls]
      intro call' hmem'
      rw [List.mem_append, List.mem_singleton] at hmem'
      rcases hmem' with hmem' | rfl
      · exact hunsent call' hmem'
      · exact id
    refine SendsLast.concat ?_ hstop ?_
    · rw [hcalls]
      exact h.last.concat hunsent fun _ _ heq => nomatch heq
    · intro redirect'' signal' heq
      cases heq
      exact hsignal

/-! ## What callbacks do -/

/-- What callbacks do agrees with the history: new redirects have none. -/
theorem IrcRedirectAct.run_right (h : HistoryRight server) (act : IrcRedirectAct) : HistoryRight (act.run server) := by
  cases act with
  | new new =>
    have hclean : ∀ call ∈ server.calls, call.redirect ≠ server.created :=
      fun call hmem => Nat.ne_of_lt (h.known call hmem)
    have hmem : ∀ other ∈ (IrcRedirectAct.run server (.new new)).redirects, other ∈ server.redirects ∨
        (other.id = server.created ∧ Pending server.calls other) := by
      intro other hmem
      rcases List.mem_append.mp hmem with hmem | hmem
      · exact .inl hmem
      · obtain rfl := List.mem_singleton.mp hmem
        have haccepted : messagesAccepted server.calls server.created = [] := by
          rw [messagesAccepted, List.map_eq_nil_iff, List.filter_eq_nil_iff]
          intro added hadded
          obtain ⟨call, hcall, hsome⟩ := List.mem_filterMap.mp hadded
          cases call with
          | add id message command =>
            cases hsome
            exact fun heq => hclean _ hcall (beq_iff_eq.mp heq)
          | test _ => cases hsome
          | stop _ _ => cases hsome
          | send _ _ => cases hsome
        have hruns : runsCompleted server.calls server.created = 0 := by
          rw [runsCompleted, List.countP_eq_zero]
          intro call hcall
          cases call with
          | stop id error =>
            simp only [completes, Bool.and_eq_true, beq_iff_eq, not_and]
            exact fun heq => absurd heq (hclean _ hcall)
          | test _ => exact Bool.false_ne_true
          | add _ _ _ => exact Bool.false_ne_true
          | send _ _ => exact Bool.false_ne_true
        refine .inr ⟨rfl, ?_, ?_, ?_, ?_, ?_⟩
        · exact fun call hcall hsends => hclean call hcall (Sends_redirect hsends)
        · show (1 : Int) = (runsCompleted server.calls server.created : Int) + 1
          rw [hruns]
          rfl
        · show (1 : Int) ≤ if new.count ≥ 1 then new.count else 1
          split
          · assumption
          · exact Int.le_refl 1
        · show none = if messagesFiltered new.cmdFilter (messagesAccepted server.calls server.created) =
            [] then none else _
          rw [haccepted]
          rfl
        · show (0 : Int) = outputSizeOf (messagesFiltered new.cmdFilter (messagesAccepted server.calls server.created))
          rw [haccepted]
          rfl
    refine ⟨?_, ?_, ?_, ?_, ?_, ?_⟩
    · show ((server.redirects ++ [_]).map IrcRedirect.id).Nodup
      rw [List.map_append, List.nodup_append]
      refine ⟨h.nodup, List.nodup_singleton _, ?_⟩
      intro id hid id' hid'
      obtain ⟨other, hother, rfl⟩ := List.mem_map.mp hid
      rw [List.mem_singleton.mp hid']
      exact Nat.ne_of_lt (h.lt other hother)
    · intro other hother
      rcases hmem other hother with hold | ⟨hid, -⟩
      · exact Nat.lt_succ_of_lt (h.lt other hold)
      · rw [hid]
        exact Nat.lt_succ_self _
    · intro other hother
      rcases hmem other hother with hold | ⟨-, hpending⟩
      · exact h.pending other hold
      · exact hpending
    · intro id hlt hnone
      rcases Nat.lt_succ_iff_lt_or_eq.mp hlt with hlt | rfl
      · exact h.sent id hlt fun other hother => hnone other (List.mem_append_left _ hother)
      · exact absurd rfl (hnone _ (List.mem_append_right _ (List.mem_singleton_self _)))
    · exact fun call hcall => Nat.lt_succ_of_lt (h.known call hcall)
    · exact h.last
  | init id command now =>
    have hsame : ∀ redirect : IrcRedirect, redirect.SameHistory
        (if redirect.id = id then ircRedirectInitCommand redirect command now else redirect) := by
      intro redirect
      split
      · exact ⟨rfl, rfl, rfl, rfl, rfl, rfl⟩
      · exact ⟨rfl, rfl, rfl, rfl, rfl, rfl⟩
    have hmem : ∀ other ∈ (IrcRedirectAct.run server (.init id command now)).redirects,
        ∃ redirect ∈ server.redirects, redirect.SameHistory other := by
      intro other hmem
      obtain ⟨redirect, hredirect, rfl⟩ := List.mem_map.mp hmem
      exact ⟨redirect, hredirect, hsame redirect⟩
    refine ⟨?_, ?_, ?_, ?_, h.known, h.last⟩
    · show ((server.redirects.map _).map IrcRedirect.id).Nodup
      rw [List.map_map, show (IrcRedirect.id ∘ fun redirect : IrcRedirect =>
        if redirect.id = id then ircRedirectInitCommand redirect command now else redirect) = IrcRedirect.id from
          funext fun redirect => (hsame redirect).id]
      exact h.nodup
    · intro other hother
      obtain ⟨redirect, hredirect, hsame⟩ := hmem other hother
      rw [hsame.id]
      exact h.lt redirect hredirect
    · intro other hother
      obtain ⟨redirect, hredirect, hsame⟩ := hmem other hother
      exact (h.pending redirect hredirect).same hsame
    · intro id' hlt hnone
      refine h.sent id' hlt fun redirect hredirect => ?_
      rw [← (hsame redirect).id]
      exact hnone _ (List.mem_map.mpr ⟨redirect, hredirect, rfl⟩)

/-- The callbacks of a signal do the same without the redirect that sends it. -/
theorem IrcRedirectAct.run_free (act : IrcRedirectAct) (h : ptrRedirect < server.redirects.length) :
    (act.run server).free ptrRedirect = act.run (server.free ptrRedirect) ∧
      ptrRedirect < (act.run server).redirects.length := by
  cases act with
  | new new =>
    refine ⟨?_, ?_⟩
    · rw [run, run, ircRedirectNewWithCommands, ircRedirectNewWithCommands, IrcRedirects.free, IrcRedirects.free,
        List.eraseIdx_append_of_lt_length h]
    · show ptrRedirect < (server.redirects ++ [_]).length
      rw [List.length_append]
      exact Nat.lt_add_right _ h
  | init id command now =>
    refine ⟨?_, ?_⟩
    · rw [run, run, IrcRedirects.free, IrcRedirects.free]
      simp only [List.eraseIdx_eq_take_drop_succ, List.map_append, List.map_take, List.map_drop]
    · show ptrRedirect < (server.redirects.map _).length
      rw [List.length_map]
      exact h

theorem ircRedirectActs_free (acts : List IrcRedirectAct) (h : ptrRedirect < server.redirects.length) :
    (acts.foldl IrcRedirectAct.run server).free ptrRedirect = acts.foldl IrcRedirectAct.run (server.free ptrRedirect) := by
  induction acts generalizing server with
  | nil => rfl
  | cons act acts ih =>
    obtain ⟨hfree, hlt⟩ := act.run_free h
    rw [List.foldl_cons, List.foldl_cons, ih hlt, hfree]

/-- `irc_redirect_stop` agrees with the history. -/
theorem ircRedirectStop_right (callback : IrcRedirectCallback) {error : Option Str} (h : HistoryRight server)
    (hget : server.redirects[ptrRedirect]? = some redirect)
    (herror : error = none ∨ ∃ text, error = some text ∧ text ≠ []) :
    HistoryRight (ircRedirectStop callback server ptrRedirect redirect error).2 := by
  have hlt := (List.getElem?_eq_some_iff.mp hget).1
  have hpending := h.pending redirect (List.mem_of_getElem? hget)
  rw [ircRedirectStop]
  split
  · rename_i hend
    let stopped := (server.set ptrRedirect redirect.counted).call (.stop redirect.counted.id error)
    have hlength : ptrRedirect < stopped.redirects.length := by
      show ptrRedirect < (server.redirects.set ptrRedirect redirect.counted).length
      rwa [List.length_set]
    have hfree := ircRedirectActs_free (callback stopped (ircRedirectSignal stopped redirect.counted error))
      (show ptrRedirect < (stopped.call (.send redirect.counted (ircRedirectSignal stopped redirect.counted
        error))).redirects.length from hlength)
    show HistoryRight ((ircRedirectSend callback stopped redirect.counted error).free ptrRedirect)
    rw [ircRedirectSend, hfree]
    have hsignal : SignalRight (stopped.free ptrRedirect).calls redirect.counted
        (ircRedirectSignal stopped redirect.counted error) :=
      Pending.signalRight hpending herror hend (show stopped.calls = _ from rfl)
    have hfreed : (stopped.free ptrRedirect).redirects = server.redirects.eraseIdx ptrRedirect := by
      show (server.redirects.set ptrRedirect redirect.counted).eraseIdx ptrRedirect = _
      rw [List.eraseIdx_set_eq]
    have hsent : HistoryRight ((stopped.free ptrRedirect).call
        (.send redirect.counted (ircRedirectSignal stopped redirect.counted error))) :=
      h.free hget rfl hfreed rfl hsignal
    exact foldl_invariant (I := HistoryRight) (fun _ act hright => IrcRedirectAct.run_right hright act) hsent _
  · rename_i hend
    rw [not_or] at hend
    obtain rfl : error = none := Option.not_isSome_iff_eq_none.mp hend.1
    have hset : (((server.set ptrRedirect redirect.counted).call (.stop redirect.counted.id none)).set ptrRedirect
        redirect.counted.continued) = (server.set ptrRedirect redirect.counted.continued).call (.stop redirect.id none) := by
      rw [IrcRedirects.set, IrcRedirects.call, IrcRedirects.set, IrcRedirects.call, IrcRedirects.set, List.set_set]
      rfl
    show HistoryRight (((server.set ptrRedirect redirect.counted).call (.stop redirect.counted.id none)).set ptrRedirect
        redirect.counted.continued)
    rw [hset]
    exact h.set hget rfl rfl (fun _ => id) (hpending.stop hend.2)

/-! ## A message -/

theorem IrcRedirect.SameButCommand.refl (redirect : IrcRedirect) : redirect.SameButCommand redirect := rfl

theorem IrcRedirect.SameButCommand.trans {r1 r2 r3 : IrcRedirect} (h : r1.SameButCommand r2)
    (h' : r2.SameButCommand r3) :
    r1.SameButCommand r3 := by
  rw [SameButCommand] at h h' ⊢
  rw [h', h]

/-- Callbacks keep the redirects but for the commands sent, and add new ones. -/
theorem ircRedirectActs_redirects (acts : List IrcRedirectAct) (server : IrcRedirects) :
    ∃ sent new, (acts.foldl IrcRedirectAct.run server).redirects = server.redirects.map sent ++ new ∧
      (∀ redirect : IrcRedirect, redirect.SameButCommand (sent redirect)) ∧ (∀ redirect ∈ new, server.created ≤ redirect.id) ∧
      server.created ≤ (acts.foldl IrcRedirectAct.run server).created ∧
      (acts.foldl IrcRedirectAct.run server).calls = server.calls := by
  induction acts generalizing server with
  | nil =>
    refine ⟨id, [], ?_, fun redirect => .refl redirect, List.forall_mem_nil _, Nat.le_refl _, rfl⟩
    rw [List.map_id, List.append_nil]
    rfl
  | cons act acts ih =>
    obtain ⟨sent, new, hlist, hsent, hnew, hcreated, hcalls⟩ := ih (act.run server)
    rw [List.foldl_cons]
    cases act with
    | new n =>
      refine ⟨sent, sent (ircRedirectNew server.created n) :: new, ?_, hsent, ?_, Nat.le_of_succ_le hcreated, hcalls⟩
      · rw [hlist]
        show (server.redirects ++ [_]).map sent ++ new = _
        rw [List.map_append, List.append_assoc]
        rfl
      · intro redirect hmem
        rcases List.mem_cons.mp hmem with rfl | hmem
        · rw [hsent (ircRedirectNew server.created n)]
          exact Nat.le_refl _
        · exact Nat.le_of_succ_le (hnew redirect hmem)
    | init id command now =>
      refine ⟨sent ∘ fun redirect => if redirect.id = id then ircRedirectInitCommand redirect command now else redirect,
        new, ?_, fun redirect => ?_, hnew, hcreated, hcalls⟩
      · rw [hlist, ← List.map_map]
        rfl
      · refine IrcRedirect.SameButCommand.trans ?_ (hsent _)
        show redirect.SameButCommand (if redirect.id = id then ircRedirectInitCommand redirect command now else redirect)
        split
        · rfl
        · rfl

/-- After `irc_redirect_stop` the redirects from the next one on are as before, but for the
commands sent, and there may be new ones. -/
theorem ircRedirectStop_rest (callback : IrcRedirectCallback) (error : Option Str)
    (hget : server.redirects[ptrRedirect]? = some redirect) :
    ∃ sent new calls, (ircRedirectStop callback server ptrRedirect redirect error).2.redirects.drop
        (if (ircRedirectStop callback server ptrRedirect redirect error).1 then ptrRedirect else ptrRedirect + 1) =
        (server.redirects.drop (ptrRedirect + 1)).map sent ++ new ∧
      (∀ redirect : IrcRedirect, redirect.SameButCommand (sent redirect)) ∧
      (∀ redirect ∈ new, server.created ≤ redirect.id) ∧
      server.created ≤ (ircRedirectStop callback server ptrRedirect redirect error).2.created ∧
      (ircRedirectStop callback server ptrRedirect redirect error).2.calls = server.calls ++ calls ∧
      calls.filterMap tested = [] ∧ calls.filterMap added = [] := by
  have hlt := (List.getElem?_eq_some_iff.mp hget).1
  rw [ircRedirectStop]
  split
  · let stopped := (server.set ptrRedirect redirect.counted).call (.stop redirect.counted.id error)
    let signal := ircRedirectSignal stopped redirect.counted error
    obtain ⟨sent, new, hlist, hsent, hnew, hcreated, hcalls⟩ :=
      ircRedirectActs_redirects (callback stopped signal) (stopped.call (.send redirect.counted signal))
    refine ⟨sent, new, [.stop redirect.counted.id error, .send redirect.counted signal], ?_, hsent, hnew, hcreated, ?_,
      rfl, rfl⟩
    · have hlength : (server.redirects.set ptrRedirect redirect.counted).length = server.redirects.length :=
        List.length_set
      show (((callback stopped signal).foldl IrcRedirectAct.run (stopped.call (.send redirect.counted
        signal))).redirects.eraseIdx ptrRedirect).drop ptrRedirect = _
      rw [hlist]
      show (((server.redirects.set ptrRedirect redirect.counted).map sent ++ new).eraseIdx ptrRedirect).drop ptrRedirect = _
      rw [List.eraseIdx_append_of_lt_length (by rw [List.length_map, hlength]; exact hlt),
        List.eraseIdx_eq_take_drop_succ,
        List.append_assoc, List.drop_left' (by rw [List.length_take, List.length_map, hlength]; omega), ← List.map_drop,
        List.drop_set_of_lt (Nat.lt_succ_self _)]
    · show ((callback stopped signal).foldl IrcRedirectAct.run (stopped.call (.send redirect.counted signal))).calls = _
      rw [hcalls]
      exact List.append_assoc ..
  · refine ⟨id, [], [.stop redirect.counted.id error], ?_, fun redirect => .refl redirect, List.forall_mem_nil _,
      Nat.le_refl _, rfl, rfl, rfl⟩
    show ((server.redirects.set ptrRedirect redirect.counted).set ptrRedirect redirect.counted.continued).drop
      (ptrRedirect + 1) = _
    rw [List.set_set, List.drop_set_of_lt (Nat.lt_succ_self _), List.map_id, List.append_nil]

variable {message command : Str} {argumentsArgv : List Str}

/-- A redirect that does not accept the message is stopped or not. -/
theorem turn_not_accepts (message : Str) (h : redirect.accepts command argumentsArgv = false) :
    ircRedirectMessageTurn redirect message command argumentsArgv = .next ∨
      ircRedirectMessageTurn redirect message command argumentsArgv = .stop := by
  rw [ircRedirectMessageTurn]
  rw [IrcRedirect.accepts] at h
  split
  · rename_i hstart
    rw [decide_eq_true hstart, Bool.true_and] at h
    split
    · rename_i hstop
      rw [if_pos hstop] at h
      rw [if_neg (by rw [h]; exact Bool.false_ne_true)]
      exact .inr rfl
    · rename_i hstop
      rw [if_neg hstop, Bool.or_eq_false_iff, Bool.or_eq_false_iff] at h
      obtain ⟨⟨h1, h2⟩, h3⟩ := h
      rw [h1, h2, h3]
      exact .inl rfl
  · exact .inl rfl

/-- A redirect that accepts the message gets it. -/
theorem turn_accepts (message : Str) (h : redirect.accepts command argumentsArgv = true) :
    ∃ redirect' stop, ircRedirectMessageTurn redirect message command argumentsArgv = .add redirect' stop ∧
      (ircRedirectMessageAdd redirect message command).SameHistory redirect' := by
  rw [ircRedirectMessageTurn]
  rw [IrcRedirect.accepts, Bool.and_eq_true] at h
  obtain ⟨hstart, h⟩ := h
  rw [if_pos (of_decide_eq_true hstart)]
  split
  · rename_i hstop
    rw [if_pos hstop] at h
    rw [if_pos h]
    exact ⟨_, _, rfl, rfl, rfl, rfl, rfl, rfl, rfl⟩
  · rename_i hstop
    rw [if_neg hstop] at h
    split
    · exact ⟨_, _, rfl, rfl, rfl, rfl, rfl, rfl, rfl⟩
    · rename_i hfirst
      split
      · exact ⟨_, _, rfl, rfl, rfl, rfl, rfl, rfl, rfl⟩
      · rename_i hlast
        have hreceived : redirect.cmdStartReceived = true := by
          rw [Bool.eq_false_iff.mpr hlast, Bool.or_false] at h
          cases hreceived : redirect.cmdStartReceived with
          | true => rfl
          | false =>
            rw [hreceived, Bool.false_or] at h
            rw [hreceived, h] at hfirst
            exact absurd rfl hfirst
        rw [if_pos hreceived]
        exact ⟨_, _, rfl, rfl, rfl, rfl, rfl, rfl, rfl⟩

theorem ircRedirectMessageAdd_id : (ircRedirectMessageAdd redirect message command).id = redirect.id := by
  rw [ircRedirectMessageAdd]
  split
  · rfl
  · split
    · rfl
    · rfl

/-- A redirect that does not accept the message is passed. -/
theorem MessageOnce.pass {rest : List IrcRedirect} {created created' : Nat} {rc : Int} (new : List IrcRedirect)
    (stopped : List IrcRedirectCall) (sent : IrcRedirect → IrcRedirect)
    (hnot : redirect.accepts command argumentsArgv = false)
    (hsent : ∀ redirect : IrcRedirect, redirect.SameButCommand (sent redirect))
    (hnew : ∀ redirect ∈ new, created ≤ redirect.id) (hcreated : created ≤ created')
    (htested : stopped.filterMap tested = []) (hadded : stopped.filterMap added = [])
    (h : MessageOnce (rest.map sent ++ new) created' message command argumentsArgv rc calls) :
    MessageOnce (redirect :: rest) created message command argumentsArgv rc (.test redirect :: (stopped ++ calls)) := by
  have hids : (rest.map sent).map IrcRedirect.id = rest.map IrcRedirect.id := by
    rw [List.map_map]
    exact List.map_congr_left fun other _ => by rw [Function.comp_apply, hsent other]
  have htests : (IrcRedirectCall.test redirect :: (stopped ++ calls)).filterMap tested =
      redirect :: calls.filterMap tested := by
    show redirect :: (stopped ++ calls).filterMap tested = _
    rw [List.filterMap_append, htested, List.nil_append]
  have hadds : (IrcRedirectCall.test redirect :: (stopped ++ calls)).filterMap added = calls.filterMap added := by
    show (stopped ++ calls).filterMap added = _
    rw [List.filterMap_append, hadded, List.nil_append]
  refine ⟨?_, ?_, ?_, ?_⟩
  · obtain ⟨ids, hids', hprefix⟩ := h.order
    rw [List.map_append, hids, List.append_assoc] at hprefix
    refine ⟨new.map IrcRedirect.id ++ ids, ?_, ?_⟩
    · intro id hmem
      rcases List.mem_append.mp hmem with hmem | hmem
      · obtain ⟨other, hother, rfl⟩ := List.mem_map.mp hmem
        exact hnew other hother
      · exact hcreated.trans (hids' id hmem)
    · rw [htests, List.map_cons, List.map_cons, List.cons_append]
      exact List.cons_prefix_cons.mpr ⟨rfl, hprefix⟩
  · rw [htests]
    intro other hmem hlt
    rcases List.mem_cons.mp hmem with rfl | hmem
    · exact ⟨other, List.mem_cons_self .., .refl other⟩
    · obtain ⟨other', hother', hsame⟩ := h.listed other hmem (hlt.trans_le hcreated)
      rcases List.mem_append.mp hother' with hother' | hother'
      · obtain ⟨other'', hother'', rfl⟩ := List.mem_map.mp hother'
        exact ⟨other'', List.mem_cons_of_mem _ hother'', (hsent other'').trans hsame⟩
      · have hid : other.id = other'.id := by rw [hsame]
        exact absurd (hnew other' hother') (by omega)
  · intro hrc
    obtain ⟨before, taker, htaker, hbefore, haccepts, hadd⟩ := h.first hrc
    refine ⟨redirect :: before, taker, ?_, ?_, haccepts, hadds.trans hadd⟩
    · rw [htests, htaker, List.cons_append]
    · intro other hmem
      rcases List.mem_cons.mp hmem with rfl | hmem
      · exact hnot
      · exact hbefore other hmem
  · intro hrc
    obtain ⟨hall, hnone, hadd⟩ := h.none hrc
    rw [List.map_append, hids] at hall
    refine ⟨?_, ?_, hadds.trans hadd⟩
    · rw [htests, List.map_cons, List.map_cons]
      exact List.cons_prefix_cons.mpr ⟨rfl, (List.prefix_append _ _).trans hall⟩
    · rw [htests]
      intro other hmem
      rcases List.mem_cons.mp hmem with rfl | hmem
      · exact hnot
      · exact hnone other hmem

/-- There is no redirect any more. -/
theorem MessageOnce.end (created : Nat) : MessageOnce [] created message command argumentsArgv 0 [] where
  order := ⟨[], List.forall_mem_nil _, List.prefix_rfl⟩
  listed := fun _ hmem => absurd hmem List.not_mem_nil
  first := fun hrc => absurd hrc (by decide)
  none := fun _ => ⟨List.prefix_rfl, List.forall_mem_nil _, rfl⟩

/-- The redirect gets the message. -/
theorem MessageOnce.take {rest : List IrcRedirect} {stopped : List IrcRedirectCall} (created : Nat)
    (haccepts : redirect.accepts command argumentsArgv = true) (htested : stopped.filterMap tested = [])
    (hadded : stopped.filterMap added = []) :
    MessageOnce (redirect :: rest) created message command argumentsArgv 1
      (.test redirect :: .add redirect.id message command :: stopped) := by
  have htests : (IrcRedirectCall.test redirect :: .add redirect.id message command :: stopped).filterMap tested =
      [redirect] := by
    show redirect :: stopped.filterMap tested = _
    rw [htested]
  have hadds : (IrcRedirectCall.test redirect :: .add redirect.id message command :: stopped).filterMap added =
      [(redirect.id, message, command)] := by
    show (redirect.id, message, command) :: stopped.filterMap added = _
    rw [hadded]
  refine ⟨⟨[], List.forall_mem_nil _, ?_⟩, ?_, fun _ => ?_, fun hrc => absurd rfl hrc⟩
  · rw [htests, List.map_cons, List.map_cons, List.cons_append]
    exact List.cons_prefix_cons.mpr ⟨rfl, List.nil_prefix⟩
  · rw [htests]
    intro other hmem _
    rw [List.mem_singleton.mp hmem]
    exact ⟨redirect, List.mem_cons_self .., .refl redirect⟩
  · exact ⟨[], redirect, htests, List.forall_mem_nil _, haccepts, hadds⟩

/-- The test of a message changes nothing. -/
theorem HistoryRight.test (h : HistoryRight server) (hget : server.redirects[ptrRedirect]? = some redirect) :
    HistoryRight (server.call (.test redirect)) := by
  have hmem := List.mem_of_getElem? hget
  refine ⟨h.nodup, h.lt, fun other hother => (h.pending other hother).test redirect, ?_, ?_, ?_⟩
  · intro id hlt hnone
    obtain ⟨call, hcall, hsends⟩ := h.sent id hlt hnone
    exact ⟨call, List.mem_append_left _ hcall, hsends⟩
  · intro call hcall
    rcases List.mem_append.mp hcall with hcall | hcall
    · exact h.known call hcall
    · rw [List.mem_singleton.mp hcall]
      exact h.lt redirect hmem
  · exact h.last.concat (h.pending redirect hmem).unsent fun _ _ heq => nomatch heq

theorem accepts_of_add {stop : Bool} (h : ircRedirectMessageTurn redirect message command argumentsArgv = .add redirect' stop) :
    redirect.accepts command argumentsArgv = true ∧ (ircRedirectMessageAdd redirect message command).SameHistory redirect' := by
  cases haccepts : redirect.accepts command argumentsArgv with
  | false =>
    rcases turn_not_accepts message haccepts with hnext | hstop
    · rw [hnext] at h
      cases h
    · rw [hstop] at h
      cases h
  | true =>
    obtain ⟨redirect'', stop', hadd, hsame⟩ := turn_accepts message haccepts
    rw [hadd] at h
    cases h
    exact ⟨rfl, hsame⟩

theorem not_accepts_of_turn (h : ∀ redirect' stop,
    ircRedirectMessageTurn redirect message command argumentsArgv ≠ .add redirect' stop) :
    redirect.accepts command argumentsArgv = false := by
  refine Bool.eq_false_iff.mpr fun haccepts => ?_
  obtain ⟨redirect', stop, hadd, -⟩ := turn_accepts message haccepts
  exact h redirect' stop hadd

/-- The message is added to the redirect. -/
theorem HistoryRight.add {stop : Bool} (h : HistoryRight server) (hget : server.redirects[ptrRedirect]? = some redirect)
    (hturn : ircRedirectMessageTurn redirect message command argumentsArgv = .add redirect' stop) :
    HistoryRight ((server.set ptrRedirect redirect').call (.add redirect'.id message command)) ∧ redirect'.id = redirect.id := by
  obtain ⟨-, hsame⟩ := accepts_of_add hturn
  have hid : redirect'.id = redirect.id := hsame.id.trans ircRedirectMessageAdd_id
  have hpending := (h.pending redirect (List.mem_of_getElem? hget)).add message command
  rw [hid]
  exact ⟨h.set hget hid rfl (fun _ => id) (hpending.same hsame), rfl⟩

theorem drop_getElem? (hget : server.redirects[ptrRedirect]? = some redirect) :
    server.redirects.drop ptrRedirect = redirect :: server.redirects.drop (ptrRedirect + 1) := by
  obtain ⟨hlt, hget⟩ := List.getElem?_eq_some_iff.mp hget
  rw [List.drop_eq_getElem_cons hlt, hget]

theorem ircRedirectMessageLoop_once (callback : IrcRedirectCallback) (server : IrcRedirects) (ptrRedirect : Nat)
    (h : HistoryRight server) :
    HistoryRight (ircRedirectMessageLoop callback message command argumentsArgv server ptrRedirect).2 ∧
      ∃ calls, (ircRedirectMessageLoop callback message command argumentsArgv server ptrRedirect).2.calls =
        server.calls ++ calls ∧
        MessageOnce (server.redirects.drop ptrRedirect) server.created message command argumentsArgv
          (ircRedirectMessageLoop callback message command argumentsArgv server ptrRedirect).1 calls := by
  fun_induction ircRedirectMessageLoop with
  | case1 server ptrRedirect hget =>
    refine ⟨h, [], (List.append_nil _).symm, ?_⟩
    rw [List.drop_eq_nil_of_le (List.getElem?_eq_none_iff.mp hget)]
    exact .end _
  | case2 server ptrRedirect redirect hget server' hturn ih =>
    obtain ⟨hright, calls, hcalls, honce⟩ := ih (h.test hget)
    refine ⟨hright, .test redirect :: calls, ?_, ?_⟩
    · rw [hcalls]
      exact List.append_assoc ..
    · rw [drop_getElem? hget]
      have hnot : redirect.accepts command argumentsArgv = false :=
        not_accepts_of_turn fun _ _ hadd => by rw [hturn] at hadd; cases hadd
      have hrest : (server'.redirects.drop (ptrRedirect + 1)).map id ++ [] =
          server'.redirects.drop (ptrRedirect + 1) := by
        rw [List.map_id, List.append_nil]
      rw [← hrest] at honce
      exact .pass [] [] id hnot (fun other => .refl other) (List.forall_mem_nil _) (Nat.le_refl _) rfl rfl honce
  | case3 server ptrRedirect redirect hget server' hturn stopped hlt ih =>
    have hstopped : HistoryRight stopped.2 := ircRedirectStop_right callback (h.test hget) hget (.inl rfl)
    simp only [dite_eq_ite] at ih
    obtain ⟨hright, calls, hcalls, honce⟩ := ih hstopped
    obtain ⟨sent, new, calls', hrest, hsent, hnew, hcreated, hcalls', htested, hadded⟩ :=
      ircRedirectStop_rest callback none (show server'.redirects[ptrRedirect]? = some redirect from hget)
    have hstoppedCalls : stopped.2.calls = server'.calls ++ calls' := hcalls'
    have hstoppedRest : stopped.2.redirects.drop (if stopped.1 then ptrRedirect else ptrRedirect + 1) = _ := hrest
    refine ⟨hright, .test redirect :: (calls' ++ calls), ?_, ?_⟩
    · rw [hcalls, hstoppedCalls, List.append_assoc]
      exact List.append_assoc ..
    · rw [drop_getElem? hget]
      have hnot : redirect.accepts command argumentsArgv = false :=
        not_accepts_of_turn fun _ _ hadd => by rw [hturn] at hadd; cases hadd
      rw [hstoppedRest] at honce
      exact .pass new calls' sent hnot hsent hnew hcreated htested hadded honce
  | case4 server ptrRedirect redirect hget server' hturn stopped hlt =>
    have hstopped := ircRedirectStop_right callback (h.test hget) hget (.inl rfl)
    obtain ⟨sent, new, calls', hrest, hsent, hnew, hcreated, hcalls', htested, hadded⟩ :=
      ircRedirectStop_rest callback none (show server'.redirects[ptrRedirect]? = some redirect from hget)
    refine ⟨hstopped, .test redirect :: (calls' ++ []), ?_, ?_⟩
    · rw [hcalls', List.append_nil]
      exact List.append_assoc ..
    · have hnil : server.redirects.drop (ptrRedirect + 1) = [] := List.drop_eq_nil_of_le (Nat.le_of_not_lt hlt)
      rw [drop_getElem? hget, hnil]
      have hnot : redirect.accepts command argumentsArgv = false :=
        not_accepts_of_turn fun _ _ hadd => by rw [hturn] at hadd; cases hadd
      exact .pass [] calls' id hnot (fun other => .refl other) (List.forall_mem_nil _)
        (Nat.le_refl _) htested hadded (.end _)
  | case5 server ptrRedirect redirect hget server' redirect' server'' hturn =>
    obtain ⟨hadd, hid⟩ := HistoryRight.add (h.test hget) hget hturn
    obtain ⟨haccepts, -⟩ := accepts_of_add hturn
    have hget' : server''.redirects[ptrRedirect]? = some redirect' := by
      show (server.redirects.set ptrRedirect redirect')[ptrRedirect]? = some redirect'
      rw [List.getElem?_set_self (List.getElem?_eq_some_iff.mp hget).1]
    obtain ⟨sent, new, calls', hrest, hsent, hnew, hcreated, hcalls', htested, hadded⟩ :=
      ircRedirectStop_rest callback none hget'
    refine ⟨ircRedirectStop_right callback hadd hget' (.inl rfl),
      .test redirect :: .add redirect.id message command :: calls',
      ?_, ?_⟩
    · rw [hcalls']
      show server.calls ++ [.test redirect] ++ [.add redirect'.id message command] ++ calls' = _
      rw [hid, List.append_assoc, List.append_assoc]
      rfl
    · rw [drop_getElem? hget]
      exact .take _ haccepts htested hadded
  | case6 server ptrRedirect redirect hget server' redirect' stop hturn server'' hstop =>
    obtain ⟨hadd, hid⟩ := HistoryRight.add (h.test hget) hget hturn
    obtain ⟨haccepts, -⟩ := accepts_of_add hturn
    refine ⟨hadd, [.test redirect, .add redirect.id message command], ?_, ?_⟩
    · show server.calls ++ [.test redirect] ++ [.add redirect'.id message command] = _
      rw [hid, List.append_assoc]
      rfl
    · rw [drop_getElem? hget]
      exact .take _ haccepts rfl rfl

theorem IrcRedirectEvent.run_right (h : HistoryRight server) (event : IrcRedirectEvent) :
    HistoryRight (event.run server) := by
  cases event with
  | message callback message command arguments => exact (ircRedirectMessageLoop_once callback server 0 h).1
  | act act => exact act.run_right h
  | timeout callback ptrRedirect =>
    rw [run]
    split
    · rename_i hget
      exact ircRedirectStop_right callback h hget (.inr ⟨lit "timeout", rfl, by decide⟩)
    · exact h

end

end Wirc
