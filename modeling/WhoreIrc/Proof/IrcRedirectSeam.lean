import WhoreIrc.Proof.IrcRedirect
import WhoreIrc.Spec.IrcRedirect

/-!
# What the seam of two runs loses (`redirect_seam_iff`)

The loop on the redirects does the same for the same redirects, whatever their
history (`loop_forget`), and leaves those before its place as they are, but for their
commands (`loop_keeps`).
-/

namespace Wirc

open Framework

variable {callback : IrcRedirectCallback} {message command : Str} {argumentsArgv : List Str}
  {server server' : IrcRedirects} {ptrRedirect : Nat} {redirect redirect' : IrcRedirect}

/-! ## The history is not seen -/

theorem forget_eq (h : server.forget = server'.forget) : server' = { server with calls := server'.calls } := by
  obtain ⟨name, redirects, created, calls⟩ := server
  obtain ⟨name', redirects', created', calls'⟩ := server'
  rw [IrcRedirects.forget, IrcRedirects.forget, IrcRedirects.mk.injEq] at h
  obtain ⟨rfl, rfl, rfl, -⟩ := h
  rfl

theorem act_forget (act : IrcRedirectAct) (h : server.forget = server'.forget) :
    (act.run server).forget = (act.run server').forget := by
  rw [forget_eq h]
  cases act with
  | new n => rfl
  | init id command now => rfl

theorem acts_forget (acts : List IrcRedirectAct) (h : server.forget = server'.forget) :
    (acts.foldl IrcRedirectAct.run server).forget = (acts.foldl IrcRedirectAct.run server').forget := by
  induction acts generalizing server server' with
  | nil => exact h
  | cons act acts ih => exact ih (act_forget act h)

theorem call_forget (server : IrcRedirects) (call : IrcRedirectCall) : (server.call call).forget = server.forget := rfl

theorem set_forget (h : server.forget = server'.forget) (ptrRedirect : Nat) (redirect : IrcRedirect) :
    (server.set ptrRedirect redirect).forget = (server'.set ptrRedirect redirect).forget := by
  rw [forget_eq h]
  rfl

theorem free_forget (h : server.forget = server'.forget) (ptrRedirect : Nat) :
    (server.free ptrRedirect).forget = (server'.free ptrRedirect).forget := by
  rw [forget_eq h]
  rfl

theorem send_forget (hblind : CallbackBlind callback) (h : server.forget = server'.forget) (redirect : IrcRedirect)
    (error : Option Str) :
    (ircRedirectSend callback server redirect error).forget = (ircRedirectSend callback server' redirect error).forget := by
  have hsignal : ircRedirectSignal server' redirect error = ircRedirectSignal server redirect error := by
    rw [forget_eq h]
    rfl
  rw [ircRedirectSend, ircRedirectSend, hsignal, hblind server, hblind server', h]
  exact acts_forget _ h

theorem stop_forget (hblind : CallbackBlind callback) (h : server.forget = server'.forget) (ptrRedirect : Nat)
    (redirect : IrcRedirect) (error : Option Str) :
    (ircRedirectStop callback server ptrRedirect redirect error).1 =
        (ircRedirectStop callback server' ptrRedirect redirect error).1 ∧
      (ircRedirectStop callback server ptrRedirect redirect error).2.forget =
        (ircRedirectStop callback server' ptrRedirect redirect error).2.forget := by
  have hset := set_forget h ptrRedirect redirect.counted
  rw [ircRedirectStop, ircRedirectStop]
  by_cases hend : error.isSome ∨ redirect.counted.count < redirect.counted.currentCount
  · rw [if_pos hend, if_pos hend]
    have hcall : ((server.set ptrRedirect redirect.counted).call (.stop redirect.counted.id error)).forget =
        ((server'.set ptrRedirect redirect.counted).call (.stop redirect.counted.id error)).forget := hset
    exact ⟨rfl, free_forget (send_forget hblind hcall _ _) ptrRedirect⟩
  · rw [if_neg hend, if_neg hend]
    exact ⟨rfl, set_forget hset _ _⟩

/-! ## The turns of the loop -/

theorem loop_end (hget : server.redirects[ptrRedirect]? = none) :
    ircRedirectMessageLoop callback message command argumentsArgv server ptrRedirect = (0, server) := by
  rw [ircRedirectMessageLoop]
  split
  · rfl
  · rename_i redirect hsome
    rw [hget] at hsome
    cases hsome

theorem loop_next (hget : server.redirects[ptrRedirect]? = some redirect)
    (hturn : ircRedirectMessageTurn redirect message command argumentsArgv = .next) :
    ircRedirectMessageLoop callback message command argumentsArgv server ptrRedirect =
      ircRedirectMessageLoop callback message command argumentsArgv (server.call (.test redirect)) (ptrRedirect + 1) := by
  rw [ircRedirectMessageLoop]
  split
  · rename_i hnone
    rw [hget] at hnone
    cases hnone
  · rename_i redirect' hsome
    obtain rfl : redirect = redirect' := Option.some.inj (hget.symm.trans hsome)
    split
    · rfl
    · rename_i hturn'
      rw [hturn] at hturn'
      cases hturn'
    · rename_i hturn'
      rw [hturn] at hturn'
      cases hturn'

theorem loop_stop (hget : server.redirects[ptrRedirect]? = some redirect)
    (hturn : ircRedirectMessageTurn redirect message command argumentsArgv = .stop) :
    ircRedirectMessageLoop callback message command argumentsArgv server ptrRedirect =
      if ptrRedirect + 1 < server.redirects.length then
        ircRedirectMessageLoop callback message command argumentsArgv
          (ircRedirectStop callback (server.call (.test redirect)) ptrRedirect redirect none).2
          (if (ircRedirectStop callback (server.call (.test redirect)) ptrRedirect redirect none).1 then ptrRedirect
          else ptrRedirect + 1)
      else (0, (ircRedirectStop callback (server.call (.test redirect)) ptrRedirect redirect none).2) := by
  rw [ircRedirectMessageLoop]
  split
  · rename_i hnone
    rw [hget] at hnone
    cases hnone
  · rename_i redirect' hsome
    obtain rfl : redirect = redirect' := Option.some.inj (hget.symm.trans hsome)
    split
    · rename_i hturn'
      rw [hturn] at hturn'
      cases hturn'
    · rfl
    · rename_i hturn'
      rw [hturn] at hturn'
      cases hturn'

theorem loop_add {stop : Bool} (hget : server.redirects[ptrRedirect]? = some redirect)
    (hturn : ircRedirectMessageTurn redirect message command argumentsArgv = .add redirect' stop) :
    ircRedirectMessageLoop callback message command argumentsArgv server ptrRedirect =
      if stop then
        (1, (ircRedirectStop callback (((server.call (.test redirect)).set ptrRedirect redirect').call
          (.add redirect'.id message command)) ptrRedirect redirect' none).2)
      else
        (1, ((server.call (.test redirect)).set ptrRedirect redirect').call (.add redirect'.id message command)) := by
  rw [ircRedirectMessageLoop]
  split
  · rename_i hnone
    rw [hget] at hnone
    cases hnone
  · rename_i redirect'' hsome
    obtain rfl : redirect = redirect'' := Option.some.inj (hget.symm.trans hsome)
    split
    · rename_i hturn'
      rw [hturn] at hturn'
      cases hturn'
    · rename_i hturn'
      rw [hturn] at hturn'
      cases hturn'
    · rename_i stop' hturn'
      rw [hturn, IrcRedirectTurn.add.injEq] at hturn'
      obtain ⟨rfl, rfl⟩ := hturn'
      rfl

/-- The loop does the same for the same redirects. -/
theorem loop_forget (hblind : CallbackBlind callback) (h : server.forget = server'.forget) (ptrRedirect : Nat) :
    (ircRedirectMessageLoop callback message command argumentsArgv server ptrRedirect).1 =
        (ircRedirectMessageLoop callback message command argumentsArgv server' ptrRedirect).1 ∧
      (ircRedirectMessageLoop callback message command argumentsArgv server ptrRedirect).2.forget =
        (ircRedirectMessageLoop callback message command argumentsArgv server' ptrRedirect).2.forget := by
  revert server'
  fun_induction ircRedirectMessageLoop callback message command argumentsArgv server ptrRedirect
  case case1 server ptrRedirect hget =>
    intro server' h
    have hget' : server'.redirects[ptrRedirect]? = none := by rw [forget_eq h]; exact hget
    rw [loop_end hget']
    exact ⟨rfl, h⟩
  case case2 server ptrRedirect redirect hget server1 hturn ih =>
    intro server' h
    have hget' : server'.redirects[ptrRedirect]? = some redirect := by rw [forget_eq h]; exact hget
    rw [loop_next hget' hturn]
    exact ih h
  case case3 server ptrRedirect redirect hget server1 hturn stopped hlt ih =>
    intro server' h
    have hget' : server'.redirects[ptrRedirect]? = some redirect := by rw [forget_eq h]; exact hget
    have hlt' : ptrRedirect + 1 < server'.redirects.length := by rw [forget_eq h]; exact hlt
    have htest : server1.forget = (server'.call (.test redirect)).forget := h
    obtain ⟨hfreed, hstopped⟩ := stop_forget hblind htest ptrRedirect redirect none
    rw [loop_stop hget' hturn, if_pos hlt', ← hfreed]
    simp only [dite_eq_ite] at ih
    exact ih hstopped
  case case4 server ptrRedirect redirect hget server1 hturn stopped hlt =>
    intro server' h
    have hget' : server'.redirects[ptrRedirect]? = some redirect := by rw [forget_eq h]; exact hget
    have hlt' : ¬ ptrRedirect + 1 < server'.redirects.length := by rw [forget_eq h]; exact hlt
    have htest : server1.forget = (server'.call (.test redirect)).forget := h
    rw [loop_stop hget' hturn, if_neg hlt']
    exact ⟨rfl, (stop_forget hblind htest ptrRedirect redirect none).2⟩
  case case5 server ptrRedirect redirect hget server1 redirect' server2 hturn =>
    intro server' h
    have hget' : server'.redirects[ptrRedirect]? = some redirect := by rw [forget_eq h]; exact hget
    have hadd : server2.forget = (((server'.call (.test redirect)).set ptrRedirect redirect').call
        (.add redirect'.id message command)).forget := set_forget h ptrRedirect redirect'
    rw [loop_add hget' hturn, if_pos rfl]
    exact ⟨rfl, (stop_forget hblind hadd ptrRedirect redirect' none).2⟩
  case case6 server ptrRedirect redirect hget server1 redirect' stop hturn server2 hstop =>
    intro server' h
    have hget' : server'.redirects[ptrRedirect]? = some redirect := by rw [forget_eq h]; exact hget
    rw [loop_add hget' hturn, if_neg hstop]
    exact ⟨rfl, set_forget h ptrRedirect redirect'⟩

/-! ## Both flags -/

/-- The redirect at a place has received neither a start nor a stop command. -/
def NothingReceived (server : IrcRedirects) (place : Nat) : Prop :=
  ∃ redirect, server.redirects[place]? = some redirect ∧ redirect.cmdStartReceived = false ∧
    redirect.cmdStopReceived = false

variable {place : Nat}

theorem NothingReceived.call (h : NothingReceived server place) (call : IrcRedirectCall) :
    NothingReceived (server.call call) place := h

theorem NothingReceived.act (h : NothingReceived server place) (act : IrcRedirectAct) :
    NothingReceived (act.run server) place := by
  obtain ⟨redirect, hget, hstart, hstop⟩ := h
  obtain ⟨hlt, -⟩ := List.getElem?_eq_some_iff.mp hget
  cases act with
  | new n =>
    refine ⟨redirect, ?_, hstart, hstop⟩
    show (server.redirects ++ [_])[place]? = some redirect
    rw [List.getElem?_append_left hlt, hget]
  | init id command now =>
    refine ⟨if redirect.id = id then ircRedirectInitCommand redirect command now else redirect, ?_, ?_, ?_⟩
    · show (server.redirects.map _)[place]? = _
      rw [List.getElem?_map, hget]
      rfl
    · split
      · exact hstart
      · exact hstart
    · split
      · exact hstop
      · exact hstop

theorem NothingReceived.set (h : NothingReceived server place) (hlt : place < ptrRedirect) (redirect : IrcRedirect) :
    NothingReceived (server.set ptrRedirect redirect) place := by
  obtain ⟨redirect', hget, hflags⟩ := h
  refine ⟨redirect', ?_, hflags⟩
  show (server.redirects.set ptrRedirect redirect)[place]? = some redirect'
  rw [List.getElem?_set_ne (Nat.ne_of_gt hlt), hget]

theorem NothingReceived.free (h : NothingReceived server place) (hlt : place < ptrRedirect) :
    NothingReceived (server.free ptrRedirect) place := by
  obtain ⟨redirect, hget, hflags⟩ := h
  refine ⟨redirect, ?_, hflags⟩
  show (server.redirects.eraseIdx ptrRedirect)[place]? = some redirect
  rw [List.getElem?_eraseIdx_of_lt hlt, hget]

theorem NothingReceived.send (h : NothingReceived server place) (redirect : IrcRedirect) (error : Option Str) :
    NothingReceived (ircRedirectSend callback server redirect error) place :=
  foldl_invariant (I := (NothingReceived · place)) (fun _ act h => NothingReceived.act h act) (h.call _) _

theorem NothingReceived.stop (h : NothingReceived server place) (hlt : place < ptrRedirect) (redirect : IrcRedirect)
    (error : Option Str) : NothingReceived (ircRedirectStop callback server ptrRedirect redirect error).2 place := by
  have hset := h.set hlt redirect.counted
  rw [ircRedirectStop]
  split
  · exact ((hset.call (.stop redirect.counted.id error)).send redirect.counted error).free hlt
  · exact (hset.call (.stop redirect.counted.id error)).set hlt redirect.counted.continued

/-- The loop leaves the redirects before its place as they are. -/
theorem NothingReceived.loop (callback : IrcRedirectCallback) (message command : Str) (argumentsArgv : List Str)
    (h : NothingReceived server place) (hlt : place < ptrRedirect) :
    NothingReceived (ircRedirectMessageLoop callback message command argumentsArgv server ptrRedirect).2 place := by
  fun_induction ircRedirectMessageLoop callback message command argumentsArgv server ptrRedirect with
  | case1 server ptrRedirect hget => exact h
  | case2 server ptrRedirect redirect hget server1 hturn ih =>
    exact ih (h.call (.test redirect)) (Nat.lt_succ_of_lt hlt)
  | case3 server ptrRedirect redirect hget server1 hturn stopped hafter ih =>
    refine ih ((h.call (.test redirect)).stop hlt redirect none) ?_
    split
    · exact hlt
    · exact Nat.lt_succ_of_lt hlt
  | case4 server ptrRedirect redirect hget server1 hturn stopped hafter =>
    exact (h.call (.test redirect)).stop hlt redirect none
  | case5 server ptrRedirect redirect hget server1 redirect' server2 hturn =>
    have hadd := ((h.call (.test redirect)).set hlt redirect').call (.add redirect'.id message command)
    exact hadd.stop hlt redirect' none
  | case6 server ptrRedirect redirect hget server1 redirect' stop hturn server2 hstop =>
    exact ((h.call (.test redirect)).set hlt redirect').call (.add redirect'.id message command)

/-! ## The seam -/

/-- A message that is no extra command closes the run. -/
theorem turn_seam (hseam : redirect.AtSeam)
    (hextra : ircRedirectMessageMatchHash redirect command argumentsArgv redirect.cmdExtra = false) :
    ircRedirectMessageTurn redirect message command argumentsArgv = .stop := by
  rw [ircRedirectMessageTurn, if_pos hseam.startTime, if_pos hseam.stopReceived, hextra]
  exact if_neg Bool.false_ne_true

theorem stop_seam (hseam : redirect.AtSeam) (server : IrcRedirects) (ptrRedirect : Nat) :
    ircRedirectStop callback server ptrRedirect redirect none =
      (false, ((server.set ptrRedirect redirect.counted).call (.stop redirect.counted.id none)).set ptrRedirect
        redirect.restarted) := by
  have hcount : ¬ redirect.counted.count < redirect.counted.currentCount := Int.not_lt.mpr hseam.count
  rw [ircRedirectStop, if_neg]
  · rfl
  · rintro (h | h)
    · exact Bool.false_ne_true h
    · exact hcount h

/-- The redirect in its next run does not take the message. -/
theorem turn_restarted_next (hseam : redirect.AtSeam)
    (hstart : ircRedirectMessageMatchHash redirect command argumentsArgv redirect.cmdStart = false)
    (hstop : ircRedirectMessageMatchHash redirect command argumentsArgv redirect.cmdStop = false) :
    ircRedirectMessageTurn redirect.restarted message command argumentsArgv = .next := by
  have hstart' : ircRedirectMessageMatchHash redirect.restarted command argumentsArgv redirect.restarted.cmdStart = false :=
    hstart
  have hstop' : ircRedirectMessageMatchHash redirect.restarted command argumentsArgv redirect.restarted.cmdStop = false :=
    hstop
  have htime : 0 < redirect.restarted.startTime := hseam.startTime
  rw [ircRedirectMessageTurn, if_pos htime, hstart', hstop']
  rfl

/-- The redirect in its next run takes the message, as a start or as a stop command. -/
theorem turn_restarted_add (message : Str) (hseam : redirect.AtSeam)
    (hextra : ircRedirectMessageMatchHash redirect command argumentsArgv redirect.cmdExtra = false)
    (htakes : ircRedirectMessageMatchHash redirect command argumentsArgv redirect.cmdStart = true ∨
      ircRedirectMessageMatchHash redirect command argumentsArgv redirect.cmdStop = true) :
    ∃ redirect', ircRedirectMessageTurn redirect.restarted message command argumentsArgv = .add redirect' false ∧
      (redirect'.cmdStartReceived = true ∨ redirect'.cmdStopReceived = true) := by
  have htime : 0 < redirect.restarted.startTime := hseam.startTime
  rw [ircRedirectMessageTurn, if_pos htime]
  cases hstart : ircRedirectMessageMatchHash redirect command argumentsArgv redirect.cmdStart with
  | true =>
    have hstart' : ircRedirectMessageMatchHash redirect.restarted command argumentsArgv redirect.restarted.cmdStart = true :=
      hstart
    rw [hstart']
    exact ⟨_, rfl, .inl rfl⟩
  | false =>
    have hstart' : ircRedirectMessageMatchHash redirect.restarted command argumentsArgv redirect.restarted.cmdStart = false :=
      hstart
    have hstop' : ircRedirectMessageMatchHash redirect.restarted command argumentsArgv redirect.restarted.cmdStop = true :=
      htakes.resolve_left fun h => Bool.false_ne_true (hstart.symm.trans h)
    have hextra' : ircRedirectMessageMatchHash redirect.restarted command argumentsArgv redirect.restarted.cmdExtra = false :=
      hextra
    have hsome : redirect.restarted.cmdExtra.isNone = false := by
      obtain ⟨cmdExtra, heq⟩ := Option.isSome_iff_exists.mp hseam.extra
      have heq' : redirect.restarted.cmdExtra = some cmdExtra := heq
      rw [heq']
      rfl
    rw [hstart', hstop', hextra', hsome]
    exact ⟨_, rfl, .inr rfl⟩

/-- The redirect at a place has received a start or a stop command. -/
theorem not_nothingReceived (hlt : ptrRedirect < server.redirects.length)
    (hreceived : redirect.cmdStartReceived = true ∨ redirect.cmdStopReceived = true) :
    ¬ NothingReceived (server.set ptrRedirect redirect) ptrRedirect := by
  rintro ⟨redirect', hget, hstart, hstop⟩
  have hset : (server.redirects.set ptrRedirect redirect)[ptrRedirect]? = some redirect :=
    List.getElem?_set_self hlt
  obtain rfl : redirect = redirect' := Option.some.inj (hset.symm.trans hget)
  rcases hreceived with h | h
  · exact Bool.false_ne_true (hstart.symm.trans h)
  · exact Bool.false_ne_true (hstop.symm.trans h)

/-- The message at the seam goes on to the other redirects, with the redirect in its next run. -/
theorem loop_seam (message : Str) (hblind : CallbackBlind callback) (hget : server.redirects[ptrRedirect]? = some redirect)
    (hseam : redirect.AtSeam)
    (hextra : ircRedirectMessageMatchHash redirect command argumentsArgv redirect.cmdExtra = false) :
    (ircRedirectMessageLoop callback message command argumentsArgv server ptrRedirect).1 =
        (ircRedirectMessageLoop callback message command argumentsArgv (server.set ptrRedirect redirect.restarted)
          (ptrRedirect + 1)).1 ∧
      (ircRedirectMessageLoop callback message command argumentsArgv server ptrRedirect).2.forget =
        (ircRedirectMessageLoop callback message command argumentsArgv (server.set ptrRedirect redirect.restarted)
          (ptrRedirect + 1)).2.forget := by
  have hforget : ((((server.call (.test redirect)).set ptrRedirect redirect.counted).call
      (.stop redirect.counted.id none)).set ptrRedirect redirect.restarted).forget =
      (server.set ptrRedirect redirect.restarted).forget := by
    show ({ server with redirects := (server.redirects.set _ _).set _ _, calls := [] } : IrcRedirects) = _
    rw [List.set_set]
    rfl
  rw [loop_stop hget (turn_seam hseam hextra), stop_seam hseam]
  split
  · exact loop_forget hblind hforget (ptrRedirect + 1)
  · rename_i hlt
    have hend : (server.set ptrRedirect redirect.restarted).redirects[ptrRedirect + 1]? = none := by
      show (server.redirects.set ptrRedirect redirect.restarted)[ptrRedirect + 1]? = none
      rw [List.getElem?_set_ne (Nat.ne_of_lt (Nat.lt_succ_self _)), List.getElem?_eq_none (Nat.le_of_not_lt hlt)]
    rw [loop_end hend]
    exact ⟨rfl, hforget⟩

/-- A message that is no extra command is treated at the seam as if the redirect had been
restarted if and only if it is neither a start nor a stop command. -/
theorem redirect_seam_iff (hblind : CallbackBlind callback) (hget : server.redirects[ptrRedirect]? = some redirect)
    (hseam : redirect.AtSeam)
    (hextra : ircRedirectMessageMatchHash redirect command argumentsArgv redirect.cmdExtra = false) :
    TreatedAsRestarted callback message command argumentsArgv server ptrRedirect redirect ↔
      ircRedirectMessageMatchHash redirect command argumentsArgv redirect.cmdStart = false ∧
        ircRedirectMessageMatchHash redirect command argumentsArgv redirect.cmdStop = false := by
  obtain ⟨hrc, hserver⟩ := loop_seam message hblind hget hseam hextra
  obtain ⟨hlt, -⟩ := List.getElem?_eq_some_iff.mp hget
  have hset : (server.set ptrRedirect redirect.restarted).redirects[ptrRedirect]? = some redirect.restarted :=
    List.getElem?_set_self hlt
  rw [TreatedAsRestarted, hrc, hserver]
  constructor
  · rintro ⟨-, hsame⟩
    by_contra htakes
    rw [not_and_or, Bool.not_eq_false, Bool.not_eq_false] at htakes
    obtain ⟨redirect', hturn, hreceived⟩ := turn_restarted_add message hseam hextra htakes
    -- the redirect has received nothing, and it has received the message
    have hnothing : NothingReceived (server.set ptrRedirect redirect.restarted) ptrRedirect := ⟨_, hset, rfl, rfl⟩
    have hloop := hnothing.loop callback message command argumentsArgv (Nat.lt_succ_self ptrRedirect)
    rw [loop_add hset hturn, if_neg Bool.false_ne_true] at hsame
    have hloop' : NothingReceived (ircRedirectMessageLoop callback message command argumentsArgv
        (server.set ptrRedirect redirect.restarted) (ptrRedirect + 1)).2.forget ptrRedirect := hloop
    rw [hsame] at hloop'
    exact not_nothingReceived (List.getElem?_eq_some_iff.mp hset).1 hreceived hloop'
  · rintro ⟨hstart, hstop⟩
    rw [loop_next hset (turn_restarted_next hseam hstart hstop)]
    exact loop_forget hblind (call_forget _ _).symm (ptrRedirect + 1)

/-- A redirect of `WHOIS` that waits for an extra command. -/
def seamRedirect (count : Int) (string : Str) : IrcRedirect where
  id := 0
  pattern := lit "whois"
  signal := lit "test"
  count := count
  currentCount := 1
  string := some string
  command := none
  startTime := 1
  cmdStart := some fun command => if command = lit "311" then some 1 else none
  cmdStop := some fun command => if command = lit "318" then some 1 else none
  cmdExtra := some fun command => if command = lit "319" then some 1 else none
  cmdStartReceived := true
  cmdStopReceived := true
  cmdFilter := none
  output := some (lit "a")
  outputSize := 2

/-- A server with one redirect. -/
def seamServer (redirect : IrcRedirect) : IrcRedirects where
  name := lit "local"
  redirects := [redirect]
  created := 1
  calls := []

theorem seamRedirect_atSeam {count : Int} (h : 1 < count) (string : Str) : (seamRedirect count string).AtSeam :=
  ⟨Int.one_pos, rfl, rfl, h⟩

theorem redirect_seam_iff_ping :
    TreatedAsRestarted (fun _ _ => []) (lit "PING :a") (lit "PING") [lit "a"] (seamServer (seamRedirect 2 (lit "bob"))) 0
        (seamRedirect 2 (lit "bob")) ↔
      ircRedirectMessageMatchHash (seamRedirect 2 (lit "bob")) (lit "PING") [lit "a"]
          (seamRedirect 2 (lit "bob")).cmdStart = false ∧
        ircRedirectMessageMatchHash (seamRedirect 2 (lit "bob")) (lit "PING") [lit "a"]
          (seamRedirect 2 (lit "bob")).cmdStop = false :=
  redirect_seam_iff (fun _ _ => rfl) rfl (seamRedirect_atSeam (by decide) (lit "bob")) (by decide)

/-- The start command of the second run is displayed. -/
theorem redirect_seam_fails :
    ¬ ∀ (callback : IrcRedirectCallback) (message command : Str) (argumentsArgv : List Str) (server : IrcRedirects)
      (ptrRedirect : Nat) (redirect : IrcRedirect), CallbackBlind callback →
      server.redirects[ptrRedirect]? = some redirect → redirect.AtSeam →
      ircRedirectMessageMatchHash redirect command argumentsArgv redirect.cmdExtra = false →
      TreatedAsRestarted callback message command argumentsArgv server ptrRedirect redirect := by
  intro h
  have htreated := h (fun _ _ => []) (lit ":s 311 me bob") (lit "311") [lit "me", lit "bob"]
    (seamServer (seamRedirect 2 (lit "bob"))) 0 (seamRedirect 2 (lit "bob")) (fun _ _ => rfl) rfl
    (seamRedirect_atSeam (by decide) (lit "bob")) (by decide)
  have hextra : ircRedirectMessageMatchHash (seamRedirect 2 (lit "bob")) (lit "311") [lit "me", lit "bob"]
      (seamRedirect 2 (lit "bob")).cmdExtra = false := by decide
  have hseam : (seamRedirect 2 (lit "bob")).AtSeam := seamRedirect_atSeam (by decide) (lit "bob")
  have hnow : (ircRedirectMessageLoop (fun _ _ => []) (lit ":s 311 me bob") (lit "311") [lit "me", lit "bob"]
      (seamServer (seamRedirect 2 (lit "bob"))) 0).1 = 0 := by
    rw [loop_stop rfl (turn_seam hseam hextra)]
    rfl
  have hrestarted : (ircRedirectMessageLoop (fun _ _ => []) (lit ":s 311 me bob") (lit "311") [lit "me", lit "bob"]
      ((seamServer (seamRedirect 2 (lit "bob"))).set 0 (seamRedirect 2 (lit "bob")).restarted) 0).1 = 1 := by
    obtain ⟨redirect', hturn, -⟩ := turn_restarted_add (lit ":s 311 me bob") hseam hextra
      (.inl (by decide +kernel))
    rw [loop_add rfl hturn]
    rfl
  exact Int.zero_ne_one (hnow.symm.trans (htreated.1.trans hrestarted))

end Wirc
