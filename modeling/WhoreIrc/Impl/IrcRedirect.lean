import WhoreIrc.Impl.IrcServer
import WhoreIrc.Impl.StringSplit
import WhoreIrc.Impl.Utf8

/-!
# Redirection of messages (`plugins/irc/irc-redirect.c`)

`ptr_redirect` is a place in the list of redirects. A signal runs callbacks,
which may create redirects and send commands, but not disconnect the server.
Timeouts and the table of patterns are left out: a redirect is given its tables
of commands.
-/

namespace Wirc

/-- A hashtable of commands: the number of the argument that must be the string of the
redirect, negative if none must. -/
abbrev IrcRedirectCommands := Str → Option Int

/-- `struct t_irc_redirect`; `id` stands for the pointer. -/
structure IrcRedirect where
  id : Nat
  pattern : Str
  signal : Str
  count : Int
  currentCount : Int
  string : Option Str
  command : Option Str
  startTime : Int
  cmdStart : Option IrcRedirectCommands
  cmdStop : Option IrcRedirectCommands
  cmdExtra : Option IrcRedirectCommands
  cmdStartReceived : Bool
  cmdStopReceived : Bool
  cmdFilter : Option (Str → Bool)
  output : Option Str
  outputSize : Int

/-- The name of the signal and the hashtable sent with it. -/
structure IrcRedirectSignal where
  signalName : Str
  error : Str
  output : Str
  outputSize : Str
  server : Str
  pattern : Str
  signal : Str
  command : Option Str
  deriving DecidableEq

/-- The calls made for redirects: a message is tested on a redirect, and is added to it;
a redirect is stopped, and its signal is sent. -/
inductive IrcRedirectCall
  | test (redirect : IrcRedirect)
  | add (redirect : Nat) (message command : Str)
  | stop (redirect : Nat) (error : Option Str)
  | send (redirect : IrcRedirect) (signal : IrcRedirectSignal)

/-- The redirects of a server, the number of those created, and the calls made. -/
structure IrcRedirects where
  name : Str
  redirects : List IrcRedirect
  created : Nat
  calls : List IrcRedirectCall

namespace IrcRedirects

def call (server : IrcRedirects) (call : IrcRedirectCall) : IrcRedirects :=
  { server with calls := server.calls ++ [call] }

/-- `*ptr_redirect = redirect`. -/
def set (server : IrcRedirects) (ptrRedirect : Nat) (redirect : IrcRedirect) : IrcRedirects :=
  { server with redirects := server.redirects.set ptrRedirect redirect }

/-- `irc_redirect_free`. -/
def free (server : IrcRedirects) (ptrRedirect : Nat) : IrcRedirects :=
  { server with redirects := server.redirects.eraseIdx ptrRedirect }

end IrcRedirects

/-- The arguments of `irc_redirect_new_with_commands`. -/
structure IrcRedirectNew where
  pattern : Str
  signal : Str
  count : Int
  string : Option Str
  cmdStart : Option IrcRedirectCommands
  cmdStop : Option IrcRedirectCommands
  cmdExtra : Option IrcRedirectCommands
  cmdFilter : Option (Str → Bool)

/-- The redirect that `irc_redirect_new_with_commands` creates. -/
def ircRedirectNew (id : Nat) (new : IrcRedirectNew) : IrcRedirect where
  id := id
  pattern := new.pattern
  signal := new.signal
  count := if new.count ≥ 1 then new.count else 1
  currentCount := 1
  string := new.string
  command := none
  startTime := 0
  cmdStart := new.cmdStart
  cmdStop := new.cmdStop
  cmdExtra := new.cmdExtra
  cmdStartReceived := false
  cmdStopReceived := false
  cmdFilter := new.cmdFilter
  output := none
  outputSize := 0

/-- `irc_redirect_new_with_commands`: the redirect is added at the end of the list. -/
def ircRedirectNewWithCommands (server : IrcRedirects) (new : IrcRedirectNew) : IrcRedirects :=
  { server with
    redirects := server.redirects ++ [ircRedirectNew server.created new]
    created := server.created + 1 }

/-- `irc_redirect_init_command`, at the time `now`. -/
def ircRedirectInitCommand (redirect : IrcRedirect) (command : Option Str) (now : Int) : IrcRedirect :=
  { redirect with
    command := command.map fun command =>
      match (strchr command (ch '\r')).orElse fun _ => strchr command (ch '\n') with
      | some pos => strndup command (off command pos)
      | none => command
    startTime := now }

/-- `irc_redirect_message_match_hash`. -/
def ircRedirectMessageMatchHash (redirect : IrcRedirect) (command : Str) (argumentsArgv : List Str)
    (cmdHash : Option IrcRedirectCommands) : Bool :=
  match cmdHash.bind fun cmdHash => cmdHash command with
  | none => false
  | some value =>
    match redirect.string with
    | none => true
    | some string =>
      if string ≠ [] ∧ 0 ≤ value then
        match argumentsArgv[value.toNat]? with
        | some argument => stringStrcasecmp argument string = 0
        | none => false
      else true

/-- `irc_redirect_message_add`. -/
def ircRedirectMessageAdd (redirect : IrcRedirect) (message command : Str) : IrcRedirect :=
  if redirect.cmdFilter.any fun cmdFilter => !cmdFilter command then redirect
  else
    match redirect.output with
    | some output =>
      { redirect with
        output := some (output ++ ch '\n' :: message)
        outputSize := redirect.outputSize + (1 + message.length) }
    | none => { redirect with output := some message, outputSize := message.length + 1 }

/-- What callbacks of a signal do to redirects. -/
inductive IrcRedirectAct
  | new (new : IrcRedirectNew)
  | init (redirect : Nat) (command : Option Str) (now : Int)

def IrcRedirectAct.run (server : IrcRedirects) : IrcRedirectAct → IrcRedirects
  | new n => ircRedirectNewWithCommands server n
  | init id command now =>
    { server with
      redirects := server.redirects.map fun redirect =>
        if redirect.id = id then ircRedirectInitCommand redirect command now else redirect }

/-- What the callbacks of a signal do, on a server with some redirects. -/
abbrev IrcRedirectCallback := IrcRedirects → IrcRedirectSignal → List IrcRedirectAct

/-- What `irc_redirect_stop` sends. -/
def ircRedirectSignal (server : IrcRedirects) (redirect : IrcRedirect) (error : Option Str) : IrcRedirectSignal where
  signalName := snprintf 1024 (lit "irc_redirection_" ++ redirect.signal ++ lit "_" ++ redirect.pattern)
  error := error.getD []
  output := redirect.output.getD []
  outputSize := fmtInt redirect.outputSize
  server := server.name
  pattern := redirect.pattern
  signal := redirect.signal
  command := redirect.command

/-- One run more is counted. -/
def IrcRedirect.counted (redirect : IrcRedirect) : IrcRedirect :=
  { redirect with currentCount := redirect.currentCount + 1 }

/-- The redirect is prepared to continue the redirection. -/
def IrcRedirect.continued (redirect : IrcRedirect) : IrcRedirect :=
  { redirect with cmdStartReceived := false, cmdStopReceived := false }

/-- Sends the signal of a redirect, with what its callbacks do. -/
def ircRedirectSend (callback : IrcRedirectCallback) (server : IrcRedirects) (redirect : IrcRedirect)
    (error : Option Str) : IrcRedirects :=
  let signal := ircRedirectSignal server redirect error
  (callback server signal).foldl IrcRedirectAct.run (server.call (.send redirect signal))

/-- `irc_redirect_stop`, on the redirect at a place of the list: whether it is freed. -/
def ircRedirectStop (callback : IrcRedirectCallback) (server : IrcRedirects) (ptrRedirect : Nat)
    (redirect : IrcRedirect)
    (error : Option Str) : Bool × IrcRedirects :=
  let redirect := redirect.counted
  let server := (server.set ptrRedirect redirect).call (.stop redirect.id error)
  if error.isSome ∨ redirect.count < redirect.currentCount then
    -- error or max count reached
    (true, (ircRedirectSend callback server redirect error).free ptrRedirect)
  else (false, server.set ptrRedirect redirect.continued)

/-- What is done with a message for a redirect: nothing; `irc_redirect_stop`; or the message
is added to it, which may be followed by `irc_redirect_stop`. -/
inductive IrcRedirectTurn
  | next
  | stop
  | add (redirect : IrcRedirect) (stop : Bool)

/-- The body of the loop of `irc_redirect_message`, for a redirect. -/
def ircRedirectMessageTurn (redirect : IrcRedirect) (message command : Str) (argumentsArgv : List Str) :
    IrcRedirectTurn :=
  if 0 < redirect.startTime then
    if redirect.cmdStopReceived then
      if ircRedirectMessageMatchHash redirect command argumentsArgv redirect.cmdExtra then
        .add (ircRedirectMessageAdd redirect message command) true
      else .stop
    else if !redirect.cmdStartReceived && ircRedirectMessageMatchHash redirect command argumentsArgv redirect.cmdStart then
      .add { ircRedirectMessageAdd redirect message command with cmdStartReceived := true } false
    else if ircRedirectMessageMatchHash redirect command argumentsArgv redirect.cmdStop then
      -- without an extra command, or if it is one too, the stop command ends the redirection
      .add { ircRedirectMessageAdd redirect message command with cmdStopReceived := true }
        (redirect.cmdExtra.isNone || ircRedirectMessageMatchHash redirect command argumentsArgv redirect.cmdExtra)
    else if redirect.cmdStartReceived then .add (ircRedirectMessageAdd redirect message command) false
    else .next
  else .next

/-! ## The loop -/

theorem ircRedirectMessageTurn_stop {redirect : IrcRedirect} {message command : Str} {argumentsArgv : List Str}
    (h : ircRedirectMessageTurn redirect message command argumentsArgv = .stop) : redirect.cmdStopReceived = true := by
  unfold ircRedirectMessageTurn at h
  repeat' split at h
  all_goals first | assumption | cases h

/-- The redirects from a place on that wait for an extra command. -/
def IrcRedirects.waiting (server : IrcRedirects) (ptrRedirect : Nat) : Nat :=
  ((server.redirects.drop ptrRedirect).filter IrcRedirect.cmdStopReceived).length

theorem IrcRedirectAct.run_waiting (server : IrcRedirects) (act : IrcRedirectAct) {ptrRedirect : Nat}
    (h : ptrRedirect ≤ server.redirects.length) :
    (run server act).waiting ptrRedirect = server.waiting ptrRedirect ∧ ptrRedirect ≤ (run server act).redirects.length := by
  cases act with
  | new n =>
    refine ⟨?_, ?_⟩
    · show (((server.redirects ++ [_]).drop ptrRedirect).filter IrcRedirect.cmdStopReceived).length = _
      rw [List.drop_append_of_le_length h, List.filter_append, List.length_append]
      rfl
    · show ptrRedirect ≤ (server.redirects ++ [_]).length
      rw [List.length_append]
      exact Nat.le_add_right_of_le h
  | init id command now =>
    refine ⟨?_, ?_⟩
    · show (((server.redirects.map fun redirect => if redirect.id = id then ircRedirectInitCommand redirect command now
        else redirect).drop ptrRedirect).filter IrcRedirect.cmdStopReceived).length = _
      rw [← List.map_drop, List.filter_map, List.length_map]
      refine congrArg (fun p => ((server.redirects.drop ptrRedirect).filter p).length) (funext fun redirect => ?_)
      show (if redirect.id = id then ircRedirectInitCommand redirect command now else redirect).cmdStopReceived = _
      split
      · rfl
      · rfl
    · show ptrRedirect ≤ (server.redirects.map _).length
      rw [List.length_map]
      exact h

theorem ircRedirectActs_waiting (server : IrcRedirects) (acts : List IrcRedirectAct) {ptrRedirect : Nat}
    (h : ptrRedirect ≤ server.redirects.length) :
    (acts.foldl IrcRedirectAct.run server).waiting ptrRedirect = server.waiting ptrRedirect ∧
      ptrRedirect ≤ (acts.foldl IrcRedirectAct.run server).redirects.length := by
  induction acts generalizing server with
  | nil => exact ⟨rfl, h⟩
  | cons act acts ih =>
    obtain ⟨hwaiting, hle⟩ := IrcRedirectAct.run_waiting server act h
    obtain ⟨hwaiting', hle'⟩ := ih _ hle
    exact ⟨hwaiting'.trans hwaiting, hle'⟩

theorem ircRedirectSend_waiting (callback : IrcRedirectCallback) (server : IrcRedirects) (redirect : IrcRedirect)
    (error : Option Str) {ptrRedirect : Nat} (h : ptrRedirect ≤ server.redirects.length) :
    (ircRedirectSend callback server redirect error).waiting ptrRedirect = server.waiting ptrRedirect ∧
      ptrRedirect ≤ (ircRedirectSend callback server redirect error).redirects.length :=
  ircRedirectActs_waiting (server.call _) _ h

theorem IrcRedirects.free_waiting {server : IrcRedirects} {ptrRedirect : Nat}
    (h : ptrRedirect < server.redirects.length) :
    (server.free ptrRedirect).waiting ptrRedirect = server.waiting (ptrRedirect + 1) := by
  have htake : (server.redirects.take ptrRedirect).length = ptrRedirect := List.length_take_of_le (Nat.le_of_lt h)
  rw [waiting, free, List.eraseIdx_eq_take_drop_succ, List.drop_left' htake]
  rfl

theorem IrcRedirects.set_waiting (server : IrcRedirects) (ptrRedirect : Nat) (redirect : IrcRedirect) :
    (server.set ptrRedirect redirect).waiting (ptrRedirect + 1) = server.waiting (ptrRedirect + 1) := by
  rw [waiting, set, List.drop_set_of_lt (Nat.lt_succ_self _)]
  rfl

/-- After `irc_redirect_stop` one redirect less is waiting, from the next one on. -/
theorem ircRedirectStop_waiting (callback : IrcRedirectCallback) {server : IrcRedirects} {ptrRedirect : Nat}
    {redirect : IrcRedirect} (error : Option Str) (h : server.redirects[ptrRedirect]? = some redirect)
    (hstop : redirect.cmdStopReceived = true) :
    (ircRedirectStop callback server ptrRedirect redirect error).2.waiting
      (if (ircRedirectStop callback server ptrRedirect redirect error).1 then ptrRedirect else ptrRedirect + 1) <
      server.waiting ptrRedirect := by
  obtain ⟨hlt, hget⟩ := List.getElem?_eq_some_iff.mp h
  have hafter : server.waiting ptrRedirect = server.waiting (ptrRedirect + 1) + 1 := by
    rw [IrcRedirects.waiting, List.drop_eq_getElem_cons hlt, hget, List.filter_cons_of_pos hstop]
    rfl
  rw [hafter, ircRedirectStop]
  split
  · have hle : ptrRedirect + 1 ≤ (server.set ptrRedirect redirect.counted).redirects.length := by
      show ptrRedirect + 1 ≤ (server.redirects.set ptrRedirect redirect.counted).length
      rw [List.length_set]
      exact hlt
    obtain ⟨hsend, hlength⟩ := ircRedirectSend_waiting callback
      ((server.set ptrRedirect redirect.counted).call (.stop redirect.counted.id error)) redirect.counted error hle
    rw [if_pos rfl]
    refine Nat.lt_succ_of_le (Nat.le_of_eq ?_)
    exact (IrcRedirects.free_waiting hlength).trans (hsend.trans (server.set_waiting ptrRedirect redirect.counted))
  · rw [if_neg Bool.false_ne_true]
    refine Nat.lt_succ_of_le (Nat.le_of_eq ?_)
    rw [IrcRedirects.set_waiting]
    exact server.set_waiting ptrRedirect redirect.counted

/-- The loop of `irc_redirect_message`, from the place `ptrRedirect` on. -/
def ircRedirectMessageLoop (callback : IrcRedirectCallback) (message command : Str) (argumentsArgv : List Str)
    (server : IrcRedirects) (ptrRedirect : Nat) : Int × IrcRedirects :=
  match _hget : server.redirects[ptrRedirect]? with
  | none => (0, server)
  | some redirect =>
    let server' := server.call (.test redirect)
    match _hturn : ircRedirectMessageTurn redirect message command argumentsArgv with
    | .next => ircRedirectMessageLoop callback message command argumentsArgv server' (ptrRedirect + 1)
    | .stop =>
      let stopped := ircRedirectStop callback server' ptrRedirect redirect none
      -- the next redirect was read before the signal: what callbacks create after the last one is not seen
      if ptrRedirect + 1 < server.redirects.length then
        ircRedirectMessageLoop callback message command argumentsArgv stopped.2
          (if stopped.1 then ptrRedirect else ptrRedirect + 1)
      else (0, stopped.2)
    | .add redirect' stop =>
      let server' := (server'.set ptrRedirect redirect').call (.add redirect'.id message command)
      if stop then (1, (ircRedirectStop callback server' ptrRedirect redirect' none).2) else (1, server')
termination_by (server.waiting ptrRedirect, server.redirects.length - ptrRedirect)
decreasing_by
  · obtain ⟨hlt, -⟩ := List.getElem?_eq_some_iff.mp _hget
    have hle : server.waiting (ptrRedirect + 1) ≤ server.waiting ptrRedirect := by
      rw [IrcRedirects.waiting, IrcRedirects.waiting, List.drop_eq_getElem_cons hlt, List.filter_cons]
      split
      · exact Nat.le_succ _
      · exact Nat.le_refl _
    rcases Nat.lt_or_eq_of_le hle with h | h
    · exact Prod.Lex.left _ _ h
    · show Prod.Lex _ _ (server.waiting (ptrRedirect + 1), server.redirects.length - (ptrRedirect + 1)) _
      rw [h]
      exact Prod.Lex.right _ (by omega)
  · exact Prod.Lex.left _ _ (ircRedirectStop_waiting callback none _hget (ircRedirectMessageTurn_stop _hturn))

/-- `arguments_argv`, the words of the arguments of a message. -/
def ircRedirectArguments (arguments : Option Str) : List Str :=
  (arguments.bind fun arguments => stringSplit arguments (lit " ") none ⟨true, true, true, false⟩ 0).getD []

/-- `irc_redirect_message`. -/
def ircRedirectMessage (callback : IrcRedirectCallback) (server : IrcRedirects) (message command : Str)
    (arguments : Option Str) : Int × IrcRedirects :=
  ircRedirectMessageLoop callback message command (ircRedirectArguments arguments) server 0

end Wirc
