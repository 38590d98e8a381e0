import WhoreIrc.Impl.IrcRedirect

/-!
# Redirections deliver each message once

The calls made for the redirects of a server are the history: which messages
each redirect has accepted, how many of its runs are complete, and what was
sent. A run is complete where `irc_redirect_stop` is called without error.
-/

namespace Wirc

/-! ## Runs -/

/-- What happens to the redirects of a server: a message is received, a redirect is created
or its command is sent, or the timeout of a redirect has come. -/
inductive IrcRedirectEvent
  | message (callback : IrcRedirectCallback) (message command : Str) (arguments : Option Str)
  | act (act : IrcRedirectAct)
  | timeout (callback : IrcRedirectCallback) (ptrRedirect : Nat)

def IrcRedirectEvent.run (server : IrcRedirects) : IrcRedirectEvent → IrcRedirects
  | message callback text command arguments => (ircRedirectMessage callback server text command arguments).2
  | act a => a.run server
  | timeout callback ptrRedirect =>
    match server.redirects[ptrRedirect]? with
    | some redirect => (ircRedirectStop callback server ptrRedirect redirect (some (lit "timeout"))).2
    | none => server

namespace IrcRedirectCall

/-- The redirect of a call. -/
def redirect : IrcRedirectCall → Nat
  | test r => r.id
  | add id _ _ => id
  | stop id _ => id
  | send r _ => r.id

/-- The redirect that a message is tested on. -/
def tested : IrcRedirectCall → Option IrcRedirect
  | test r => some r
  | _ => none

/-- The redirect that a message is added to, with the message and its command. -/
def added : IrcRedirectCall → Option (Nat × Str × Str)
  | add id message command => some (id, message, command)
  | _ => none

/-- A run of the redirect `id` is complete. -/
def completes (id : Nat) : IrcRedirectCall → Bool
  | stop r error => r == id && error.isNone
  | _ => false

/-- The signal of the redirect `id` is sent. -/
def Sends (id : Nat) : IrcRedirectCall → Prop
  | send r _ => r.id = id
  | _ => False

end IrcRedirectCall

/-- The messages added to the redirect `id`, with their commands. -/
def messagesAccepted (calls : List IrcRedirectCall) (id : Nat) : List (Str × Str) :=
  ((calls.filterMap IrcRedirectCall.added).filter fun added => added.1 == id).map Prod.snd

/-- The number of complete runs of the redirect `id`. -/
def runsCompleted (calls : List IrcRedirectCall) (id : Nat) : Nat := calls.countP (IrcRedirectCall.completes id)

/-- The messages whose command passes the filter. -/
def messagesFiltered (cmdFilter : Option (Str → Bool)) (accepted : List (Str × Str)) : List Str :=
  (accepted.filter fun message => cmdFilter.all fun cmdFilter => cmdFilter message.2).map Prod.fst

/-- The size of the output: one more than its length, or 0 without message. -/
def outputSizeOf (messages : List Str) : Int :=
  if messages = [] then 0 else (List.intercalate [ch '\n'] messages).length + 1

/-! ## Each message once -/

/-- The redirect accepts a message: as an extra command after the stop command, and else as
a start or stop command, or as any message after the start command. -/
def IrcRedirect.accepts (redirect : IrcRedirect) (command : Str) (argumentsArgv : List Str) : Bool :=
  0 < redirect.startTime &&
    if redirect.cmdStopReceived then ircRedirectMessageMatchHash redirect command argumentsArgv redirect.cmdExtra
    else redirect.cmdStartReceived || ircRedirectMessageMatchHash redirect command argumentsArgv redirect.cmdStart ||
      ircRedirectMessageMatchHash redirect command argumentsArgv redirect.cmdStop

/-- The redirect as it was, but for a command that was sent for it. -/
def IrcRedirect.SameButCommand (redirect redirect' : IrcRedirect) : Prop :=
  redirect' = { redirect with command := redirect'.command, startTime := redirect'.startTime }

/-- What `irc_redirect_message` does with the redirects of a list, when `created` ones were
created: `calls` are the calls that it makes. -/
structure MessageOnce (redirects : List IrcRedirect) (created : Nat) (message command : Str) (argumentsArgv : List Str)
    (rc : Int) (calls : List IrcRedirectCall) : Prop where
  /-- The message is tested on redirects in the order of the list, and then on new ones. -/
  order : ∃ new : List Nat, (∀ id ∈ new, created ≤ id) ∧
    (calls.filterMap IrcRedirectCall.tested).map IrcRedirect.id <+: redirects.map IrcRedirect.id ++ new
  /-- They are those of the list, but for the commands that callbacks have sent. -/
  listed : ∀ redirect ∈ calls.filterMap IrcRedirectCall.tested, redirect.id < created →
    ∃ redirect' ∈ redirects, redirect'.SameButCommand redirect
  /-- It is added to the first one that accepts it, and to no other. -/
  first : rc = 1 → ∃ before redirect, calls.filterMap IrcRedirectCall.tested = before ++ [redirect] ∧
    (∀ redirect' ∈ before, redirect'.accepts command argumentsArgv = false) ∧
    redirect.accepts command argumentsArgv = true ∧
    calls.filterMap IrcRedirectCall.added = [(redirect.id, message, command)]
  /-- No redirect accepts it. -/
  none : rc ≠ 1 → redirects.map IrcRedirect.id <+:
      (calls.filterMap IrcRedirectCall.tested).map IrcRedirect.id ∧
    (∀ redirect ∈ calls.filterMap IrcRedirectCall.tested, redirect.accepts command argumentsArgv = false) ∧
    calls.filterMap IrcRedirectCall.added = []

/-- A signal is sent with the messages accepted before, and without error right after the
last of the runs. -/
structure SignalRight (before : List IrcRedirectCall) (redirect : IrcRedirect) (signal : IrcRedirectSignal) : Prop where
  runs : signal.error = [] → (runsCompleted before redirect.id : Int) = redirect.count ∧
    before.getLast? = some (.stop redirect.id none)
  output : signal.output =
    List.intercalate [ch '\n'] (messagesFiltered redirect.cmdFilter (messagesAccepted before redirect.id))
  outputSize : signal.outputSize =
    fmtInt (outputSizeOf (messagesFiltered redirect.cmdFilter (messagesAccepted before redirect.id)))

/-- The redirects, without the history of the calls. -/
def IrcRedirects.forget (server : IrcRedirects) : IrcRedirects := { server with calls := [] }

/-- Callbacks do not see the history. -/
def CallbackBlind (callback : IrcRedirectCallback) : Prop :=
  ∀ server signal, callback server signal = callback server.forget signal

/-- The redirect in its next run. -/
def IrcRedirect.restarted (redirect : IrcRedirect) : IrcRedirect := redirect.counted.continued

/-- A redirect waits for its extra command, and has another run to do. -/
structure IrcRedirect.AtSeam (redirect : IrcRedirect) : Prop where
  startTime : 0 < redirect.startTime
  stopReceived : redirect.cmdStopReceived = true
  extra : redirect.cmdExtra.isSome
  count : redirect.currentCount < redirect.count

/-- The message that comes to the redirect at a place of the list is treated as if the
redirect had been restarted. -/
def TreatedAsRestarted (callback : IrcRedirectCallback) (message command : Str) (argumentsArgv : List Str)
    (server : IrcRedirects) (ptrRedirect : Nat) (redirect : IrcRedirect) : Prop :=
  let now := ircRedirectMessageLoop callback message command argumentsArgv server ptrRedirect
  let restarted := ircRedirectMessageLoop callback message command argumentsArgv
    (server.set ptrRedirect redirect.restarted) ptrRedirect
  now.1 = restarted.1 ∧ now.2.forget = restarted.2.forget

end Wirc
