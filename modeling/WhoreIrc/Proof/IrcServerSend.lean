import WhoreIrc.Proof.CString
import WhoreIrc.Proof.SplitText
import WhoreIrc.Proof.StringSplit
import WhoreIrc.Spec.IrcServer

/-!
# Messages sent to IRC servers

A line is sent or goes to its queue (`sendLine_cases`), and the lines of a text
are taken one after the other (`sendLines_eq`). From this, what is sent of each
line (`sentWhole_iff`), and the order and the times of messages that have a
priority (`antiFlood_run`).
-/

namespace Wirc

open Framework

/-! ## Lines -/

theorem textLines_lf {u t : Str} (hu : ch '\n' ∉ u) : textLines (u ++ ch '\n' :: t) = u :: textLines t := by
  rw [textLines, lines_append_cons u t isLf_lf, tail_append_cons u t isLf_lf,
    List.splitOnP_eq_singleton (isLf_false hu), List.append_assoc, List.singleton_append, textLines]

theorem textLines_last {text : Str} (hne : text ≠ []) (htext : ch '\n' ∉ text) : textLines text = [text] := by
  rw [textLines, lines_of_forall (isLf_false htext), tail_of_forall (isLf_false htext), if_neg hne, List.nil_append]

/-- The lines that are not empty. -/
theorem textLines_runs (text : Str) : (textLines text).filter (fun line => !line.isEmpty) = runs isLf text := by
  have hsplit : text.splitOnP isLf = lines isLf text ++ [tail isLf text] :=
    (List.dropLast_append_getLast (List.splitOnP_ne_nil _ _)).symm
  rw [runs, hsplit, textLines, List.filter_append, List.filter_append]
  split
  · rename_i hnil
    rw [hnil]
    rfl
  · rfl

theorem lineBuffer_ne_nil (line : Str) : lineBuffer line ≠ [] := by
  rw [lineBuffer, snprintf]
  intro hnil
  have hlength := congrArg List.length hnil
  rw [List.length_take, List.length_append, List.length_nil] at hlength
  have htwo : (lit "\r\n").length = 2 := rfl
  omega

theorem priority_succ : ∀ priority : Fin 2, ircServerPriority (priority.val + 1) = priority := by decide

theorem queueMsg_cases (flags : Nat) :
    ircServerQueueMsg flags = 0 ∨ ∃ priority : Fin 2, ircServerQueueMsg flags = priority.val + 1 := by
  rw [ircServerQueueMsg]
  split
  · exact .inr ⟨0, rfl⟩
  · split
    · exact .inr ⟨1, rfl⟩
    · exact .inl rfl

section

variable {env : IrcServerEnv} (hsocket : ∀ k data, env.socket k data = data.length)

include hsocket

theorem send_all (server : IrcServerOut) (queueMsg : Nat) (time : Int) {buffer : Str} (hne : buffer ≠ []) :
    ircServerSend env server queueMsg time buffer =
      ((buffer.length : Int), { server with
        sends := server.sends + 1
        sent := server.sent ++ [IrcSent.mk queueMsg time buffer] }) := by
  rw [ircServerSend, if_neg hne]
  dsimp only
  rw [hsocket, Int.toNat_natCast, List.take_length]

/-- A message without priority is sent now. -/
theorem sendLine_now (server : IrcServerOut) (line : Str) :
    ircServerSendLine env 0 server line =
      (true, { server with
        reads := server.reads + 1
        sends := server.sends + 1
        lastUserMessage := min server.lastUserMessage (env.clock server.reads)
        sent := server.sent ++ [IrcSent.mk 0 (env.clock server.reads) (lineBuffer line)] }) := by
  have hne := lineBuffer_ne_nil line
  have hpos := List.length_pos_iff.mpr hne
  rw [ircServerSendLine, ircServerTime]
  dsimp only
  rw [if_neg fun h => absurd h.1 (Nat.lt_irrefl 0), ← lineBuffer, send_all hsocket _ _ _ hne]
  dsimp only
  rw [if_neg (by omega), if_neg (Nat.lt_irrefl 0)]

/-- One with a priority is sent now if nothing is in its queue and enough time has
passed, or else goes to its queue. -/
theorem sendLine_prio (priority : Fin 2) (server : IrcServerOut) (line : Str) :
    ircServerSendLine env (priority.val + 1) server line =
      (true,
        if server.outqueue priority ≠ [] ∨ (0 < env.antiFlood priority ∧
            env.clock server.reads - min server.lastUserMessage (env.clock server.reads) < env.antiFlood priority) then
          { server with
            reads := server.reads + 1
            lastUserMessage := min server.lastUserMessage (env.clock server.reads)
            outqueue := Function.update server.outqueue priority (server.outqueue priority ++ [lineBuffer line]) }
        else
          { server with
            reads := server.reads + 1
            sends := server.sends + 1
            lastUserMessage := env.clock server.reads
            sent := server.sent ++ [IrcSent.mk (priority.val + 1) (env.clock server.reads) (lineBuffer line)] }) := by
  have hne := lineBuffer_ne_nil line
  have hpos := List.length_pos_iff.mpr hne
  rw [ircServerSendLine, ircServerTime]
  dsimp only
  rw [priority_succ, ← lineBuffer]
  by_cases hwait : server.outqueue priority ≠ [] ∨ (0 < env.antiFlood priority ∧
      env.clock server.reads - min server.lastUserMessage (env.clock server.reads) < env.antiFlood priority)
  · rw [if_pos ⟨Nat.succ_pos _, hwait⟩, if_pos hwait]
    rfl
  · rw [if_neg fun h => hwait h.2, if_neg hwait, send_all hsocket _ _ _ hne]
    dsimp only
    rw [if_neg (by omega), if_pos (Nat.succ_pos _)]

theorem sendLine_true (flags : Nat) (server : IrcServerOut) (line : Str) :
    (ircServerSendLine env (ircServerQueueMsg flags) server line).1 = true := by
  rcases queueMsg_cases flags with hzero | ⟨priority, hpriority⟩
  · rw [hzero, sendLine_now hsocket]
  · rw [hpriority, sendLine_prio hsocket]

/-- The lines of a text are taken one after the other. -/
theorem sendLines_eq (flags : Nat) {rounds : Nat} (server : IrcServerOut) {text : Str}
    (hrounds : text.length ≤ rounds) :
    ircServerSendLines env (ircServerQueueMsg flags) rounds server text =
      (true, (textLines text).foldl
        (fun server line => (ircServerSendLine env (ircServerQueueMsg flags) server line).2) server) := by
  induction rounds generalizing server text with
  | zero =>
    rw [List.length_eq_zero_iff.mp (Nat.le_zero.mp hrounds)]
    rfl
  | succ rounds ih =>
    rw [ircServerSendLines]
    by_cases hne : text = []
    · rw [if_pos hne, hne]
      rfl
    have hline : ∀ line, ircServerSendLine env (ircServerQueueMsg flags) server line =
        (true, (ircServerSendLine env (ircServerQueueMsg flags) server line).2) := fun line =>
      Prod.ext (sendLine_true hsocket flags server line) rfl
    rw [if_neg hne]
    cases hpos : strchr text (ch '\n') with
    | none =>
      dsimp only
      rw [hline, textLines_last hne (strchr_none.mp hpos)]
      dsimp only
      rw [ih _ (Nat.zero_le _)]
      rfl
    | some pos =>
      obtain ⟨u, t, rfl, rfl, hu⟩ := strchr_some hpos
      rw [List.length_append, List.length_cons] at hrounds
      dsimp only
      rw [strndup, take_off_append, List.tail_cons, hline, textLines_lf hu, List.foldl_cons]
      exact ih _ (by omega)

/-- A call takes the lines of its final text. -/
theorem sendOneMsg_eq (server : IrcServerOut) (msg : IrcOneMsg) :
    ircServerSendOneMsg env server msg =
      (true, (textLines (env.text msg)).foldl
        (fun server line => (ircServerSendLine env (ircServerQueueMsg msg.flags) server line).2) server) := by
  rw [ircServerSendOneMsg, IrcServerEnv.text]
  cases ircServerFinalText env msg with
  | none => rfl
  | some text => exact sendLines_eq hsocket msg.flags server (Nat.le_refl _)

/-! ## What is sent of each line -/

/-- A line is sent if its queue is empty, or goes at the end of its queue. -/
theorem sendLine_buffers (flags : Nat) (server : IrcServerOut) (line : Str) :
    let server' := (ircServerSendLine env (ircServerQueueMsg flags) server line).2
    (∃ time, server'.sent = server.sent ++ [IrcSent.mk (ircServerQueueMsg flags) time (lineBuffer line)] ∧
        server'.outqueue = server.outqueue ∧
        ∀ priority : Fin 2, ircServerQueueMsg flags = priority.val + 1 → server.outqueue priority = []) ∨
      ∃ priority : Fin 2, ircServerQueueMsg flags = priority.val + 1 ∧ server'.sent = server.sent ∧
        server'.outqueue =
          Function.update server.outqueue priority (server.outqueue priority ++ [lineBuffer line]) := by
  rcases queueMsg_cases flags with hzero | ⟨priority, hpriority⟩
  · rw [hzero, sendLine_now hsocket]
    exact .inl ⟨_, rfl, rfl, fun priority h => by omega⟩
  · rw [hpriority, sendLine_prio hsocket]
    dsimp only
    split
    · exact .inr ⟨priority, rfl, rfl, rfl⟩
    · rename_i hnow
      refine .inl ⟨_, rfl, rfl, fun priority' h => ?_⟩
      rw [show priority' = priority from Fin.ext (by omega)]
      exact not_not.mp fun hne => hnow (.inl hne)

/-- What is sent comes before what is added to the queue. -/
theorem foldl_sendLine_buffers (flags : Nat) (lines : List Str) (server : IrcServerOut) :
    let server' := lines.foldl
      (fun server line => (ircServerSendLine env (ircServerQueueMsg flags) server line).2) server
    ∃ sent queued : List Str, sent ++ queued = lines.map lineBuffer ∧
      server'.sent.map IrcSent.data = server.sent.map IrcSent.data ++ sent ∧
      (∀ priority : Fin 2, server'.outqueue priority =
        server.outqueue priority ++ if ircServerQueueMsg flags = priority.val + 1 then queued else []) ∧
      (ircServerQueueMsg flags = 0 → queued = []) ∧
      ∀ priority : Fin 2, ircServerQueueMsg flags = priority.val + 1 → server.outqueue priority ≠ [] → sent = [] := by
  induction lines generalizing server with
  | nil =>
    refine ⟨[], [], rfl, (List.append_nil _).symm, fun priority => ?_, fun _ => rfl, fun _ _ _ => rfl⟩
    rw [ite_self, List.append_nil]
    rfl
  | cons line lines ih =>
    obtain ⟨sent, queued, hbuffers, hsent, hqueued, hfree, hlater⟩ :=
      ih (ircServerSendLine env (ircServerQueueMsg flags) server line).2
    dsimp only at hsent hqueued ⊢
    rw [List.foldl_cons, List.map_cons, ← hbuffers, hsent]
    rcases sendLine_buffers hsocket flags server line with ⟨time, hsent', houtqueue, hempty⟩ |
      ⟨priority, hpriority, hsent', houtqueue⟩
    · refine ⟨lineBuffer line :: sent, queued, rfl, ?_, fun priority => ?_, hfree, fun priority h hne => ?_⟩
      · rw [hsent', List.map_append, List.append_assoc]
        rfl
      · rw [hqueued, houtqueue]
      · exact absurd (hempty priority h) hne
    · have hnone : sent = [] := hlater priority hpriority (by
        rw [houtqueue, Function.update_self]
        exact List.append_ne_nil_of_right_ne_nil _ (List.cons_ne_nil _ _))
      refine ⟨[], lineBuffer line :: queued, ?_, ?_, fun priority' => ?_, fun h => by omega, fun _ _ _ => rfl⟩
      · rw [hnone]
        rfl
      · rw [hsent', hnone]
      · rw [hqueued, houtqueue]
        by_cases hsame : priority' = priority
        · rw [hsame, Function.update_self, if_pos hpriority, if_pos hpriority, List.append_assoc, List.singleton_append]
        · have hother : ircServerQueueMsg flags ≠ priority'.val + 1 := fun h => hsame (Fin.ext (by omega))
          rw [Function.update_of_ne hsame, if_neg hother, if_neg hother]

end

theorem lineBuffer_eq_iff (line : Str) : lineBuffer line = line ++ lit "\r\n" ↔ line.length < 4094 := by
  have htwo : (lit "\r\n").length = 2 := rfl
  have hlength : (line ++ lit "\r\n").length = line.length + 2 := by rw [List.length_append, htwo]
  constructor
  · intro h
    have htake := congrArg List.length h
    rw [lineBuffer, snprintf, List.length_take] at htake
    omega
  · intro h
    exact List.take_of_length_le (by omega)

theorem lineBuffer_eq_crlf_iff (line : Str) : lineBuffer line = lit "\r\n" ↔ line = [] := by
  constructor
  · intro h
    have hlength := congrArg List.length h
    have htwo : (lit "\r\n").length = 2 := rfl
    rw [lineBuffer, snprintf, List.length_take, List.length_append] at hlength
    exact List.length_eq_zero_iff.mp (by omega)
  · rintro rfl
    rfl

/-- Only the buffers of the lines that are not empty. -/
theorem filter_lineBuffer (lines : List Str) :
    (lines.map lineBuffer).filter (· ≠ lit "\r\n") = (lines.filter fun line => !line.isEmpty).map lineBuffer := by
  rw [List.filter_map]
  refine congrArg (List.map lineBuffer) (List.filter_congr fun line _ => ?_)
  rw [Function.comp_apply, Bool.eq_iff_iff, decide_eq_true_iff, Bool.not_eq_true', List.isEmpty_eq_false_iff, ne_eq,
    lineBuffer_eq_crlf_iff]

/-- What is sent if the socket takes everything. -/
theorem sentWhole_lines {env : IrcServerEnv} (hsocket : ∀ k data, env.socket k data = data.length)
    (server : IrcServerOut) (msg : IrcOneMsg) :
    SentWhole env server msg ↔
      (runs isLf (env.text msg)).map lineBuffer = (runs isLf (env.text msg)).map (· ++ lit "\r\n") := by
  obtain ⟨sent, queued, hbuffers, hsent, hqueued, hfree, -⟩ :=
    foldl_sendLine_buffers hsocket msg.flags (textLines (env.text msg)) server
  have hfilter : (sent ++ queued).filter (· ≠ lit "\r\n") = (runs isLf (env.text msg)).map lineBuffer := by
    rw [hbuffers, filter_lineBuffer, textLines_runs]
  constructor
  · rintro ⟨server', sent', queued', hcall, hsent', hqueued', hfree', hwhole⟩
    rw [sendOneMsg_eq hsocket] at hcall
    cases hcall
    have hsame : sent = sent' := List.append_cancel_left (hsent.symm.trans hsent')
    have hsame' : queued = queued' := by
      rcases queueMsg_cases msg.flags with hzero | ⟨priority, hpriority⟩
      · rw [hfree hzero, hfree' hzero]
      · have h := (hqueued priority).symm.trans (hqueued' priority)
        rw [if_pos hpriority, if_pos hpriority] at h
        exact List.append_cancel_left h
    rw [← hsame, ← hsame', hfilter] at hwhole
    exact hwhole
  · intro hlines
    exact ⟨_, sent, queued, sendOneMsg_eq hsocket server msg, hsent, hqueued, hfree, hfilter.trans hlines⟩

/-- The lines are sent as they are if and only if they fit in the buffer with
`\r\n` and the final zero. -/
theorem sentWhole_iff (env : IrcServerEnv) (hsocket : ∀ k data, env.socket k data = data.length)
    (server : IrcServerOut) (msg : IrcOneMsg) :
    SentWhole env server msg ↔ ∀ line ∈ runs isLf (env.text msg), line.length < 4094 := by
  rw [sentWhole_lines hsocket, List.map_inj_left]
  exact forall₂_congr fun line _ => lineBuffer_eq_iff line

/-- No modifier changes messages, the clock stands still, and the socket takes everything. -/
def plainEnv : IrcServerEnv :=
  ⟨lit "libera", none, 2, 2, true, fun _ _ _ => none, fun _ => 1000, fun _ data => data.length⟩

def newServerOut : IrcServerOut := ⟨fun _ => [], 0, 0, 0, []⟩

/-- The final text is the message if there is no modifier. -/
theorem text_plain {env : IrcServerEnv} (hhook : ∀ modifier data string, env.hookModifierExec modifier data string = none)
    (msg : IrcOneMsg) : env.text msg = msg.message := by
  have hconvert : ∀ message posStart modifier data,
      ircMessageConvertCharset env message posStart modifier data = none := fun message posStart modifier data => by
    rw [ircMessageConvertCharset, hhook]
    rfl
  simp only [IrcServerEnv.text, ircServerFinalText, hhook, hconvert, ite_self, ne_eq, reduceCtorEq, not_false_eq_true,
    if_true, Option.getD_none, Option.getD_some]

/-- Two lines with an empty line between them. -/
theorem sentWhole_two : SentWhole plainEnv newServerOut ⟨1, lit "PING a\n\nPING b", none, none, none⟩ :=
  (sentWhole_iff plainEnv (fun _ _ => rfl) newServerOut ⟨1, lit "PING a\n\nPING b", none, none, none⟩).mpr (by
    rw [text_plain fun _ _ _ => rfl]
    decide)

/-- A message of 4094 bytes. -/
def longMsg : IrcOneMsg :=
  ⟨0, lit "PRIVMSG #c :" ++ List.replicate 4082 (ch 'a'), none, some (lit "PRIVMSG"), some (lit "#c")⟩

/-- The line feed after a line of 4094 bytes is lost. -/
theorem sentWhole_fails : ¬ SentWhole plainEnv newServerOut longMsg := by
  have hlength : longMsg.message.length = 4094 := by
    rw [longMsg, List.length_append, List.length_replicate]
    rfl
  have hword : runs isLf longMsg.message = [longMsg.message] := runs_word
    (fun hnil => by rw [hnil] at hlength; cases hlength)
    (isLf_false fun hmem => by
      rcases List.mem_append.mp hmem with hmem | hmem
      · exact absurd hmem (by decide)
      · exact absurd (List.eq_of_mem_replicate hmem) (by decide))
  rw [sentWhole_lines fun _ _ => rfl, text_plain fun _ _ _ => rfl, hword, List.map_inj_left]
  intro hwhole
  have hfits := (lineBuffer_eq_iff _).mp (hwhole _ (List.mem_singleton_self _))
  omega

/-! ## Order and times -/

/-- What stays true of the messages that are sent and those in the queues. -/
structure OutInv (env : IrcServerEnv) (server : IrcServerOut) : Prop where
  queue : ∀ priority, ∀ message ∈ server.outqueue priority, message ≠ []
  past : ∀ message ∈ server.sent, 0 < message.queueMsg →
    message.time ≤ server.lastUserMessage ∧ ∀ k, server.reads ≤ k → message.time ≤ env.clock k
  spaced : Spaced env server.sent

theorem priority_mk (priority : Fin 2) (time : Int) (data : Str) :
    (IrcSent.mk (priority.val + 1) time data).priority = priority := priority_succ priority

theorem spaced_append {env : IrcServerEnv} {sent : List IrcSent} (hspaced : Spaced env sent) {message' : IrcSent}
    (hmessage' : 0 < message'.queueMsg → ∀ message ∈ sent, 0 < message.queueMsg →
      message.time + env.antiFlood message'.priority ≤ message'.time) : Spaced env (sent ++ [message']) := by
  rw [Spaced, List.filter_append, List.pairwise_append]
  refine ⟨hspaced, ?_, fun message hmessage message'' hmem => ?_⟩
  · exact (List.pairwise_singleton _ _).sublist List.filter_sublist
  · obtain ⟨hmem, hprio⟩ := List.mem_filter.mp hmem
    obtain ⟨hmessage, hprio'⟩ := List.mem_filter.mp hmessage
    rw [List.mem_singleton.mp hmem] at hprio ⊢
    exact hmessage' (of_decide_eq_true hprio) message hmessage (of_decide_eq_true hprio')

section

variable {env : IrcServerEnv} (hclock : ∀ i j, i ≤ j → env.clock i ≤ env.clock j) {server : IrcServerOut}
  (hinv : OutInv env server) {outqueue : Fin 2 → List Str} (hqueue : ∀ priority, ∀ message ∈ outqueue priority, message ≠ [])

include hinv hqueue

/-- The time is read and nothing is sent. -/
theorem OutInv.kept (sends : Nat) :
    OutInv env ⟨outqueue, min server.lastUserMessage (env.clock server.reads), server.reads + 1, sends, server.sent⟩ where
  queue := hqueue
  past message hmessage hprio := by
    obtain ⟨hlast, hreads⟩ := hinv.past message hmessage hprio
    exact ⟨Int.le_min.mpr ⟨hlast, hreads _ (Nat.le_refl _)⟩, fun k hk => hreads k (Nat.le_of_succ_le hk)⟩
  spaced := hinv.spaced

include hclock

/-- The time is read and a message is sent. -/
theorem OutInv.sent {lastUserMessage : Int} {message' : IrcSent} (sends : Nat)
    (htime : message'.time = env.clock server.reads)
    (hlast : min server.lastUserMessage (env.clock server.reads) ≤ lastUserMessage)
    (hwait : 0 < message'.queueMsg → env.clock server.reads ≤ lastUserMessage ∧
      (0 < env.antiFlood message'.priority → min server.lastUserMessage (env.clock server.reads) +
        env.antiFlood message'.priority ≤ env.clock server.reads)) :
    OutInv env ⟨outqueue, lastUserMessage, server.reads + 1, sends, server.sent ++ [message']⟩ where
  queue := hqueue
  past message hmessage hprio := by
    rcases List.mem_append.mp hmessage with hmessage | hmessage
    · obtain ⟨hlast', hreads⟩ := (hinv.kept hqueue sends).past message hmessage hprio
      exact ⟨Int.le_trans hlast' hlast, hreads⟩
    · rw [List.mem_singleton.mp hmessage] at hprio ⊢
      rw [htime]
      exact ⟨(hwait hprio).1, fun k hk => hclock _ _ (Nat.le_of_succ_le hk)⟩
  spaced := spaced_append hinv.spaced fun hprio message hmessage hprio' => by
    have hpast := ((hinv.kept hqueue sends).past message hmessage hprio').1
    have hnow := (hinv.past message hmessage hprio').2 _ (Nat.le_refl _)
    have hwait := (hwait hprio).2
    dsimp only at hpast
    rw [htime]
    omega

end

section

variable {env : IrcServerEnv} (hsocket : ∀ k data, env.socket k data = data.length)
  (hclock : ∀ i j, i ≤ j → env.clock i ≤ env.clock j)

include hsocket in
/-- A tick sends the first message of a queue, or nothing. -/
theorem sendPrio_cases (timeNow : Int) (server : IrcServerOut)
    (hqueue : ∀ priority, ∀ message ∈ server.outqueue priority, message ≠ []) (priorities : List (Fin 2)) :
    ircServerOutqueueSendPrio env timeNow server priorities = server ∨
      ∃ priority message messages, server.outqueue priority = message :: messages ∧
        server.lastUserMessage + env.antiFlood priority ≤ timeNow ∧
        ircServerOutqueueSendPrio env timeNow server priorities =
          ⟨Function.update server.outqueue priority messages, timeNow, server.reads, server.sends + 1,
            server.sent ++ [IrcSent.mk (priority.val + 1) timeNow message]⟩ := by
  induction priorities with
  | nil => exact .inl rfl
  | cons priority priorities ih =>
    rw [ircServerOutqueueSendPrio]
    cases houtqueue : server.outqueue priority with
    | nil => exact ih
    | cons message messages =>
      dsimp only
      split
      · rename_i hwait
        refine .inr ⟨priority, message, messages, houtqueue, hwait, ?_⟩
        rw [send_all hsocket _ _ _ (hqueue priority message (houtqueue ▸ List.mem_cons_self ..))]
      · exact ih

theorem sent_data_append (sent : List IrcSent) (queueMsg : Nat) (time : Int) (data : Str) (priority : Fin 2) :
    ((sent ++ [IrcSent.mk queueMsg time data]).filter fun sent => sent.queueMsg = priority.val + 1).map IrcSent.data =
      (sent.filter fun sent => sent.queueMsg = priority.val + 1).map IrcSent.data ++
        if queueMsg = priority.val + 1 then [data] else [] := by
  rw [List.filter_append, List.map_append]
  by_cases hqueue : queueMsg = priority.val + 1
  · rw [if_pos hqueue, List.filter_cons]
    dsimp only
    rw [if_pos (decide_eq_true hqueue)]
    rfl
  · rw [if_neg hqueue, List.filter_cons]
    dsimp only
    rw [if_neg fun h => hqueue (of_decide_eq_true h)]
    rfl

include hsocket

theorem sendLine_stream (flags : Nat) (server : IrcServerOut) (line : Str) (priority : Fin 2) :
    ((ircServerSendLine env (ircServerQueueMsg flags) server line).2).stream priority =
      server.stream priority ++ if ircServerQueueMsg flags = priority.val + 1 then [lineBuffer line] else [] := by
  rw [IrcServerOut.stream, IrcServerOut.stream]
  rcases sendLine_buffers hsocket flags server line with ⟨time, hsent, houtqueue, hempty⟩ |
    ⟨priority', hpriority', hsent, houtqueue⟩
  · rw [hsent, houtqueue, sent_data_append]
    by_cases hqueue : ircServerQueueMsg flags = priority.val + 1
    · rw [hempty priority hqueue, List.append_nil, List.append_nil]
    · rw [if_neg hqueue, List.append_nil, List.append_nil]
  · rw [hsent, houtqueue]
    by_cases hsame : priority = priority'
    · rw [hsame, Function.update_self, if_pos hpriority', List.append_assoc]
    · rw [Function.update_of_ne hsame, if_neg fun h => hsame (Fin.ext (by omega)), List.append_nil]

theorem foldl_sendLine_stream (flags : Nat) (lines : List Str) (server : IrcServerOut) (priority : Fin 2) :
    (lines.foldl (fun server line => (ircServerSendLine env (ircServerQueueMsg flags) server line).2)
        server).stream priority =
      server.stream priority ++ if ircServerQueueMsg flags = priority.val + 1 then lines.map lineBuffer else [] := by
  induction lines generalizing server with
  | nil =>
    rw [List.map_nil, ite_self, List.append_nil]
    rfl
  | cons line lines ih =>
    rw [List.foldl_cons, ih, sendLine_stream hsocket, List.append_assoc]
    split
    · rfl
    · rfl

include hclock

theorem sendLine_inv (flags : Nat) {server : IrcServerOut} (hinv : OutInv env server) (line : Str) :
    OutInv env (ircServerSendLine env (ircServerQueueMsg flags) server line).2 := by
  rcases queueMsg_cases flags with hzero | ⟨priority, hpriority⟩
  · rw [hzero, sendLine_now hsocket]
    exact hinv.sent hclock hinv.queue _ rfl (Int.le_refl _) fun h => absurd h (Nat.lt_irrefl 0)
  · rw [hpriority, sendLine_prio hsocket]
    dsimp only
    split
    · refine hinv.kept (fun priority' message hmessage => ?_) _
      by_cases hsame : priority' = priority
      · rw [hsame, Function.update_self] at hmessage
        rcases List.mem_append.mp hmessage with hmessage | hmessage
        · exact hinv.queue _ _ hmessage
        · rw [List.mem_singleton.mp hmessage]
          exact lineBuffer_ne_nil line
      · rw [Function.update_of_ne hsame] at hmessage
        exact hinv.queue _ _ hmessage
    · rename_i hnow
      refine hinv.sent hclock hinv.queue _ rfl (Int.min_le_right ..) fun _ => ⟨Int.le_refl _, fun hpos => ?_⟩
      rw [priority_mk] at hpos ⊢
      have hwait := fun h => hnow (.inr ⟨hpos, h⟩)
      omega

/-- What a step does. -/
theorem outStep_keeps {server : IrcServerOut} (hinv : OutInv env server) (step : IrcOutStep) :
    OutInv env (ircOutStep env server step) ∧
      ∀ priority, (ircOutStep env server step).stream priority = server.stream priority ++ step.buffers env priority := by
  cases step with
  | oneMsg msg =>
    rw [ircOutStep, sendOneMsg_eq hsocket]
    refine ⟨?_, fun priority => foldl_sendLine_stream hsocket msg.flags _ server priority⟩
    generalize textLines (env.text msg) = lines
    induction lines generalizing server with
    | nil => exact hinv
    | cons line lines ih => exact ih (sendLine_inv hsocket hclock msg.flags hinv line)
  | tick =>
    rw [ircOutStep, ircServerOutqueueSend, ircServerTime]
    dsimp only
    rcases sendPrio_cases hsocket (env.clock server.reads) ⟨server.outqueue,
      min server.lastUserMessage (env.clock server.reads), server.reads + 1, server.sends, server.sent⟩ hinv.queue [0, 1] with
      hnothing | ⟨priority, message, messages, houtqueue, hwait, hsend⟩
    · rw [hnothing]
      exact ⟨hinv.kept hinv.queue _, fun priority => (List.append_nil _).symm⟩
    · rw [hsend]
      dsimp only at houtqueue hwait ⊢
      refine ⟨hinv.sent hclock (fun priority' message' hmessage' => ?_) _ rfl (Int.min_le_right ..)
        fun _ => ⟨Int.le_refl _, fun _ => ?_⟩, fun priority' => ?_⟩
      · by_cases hsame : priority' = priority
        · rw [hsame, Function.update_self] at hmessage'
          exact hinv.queue priority message' (houtqueue ▸ List.mem_cons_of_mem _ hmessage')
        · rw [Function.update_of_ne hsame] at hmessage'
          exact hinv.queue _ _ hmessage'
      · rw [priority_mk]
        exact hwait
      · rw [IrcServerOut.stream, IrcServerOut.stream, IrcOutStep.buffers, List.append_nil, sent_data_append]
        dsimp only
        by_cases hsame : priority' = priority
        · rw [hsame, Function.update_self, houtqueue, if_pos rfl, List.append_assoc, List.singleton_append]
        · rw [Function.update_of_ne hsame, if_neg fun h => hsame (Fin.ext (by omega)), List.append_nil]

end

/-- The messages of a priority are sent in the order of the calls, each once or
still in the queue, and each waits for the time that its priority asks for. -/
theorem antiFlood_run (env : IrcServerEnv) (hsocket : ∀ k data, env.socket k data = data.length)
    (hclock : ∀ i j, i ≤ j → env.clock i ≤ env.clock j) (server : IrcServerOut) (hsent : server.sent = [])
    (hqueue : ∀ priority, ∀ message ∈ server.outqueue priority, message ≠ []) (steps : List IrcOutStep) :
    (∀ priority, (steps.foldl (ircOutStep env) server).stream priority =
        server.outqueue priority ++ steps.flatMap (IrcOutStep.buffers env priority)) ∧
      Spaced env (steps.foldl (ircOutStep env) server).sent := by
  have hrun : OutInv env (steps.foldl (ircOutStep env) server) ∧
      ∀ priority, (steps.foldl (ircOutStep env) server).stream priority =
        server.stream priority ++ steps.flatMap (IrcOutStep.buffers env priority) := by
    have hinv : OutInv env server := ⟨hqueue, by rw [hsent]; exact fun _ h => absurd h List.not_mem_nil, by
      rw [hsent]
      exact List.Pairwise.nil⟩
    clear hsent hqueue
    induction steps generalizing server with
    | nil => exact ⟨hinv, fun priority => (List.append_nil _).symm⟩
    | cons step steps ih =>
      obtain ⟨hinv', hstream⟩ := outStep_keeps hsocket hclock hinv step
      obtain ⟨hinv'', hstream'⟩ := ih _ hinv'
      refine ⟨hinv'', fun priority => ?_⟩
      rw [List.foldl_cons, hstream', hstream, List.flatMap_cons, List.append_assoc]
  refine ⟨fun priority => ?_, hrun.1.spaced⟩
  rw [hrun.2, IrcServerOut.stream, hsent]
  rfl

/-- Two messages of a user, an answer, and ticks of the timer. -/
def floodSteps : List IrcOutStep :=
  [.oneMsg ⟨1, lit "PRIVMSG #c :a", none, none, none⟩, .tick, .oneMsg ⟨1, lit "PRIVMSG #c :b", none, none, none⟩,
    .oneMsg ⟨2, lit "NOTICE n :c", none, none, none⟩, .tick, .tick]

/-- The clock moves by one second each time it is read. -/
def tickingEnv : IrcServerEnv := { plainEnv with clock := fun k => k }

theorem antiFlood_run_flood :
    (∀ priority, (floodSteps.foldl (ircOutStep tickingEnv) newServerOut).stream priority =
        newServerOut.outqueue priority ++ floodSteps.flatMap (IrcOutStep.buffers tickingEnv priority)) ∧
      Spaced tickingEnv (floodSteps.foldl (ircOutStep tickingEnv) newServerOut).sent :=
  antiFlood_run tickingEnv (fun _ _ => rfl) (fun i j hij => show (i : Int) ≤ (j : Int) from Int.ofNat_le.mpr hij)
    newServerOut rfl (fun _ _ h => absurd h List.not_mem_nil) floodSteps

end Wirc
