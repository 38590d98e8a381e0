import WhoreIrc.Proof.CString
import WhoreIrc.Proof.SplitText
import WhoreIrc.Spec.IrcServer

/-!
# Messages received from IRC servers

A chunk gives a server the messages that it ends, after the part that was kept,
and nothing to the other servers (`addBuffer_own`, `addBuffer_other`). From this,
`msgq_chunks`.
-/

namespace Wirc

open Framework

/-! ## Streams without `\r` -/

theorem removeCr_append (s t : Str) : removeCr (s ++ t) = removeCr s ++ removeCr t := List.filter_append ..

theorem removeCr_of_not_mem {s : Str} (h : ch '\r' ∉ s) : removeCr s = s :=
  List.filter_eq_self.mpr fun _ hc => decide_eq_true fun heq => h (heq ▸ hc)

theorem removeCr_cons_cr (s : Str) : removeCr (ch '\r' :: s) = removeCr s := rfl

theorem removeCr_cons_lf (s : Str) : removeCr (ch '\n' :: s) = ch '\n' :: removeCr s := rfl

theorem lines_tail_removeCr (s : Str) :
    lines isLf (removeCr s) = (lines isLf s).map removeCr ∧ tail isLf (removeCr s) = removeCr (tail isLf s) :=
  lines_tail_filter _ (fun c hc => by
    rw [isLf, decide_eq_true_eq] at hc
    rw [hc]
    decide) s

/-- The lines that are not empty. -/
def fullLines (s : Str) : List Str := (lines isLf s).filter fun line => !line.isEmpty

theorem fullLines_of_forall {s : Str} (hs : ∀ c ∈ s, isLf c = false) : fullLines s = [] := by
  rw [fullLines, lines_of_forall hs]
  rfl

theorem fullLines_append (s t : Str) : fullLines (s ++ t) = fullLines s ++ fullLines (tail isLf s ++ t) := by
  rw [fullLines, lines_append, List.filter_append, fullLines, fullLines]

theorem fullLines_append_lf {s : Str} (hs : ∀ c ∈ s, isLf c = false) (t : Str) :
    fullLines (s ++ ch '\n' :: t) = [s].filter (fun line => !line.isEmpty) ++ fullLines t := by
  rw [fullLines, lines_append_cons s t isLf_lf, List.splitOnP_eq_singleton hs, List.filter_append, fullLines]

theorem ircMessages_eq (stream : Str) : ircMessages stream = fullLines (removeCr stream) := by
  rw [ircMessages, fullLines, (lines_tail_removeCr stream).1]

/-! ## One chunk -/

section

variable {Server : Type} [DecidableEq Server] {server : Server}

/-- What is kept for a server between two chunks. -/
def IrcMsgq.kept (server : Server) (msgq : IrcMsgq Server) : Str := (msgq.unterminatedMessage server).getD []

theorem full_of_ne_nil {s : Str} (hs : s ≠ []) : [s].filter (fun line => !line.isEmpty) = [s] :=
  List.filter_cons_of_pos (by rw [List.isEmpty_eq_false_iff.mpr hs]; rfl)

theorem messages_append (unterminated : Server → Option Str) (recv : List (Server × Str)) (msg : Str) :
    IrcMsgq.messages ⟨unterminated, recv ++ [(server, msg)]⟩ server =
      (recv.filter fun message => message.1 = server).map Prod.snd ++ [msg] := by
  have hself : [(server, msg)].filter (fun message => message.1 = server) = [(server, msg)] :=
    List.filter_cons_of_pos (decide_eq_true (show server = server from rfl))
  rw [IrcMsgq.messages, List.filter_append, hself, List.map_append, List.map_singleton]

theorem addMsg_own {msgq : IrcMsgq Server} (hkept : msgq.unterminatedMessage server ≠ some []) (msg : Str) :
    (ircServerMsgqAddMsg server msgq msg).unterminatedMessage server = none ∧
      (ircServerMsgqAddMsg server msgq msg).messages server =
        msgq.messages server ++ [msgq.kept server ++ msg].filter fun line => !line.isEmpty := by
  rw [ircServerMsgqAddMsg, IrcMsgq.kept]
  cases hunterminated : msgq.unterminatedMessage server with
  | some unterminated =>
    have hne : unterminated ≠ [] := fun hnil => hkept (by rw [hunterminated, hnil])
    refine ⟨Function.update_self .., ?_⟩
    rw [Option.getD_some, full_of_ne_nil (List.append_ne_nil_of_left_ne_nil hne _)]
    exact messages_append ..
  | none =>
    dsimp only
    rw [Option.getD_none, List.nil_append]
    split
    · rename_i hnil
      rw [hnil]
      exact ⟨hunterminated, (List.append_nil _).symm⟩
    · rename_i hne
      rw [full_of_ne_nil hne]
      exact ⟨hunterminated, messages_append ..⟩

theorem addUnterminated_own {msgq : IrcMsgq Server} (hkept : msgq.unterminatedMessage server ≠ some []) (string : Str) :
    (ircServerMsgqAddUnterminated server msgq string).unterminatedMessage server ≠ some [] ∧
      (ircServerMsgqAddUnterminated server msgq string).kept server = msgq.kept server ++ string ∧
      (ircServerMsgqAddUnterminated server msgq string).messages server = msgq.messages server := by
  rw [ircServerMsgqAddUnterminated]
  split
  · rename_i hnil
    rw [hnil, List.append_nil]
    exact ⟨hkept, rfl, rfl⟩
  · rename_i hne
    rw [IrcMsgq.kept]
    dsimp only
    rw [Function.update_self]
    exact ⟨fun hnil => List.append_ne_nil_of_right_ne_nil _ hne (Option.some.inj hnil), rfl, rfl⟩

/-- A round stops at the first `\r` or line feed. -/
theorem addBuffer_cases (rounds : Nat) (msgq : IrcMsgq Server) {buffer : Str} (hne : buffer ≠ []) :
    (ch '\r' ∉ buffer ∧ ch '\n' ∉ buffer ∧
        ircServerMsgqAddBuffer server (rounds + 1) msgq buffer = ircServerMsgqAddUnterminated server msgq buffer) ∨
      (∃ u t, buffer = u ++ ch '\r' :: t ∧ ch '\r' ∉ u ∧ ch '\n' ∉ u ∧
        ircServerMsgqAddBuffer server (rounds + 1) msgq buffer =
          ircServerMsgqAddBuffer server rounds (ircServerMsgqAddUnterminated server msgq u) t) ∨
      ∃ u t, buffer = u ++ ch '\n' :: t ∧ ch '\r' ∉ u ∧ ch '\n' ∉ u ∧
        ircServerMsgqAddBuffer server (rounds + 1) msgq buffer =
          ircServerMsgqAddBuffer server rounds (ircServerMsgqAddMsg server msgq u) t := by
  rw [ircServerMsgqAddBuffer, if_neg hne]
  cases hcr : strchr buffer (ch '\r') with
  | none =>
    have hcr := strchr_none.mp hcr
    cases hlf : strchr buffer (ch '\n') with
    | none => exact .inl ⟨hcr, strchr_none.mp hlf, rfl⟩
    | some lf =>
      obtain ⟨u, t, rfl, rfl, hu⟩ := strchr_some hlf
      refine .inr (.inr ⟨u, t, rfl, fun hmem => hcr (List.mem_append_left _ hmem), hu, ?_⟩)
      dsimp only
      rw [strndup, take_off_append, List.tail_cons]
  | some cr =>
    obtain ⟨u, t, rfl, rfl, hu⟩ := strchr_some hcr
    cases hlf : strchr (u ++ ch '\r' :: t) (ch '\n') with
    | none =>
      have hlf := strchr_none.mp hlf
      refine .inr (.inl ⟨u, t, rfl, hu, fun hmem => hlf (List.mem_append_left _ hmem), ?_⟩)
      dsimp only
      rw [strndup, take_off_append, List.tail_cons]
    | some lf =>
      obtain ⟨u', t', hbuffer, rfl, hu'⟩ := strchr_some hlf
      have hoff : off (u ++ ch '\r' :: t) (ch '\n' :: t') = u'.length := by rw [hbuffer, off_append]
      dsimp only
      rw [off_append, hoff]
      split
      · rename_i hfirst
        have hbegin : u <+: u' :=
          List.prefix_of_prefix_length_le (List.prefix_append u _) (hbuffer ▸ List.prefix_append u' _) hfirst.le
        refine .inr (.inl ⟨u, t, rfl, hu, fun hmem => hu' (hbegin.subset hmem), ?_⟩)
        rw [strndup, List.take_left, List.tail_cons]
      · rename_i hfirst
        have hbegin : u' <+: u :=
          List.prefix_of_prefix_length_le (hbuffer ▸ List.prefix_append u' _) (List.prefix_append u _)
            (Nat.le_of_not_lt hfirst)
        refine .inr (.inr ⟨u', t', hbuffer, fun hmem => hu (hbegin.subset hmem), hu', ?_⟩)
        rw [strndup, hbuffer, List.take_left, List.tail_cons]

theorem addBuffer_nil (rounds : Nat) (msgq : IrcMsgq Server) :
    ircServerMsgqAddBuffer server rounds msgq [] = msgq := by
  cases rounds with
  | zero => rfl
  | succ rounds => rw [ircServerMsgqAddBuffer, if_pos rfl]

/-- What a chunk does for its server. -/
theorem addBuffer_own {rounds : Nat} {msgq : IrcMsgq Server} {buffer : Str} (hrounds : buffer.length ≤ rounds)
    (hkept : msgq.unterminatedMessage server ≠ some []) (hlf : ∀ c ∈ msgq.kept server, isLf c = false) :
    let msgq' := ircServerMsgqAddBuffer server rounds msgq buffer
    msgq'.unterminatedMessage server ≠ some [] ∧
      msgq'.kept server = tail isLf (msgq.kept server ++ removeCr buffer) ∧
      msgq'.messages server = msgq.messages server ++ fullLines (msgq.kept server ++ removeCr buffer) := by
  induction rounds generalizing msgq buffer with
  | zero =>
    rw [List.length_eq_zero_iff.mp (Nat.le_zero.mp hrounds), removeCr, List.filter_nil, List.append_nil,
      tail_of_forall hlf, fullLines_of_forall hlf, List.append_nil]
    exact ⟨hkept, rfl, rfl⟩
  | succ rounds ih =>
    by_cases hne : buffer = []
    · rw [hne, addBuffer_nil, removeCr, List.filter_nil, List.append_nil, tail_of_forall hlf, fullLines_of_forall hlf,
        List.append_nil]
      exact ⟨hkept, rfl, rfl⟩
    have hkeeps : ∀ string, ch '\n' ∉ string → ∀ c ∈ msgq.kept server ++ string, isLf c = false :=
      fun string hstring c hc => (List.mem_append.mp hc).elim (hlf c) (isLf_false hstring c)
    rcases addBuffer_cases rounds msgq hne with ⟨hcr, hnlf, hround⟩ | ⟨u, t, rfl, hcr, hnlf, hround⟩ |
      ⟨u, t, rfl, hcr, hnlf, hround⟩
    · obtain ⟨hkept', happend, hmessages⟩ := addUnterminated_own hkept buffer
      rw [hround, removeCr_of_not_mem hcr, tail_of_forall (hkeeps buffer hnlf),
        fullLines_of_forall (hkeeps buffer hnlf),
        List.append_nil]
      exact ⟨hkept', happend, hmessages⟩
    · obtain ⟨hkept', happend, hmessages⟩ := addUnterminated_own hkept u
      rw [List.length_append, List.length_cons] at hrounds
      obtain ⟨hkept'', happend', hmessages'⟩ := @ih (ircServerMsgqAddUnterminated server msgq u) t (by omega) hkept'
        (happend ▸ hkeeps u hnlf)
      rw [hround, removeCr_append, removeCr_of_not_mem hcr, removeCr_cons_cr, ← List.append_assoc, ← happend,
        ← hmessages]
      exact ⟨hkept'', happend', hmessages'⟩
    · obtain ⟨hnone, hmessages⟩ := addMsg_own hkept u
      have hnil : (ircServerMsgqAddMsg server msgq u).kept server = [] := by rw [IrcMsgq.kept, hnone, Option.getD_none]
      rw [List.length_append, List.length_cons] at hrounds
      obtain ⟨hkept', htail, hmessages'⟩ := @ih (ircServerMsgqAddMsg server msgq u) t (by omega)
        (by rw [hnone]; rintro ⟨⟩) (hnil ▸ fun c hc => absurd hc List.not_mem_nil)
      rw [hnil, List.nil_append] at htail hmessages'
      rw [hround, removeCr_append, removeCr_of_not_mem hcr, removeCr_cons_lf, ← List.append_assoc,
        tail_append_cons _ _ isLf_lf, fullLines_append_lf (hkeeps u hnlf), ← List.append_assoc, ← hmessages]
      exact ⟨hkept', htail, hmessages'⟩

theorem addMsg_other {other : Server} (hother : other ≠ server) (msgq : IrcMsgq Server) (msg : Str) :
    (ircServerMsgqAddMsg server msgq msg).unterminatedMessage other = msgq.unterminatedMessage other ∧
      (ircServerMsgqAddMsg server msgq msg).messages other = msgq.messages other := by
  have hskip : ∀ msg, [(server, msg)].filter (fun message : Server × Str => decide (message.1 = other)) =
    [] := fun msg =>
    List.filter_eq_nil_iff.mpr fun message hmessage => by
      rw [List.mem_singleton.mp hmessage, decide_eq_true_eq]
      exact hother.symm
  rw [ircServerMsgqAddMsg]
  cases msgq.unterminatedMessage server with
  | some unterminated =>
    refine ⟨Function.update_of_ne hother .., ?_⟩
    rw [IrcMsgq.messages, List.filter_append, hskip, List.append_nil, IrcMsgq.messages]
  | none =>
    dsimp only
    split
    · exact ⟨rfl, rfl⟩
    · rw [IrcMsgq.messages, List.filter_append, hskip, List.append_nil, IrcMsgq.messages]
      exact ⟨rfl, rfl⟩

theorem addUnterminated_other {other : Server} (hother : other ≠ server) (msgq : IrcMsgq Server) (string : Str) :
    (ircServerMsgqAddUnterminated server msgq string).unterminatedMessage other = msgq.unterminatedMessage other ∧
      (ircServerMsgqAddUnterminated server msgq string).messages other = msgq.messages other := by
  rw [ircServerMsgqAddUnterminated]
  split
  · exact ⟨rfl, rfl⟩
  · exact ⟨Function.update_of_ne hother .., rfl⟩

/-- A chunk does nothing for the other servers. -/
theorem addBuffer_other {other : Server} (hother : other ≠ server) (rounds : Nat) (msgq : IrcMsgq Server)
    (buffer : Str) :
    let msgq' := ircServerMsgqAddBuffer server rounds msgq buffer
    msgq'.unterminatedMessage other = msgq.unterminatedMessage other ∧ msgq'.messages other = msgq.messages other := by
  induction rounds generalizing msgq buffer with
  | zero => exact ⟨rfl, rfl⟩
  | succ rounds ih =>
    by_cases hne : buffer = []
    · rw [hne, addBuffer_nil]
      exact ⟨rfl, rfl⟩
    rcases addBuffer_cases rounds msgq hne with ⟨-, -, hround⟩ | ⟨u, t, -, -, -, hround⟩ | ⟨u, t, -, -, -, hround⟩
    · rw [hround]
      exact addUnterminated_other hother msgq buffer
    · rw [hround, ← (addUnterminated_other hother msgq u).1, ← (addUnterminated_other hother msgq u).2]
      exact ih _ t
    · rw [hround, ← (addMsg_other hother msgq u).1, ← (addMsg_other hother msgq u).2]
      exact ih _ t

end

/-- The messages of each server, and what is kept for it, do not depend on how its
stream is cut, nor on the chunks of the other servers. -/
theorem msgq_chunks {Server : Type} [DecidableEq Server] (msgq : IrcMsgq Server) (server : Server)
    (hnone : msgq.unterminatedMessage server = none) (chunks : List (Server × Str)) :
    (chunks.foldl msgqChunk msgq).messages server =
        msgq.messages server ++ ircMessages (chunksStream chunks server) ∧
      (chunks.foldl msgqChunk msgq).unterminatedMessage server = ircUnterminated (chunksStream chunks server) := by
  obtain ⟨hne, hkept, hmessages⟩ := foldl_reader msgqChunk
    (fun msgq => msgq.unterminatedMessage server ≠ some [])
    (fun chunk => removeCr (if chunk.1 = server then chunk.2 else []))
    (IrcMsgq.kept server) (fun msgq => msgq.messages server) fullLines (fun s hs => fullLines_of_forall hs)
    fullLines_append chunks
    (fun msgq hmsgq hlf chunk _ => by
      by_cases hchunk : chunk.1 = server
      · rw [if_pos hchunk, msgqChunk, hchunk]
        exact addBuffer_own (Nat.le_refl _) hmsgq hlf
      · obtain ⟨hunterminated, hsame⟩ := addBuffer_other (Ne.symm hchunk) chunk.2.length msgq chunk.2
        rw [if_neg hchunk, removeCr, List.filter_nil, List.append_nil, tail_of_forall hlf, fullLines_of_forall hlf,
          List.append_nil, msgqChunk, IrcMsgq.kept, IrcMsgq.kept, hunterminated]
        exact ⟨hmsgq, rfl, hsame⟩)
    msgq (by rw [hnone]; rintro ⟨⟩) (by
      rw [IrcMsgq.kept, hnone]
      exact fun c hc => absurd hc List.not_mem_nil)
  have hstream : (chunks.flatMap fun chunk => removeCr (if chunk.1 = server then chunk.2 else [])) =
      removeCr (chunksStream chunks server) := List.filter_flatMap.symm
  have hnil : msgq.kept server = [] := by rw [IrcMsgq.kept, hnone, Option.getD_none]
  rw [hstream, hnil, List.nil_append] at hkept hmessages
  refine ⟨hmessages.trans (by rw [ircMessages_eq]), ?_⟩
  rw [(lines_tail_removeCr _).2, IrcMsgq.kept] at hkept
  rw [ircUnterminated, ← hkept]
  cases hunterminated : (chunks.foldl msgqChunk msgq).unterminatedMessage server with
  | none => rw [Option.getD_none, if_pos rfl]
  | some unterminated =>
    rw [Option.getD_some, if_neg fun hnil => hne (by rw [hunterminated, hnil])]

/-- Two servers; a message is cut, and another between `\r` and the line feed. -/
theorem msgq_chunks_two :
    ([(0, lit "PI"), (1, lit "a\r\n"), (0, lit "NG :x\r"), (0, lit "\n\nb")].foldl msgqChunk
        (⟨fun _ => none, []⟩ : IrcMsgq Nat)).messages 0 = [lit "PING :x"] ∧
      ([(0, lit "PI"), (1, lit "a\r\n"), (0, lit "NG :x\r"), (0, lit "\n\nb")].foldl msgqChunk
        (⟨fun _ => none, []⟩ : IrcMsgq Nat)).unterminatedMessage 0 = some (lit "b") :=
  msgq_chunks ⟨fun _ => none, []⟩ 0 rfl
    [(0, lit "PI"), (1, lit "a\r\n"), (0, lit "NG :x\r"), (0, lit "\n\nb")]

end Wirc
