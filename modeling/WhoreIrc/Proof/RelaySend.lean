import WhoreIrc.Proof.CString
import WhoreIrc.Spec.RelayClient

/-!
# What is sent to a relay client

A message goes at the end of the bytes that are sent or in the queue, and the
timer moves bytes from the queue to the socket (`sends_delivered`).
-/

namespace Wirc

open Framework

/-- What is added to the queue. -/
theorem outqueueAdd_keeps (client : RelayOut) (data : List Byte) (raws : List RelayRaw) :
    let client' := relayClientOutqueueAdd client data data.length raws
    client'.connected = client.connected ∧ client'.bytes = client.bytes ++ data ∧
      ∃ traces, client'.traces = client.traces ++ traces ∧ traces.Sublist raws := by
  dsimp only
  rw [relayClientOutqueueAdd]
  split
  · rename_i hempty
    have hdata : data = [] := List.length_eq_zero_iff.mp (by omega)
    rw [hdata, List.append_nil]
    exact ⟨rfl, rfl, [], (List.append_nil _).symm, List.nil_sublist _⟩
  · refine ⟨rfl, ?_, raws.filter fun raw => 0 < raw.size, ?_, List.filter_sublist⟩
    · rw [RelayOut.bytes, RelayOut.bytes, List.flatMap_append, List.flatMap_singleton, Int.toNat_natCast,
        List.take_length,
        List.append_assoc]
    · rw [RelayOut.traces, RelayOut.traces, List.flatMap_append, List.flatMap_singleton, List.append_assoc]

section

variable {socket : Nat → SocketWrite} (hsocket : ∀ k, socket k ≠ .error)

include hsocket

/-- The loop on the queue moves bytes to the socket. -/
theorem sendOutqueue_keeps (client : RelayOut) (outqueue : List RelayOutqueue) :
    let client' := relayClientSendOutqueue socket client outqueue
    client'.connected = client.connected ∧
      client'.bytes = client.written ++ outqueue.flatMap RelayOutqueue.data ∧
      client'.traces = client.printed ++ outqueue.flatMap RelayOutqueue.raws := by
  induction outqueue generalizing client with
  | nil => exact ⟨rfl, rfl, rfl⟩
  | cons message outqueue ih =>
    dsimp only
    rw [relayClientSendOutqueue, List.flatMap_cons, List.flatMap_cons]
    cases hwrite : socket client.writes with
    | sent n =>
      dsimp only
      split
      · rename_i hall
        obtain ⟨hconnected, hbytes, htraces⟩ := ih
          (client.write (message.data.take (min n message.data.length)) message.raws)
        refine ⟨hconnected, ?_, ?_⟩
        · rw [← List.append_assoc]
          rw [hall, List.take_length] at hbytes ⊢
          exact hbytes
        · rw [← List.append_assoc]
          exact htraces
      · refine ⟨rfl, ?_, ?_⟩
        · rw [RelayOut.bytes, List.flatMap_cons, RelayOut.write, List.append_assoc, ← List.append_assoc (List.take _ _),
            List.take_append_drop]
        · rw [RelayOut.traces, List.flatMap_cons, List.nil_append, RelayOut.write, List.append_assoc]
    | wouldBlock =>
      refine ⟨rfl, ?_, ?_⟩
      · rw [RelayOut.bytes, RelayOut.write, List.append_nil, List.flatMap_cons]
      · rw [RelayOut.traces, RelayOut.write, List.append_nil, List.append_nil, List.flatMap_cons]
    | error => exact absurd hwrite (hsocket _)

/-- What a call of `relay_client_send` adds. -/
theorem clientSend_adds {client : RelayOut} (hconnected : client.connected = true) (call : RelayMessage)
    (hframed : call.framed.length ≤ 2147483647) :
    ∃ numSent client', relayClientSend socket client call = some (numSent, client') ∧ client'.connected = true ∧
      client'.bytes = client.bytes ++ call.framed ∧
      ∃ traces, client'.traces = client.traces ++ traces ∧ traces.Sublist call.raws := by
  have hsize : toInt call.framed.length = call.framed.length := toInt_of_range (by omega) (by omega)
  rw [relayClientSend, if_neg (not_not.mpr hconnected), hsize]
  dsimp only
  by_cases hqueue : client.outqueue = []
  · rw [if_neg (not_not.mpr hqueue), if_neg (by omega)]
    cases hwrite : socket client.writes with
    | sent n =>
      dsimp only
      rw [Int.toNat_natCast]
      have hbytes : ∀ sent, (client.write sent call.raws).bytes = client.bytes ++ sent := fun sent => by
        rw [RelayOut.bytes, RelayOut.bytes, RelayOut.write, hqueue, List.flatMap_nil, List.append_nil, List.append_nil]
      have htraces : ∀ sent, (client.write sent call.raws).traces = client.traces ++ call.raws := fun sent => by
        rw [RelayOut.traces, RelayOut.traces, RelayOut.write, hqueue, List.flatMap_nil, List.append_nil,
          List.append_nil]
      split
      · rename_i hrest
        obtain ⟨hconnected', hbytes', traces, htraces', hsublist⟩ :=
          outqueueAdd_keeps (client.write (call.framed.take (min n call.framed.length)) call.raws)
            (call.framed.drop (min n call.framed.length)) []
        have hlength : ((call.framed.drop (min n call.framed.length)).length : Int) =
            call.framed.length - (min n call.framed.length : Nat) := by
          rw [List.length_drop]
          omega
        rw [hlength] at hconnected' hbytes' htraces'
        refine ⟨_, _, rfl, hconnected'.trans hconnected, ?_, call.raws, ?_, List.Sublist.refl _⟩
        · rw [hbytes', hbytes, List.append_assoc, List.take_append_drop]
        · rw [htraces', htraces, List.sublist_nil.mp hsublist, List.append_nil]
      · rename_i hrest
        refine ⟨_, _, rfl, hconnected, ?_, call.raws, htraces _, List.Sublist.refl _⟩
        rw [hbytes, List.take_of_length_le (by omega)]
    | wouldBlock =>
      obtain ⟨hconnected', hbytes, htraces⟩ := outqueueAdd_keeps (client.write [] []) call.framed call.raws
      have hwrite : (client.write [] []).bytes = client.bytes ∧ (client.write [] []).traces = client.traces := by
        rw [RelayOut.write, List.append_nil, List.append_nil]
        exact ⟨rfl, rfl⟩
      rw [hwrite.1] at hbytes
      rw [hwrite.2] at htraces
      exact ⟨_, _, rfl, hconnected'.trans hconnected, hbytes, htraces⟩
    | error => exact absurd hwrite (hsocket _)
  · rw [if_pos hqueue]
    obtain ⟨hconnected', hadd⟩ := outqueueAdd_keeps client call.framed call.raws
    exact ⟨_, _, rfl, hconnected'.trans hconnected, hadd⟩

theorem relayCall_adds {client : RelayOut} (hconnected : client.connected = true) (call : RelayCall)
    (hfits : call.Fits) :
    ∃ client', relayCall socket client call = some client' ∧ client'.connected = true ∧
      client'.bytes = client.bytes ++ call.framed ∧
      ∃ traces, client'.traces = client.traces ++ traces ∧ traces.Sublist call.raws := by
  cases call with
  | send call =>
    obtain ⟨numSent, client', hsend, hadds⟩ := clientSend_adds hsocket hconnected call hfits.2
    refine ⟨client', ?_, hadds⟩
    rw [relayCall, hsend]
    rfl
  | timer =>
    obtain ⟨hconnected', hbytes, htraces⟩ := sendOutqueue_keeps hsocket client client.outqueue
    refine ⟨_, rfl, ?_⟩
    rw [relayClientTimerCb, if_pos hconnected]
    refine ⟨hconnected'.trans hconnected, hbytes.trans (List.append_nil _).symm, [], ?_, List.nil_sublist _⟩
    rw [List.append_nil]
    exact htraces

end

/-- The bytes accepted by the socket and those in the queue are the messages in
the order of the calls, and each raw message is printed or kept once at most. -/
theorem sends_delivered (socket : Nat → SocketWrite) (hsocket : ∀ k, socket k ≠ .error) (client : RelayOut)
    (hconnected : client.connected = true) (calls : List RelayCall) (hcalls : ∀ call ∈ calls, call.Fits) :
    ∃ client', calls.foldlM (relayCall socket) client = some client' ∧
      client'.bytes = client.bytes ++ calls.flatMap RelayCall.framed ∧
      ∃ traces, client'.traces = client.traces ++ traces ∧ traces.Sublist (calls.flatMap RelayCall.raws) := by
  induction calls generalizing client with
  | nil =>
    refine ⟨client, rfl, ?_, [], ?_, List.nil_sublist _⟩
    · rw [List.flatMap_nil, List.append_nil]
    · rw [List.append_nil]
  | cons call calls ih =>
    obtain ⟨client₁, hcall, hconnected₁, hbytes₁, traces₁, htraces₁, hsublist₁⟩ :=
      relayCall_adds hsocket hconnected call (hcalls call (List.mem_cons_self ..))
    obtain ⟨client₂, hrun, hbytes₂, traces₂, htraces₂, hsublist₂⟩ :=
      ih client₁ hconnected₁ fun call hcall => hcalls call (List.mem_cons_of_mem _ hcall)
    refine ⟨client₂, ?_, ?_, traces₁ ++ traces₂, ?_, ?_⟩
    · rw [List.foldlM_cons, hcall]
      exact hrun
    · rw [hbytes₂, hbytes₁, List.flatMap_cons, List.append_assoc]
    · rw [htraces₂, htraces₁, List.append_assoc]
    · rw [List.flatMap_cons]
      exact hsublist₁.append hsublist₂

/-- A client without websocket, to which some text is sent. -/
def textMessage : RelayMessage := ⟨0, true, 0, relayClientMsgStandard, lit "abc\n", none⟩

/-- The client that has just connected. -/
def newRelayOut : RelayOut := ⟨true, [], [], [], 0⟩

/-- One byte is sent at once, nothing more at the first tick, and the rest at the second. -/
theorem sends_delivered_text :
    ∃ client', [.send textMessage, .timer, .send textMessage, .timer].foldlM
        (relayCall fun k => if k = 0 then .sent 1 else if k = 1 then .wouldBlock else .sent 4) newRelayOut =
          some client' ∧
      client'.bytes = newRelayOut.bytes ++
        [.send textMessage, .timer, .send textMessage, .timer].flatMap RelayCall.framed ∧
      ∃ traces, client'.traces = newRelayOut.traces ++ traces ∧
        traces.Sublist ([.send textMessage, .timer, .send textMessage, .timer].flatMap RelayCall.raws) :=
  sends_delivered _
    (fun k => by
      split
      · rintro ⟨⟩
      · split
        · rintro ⟨⟩
        · rintro ⟨⟩)
    newRelayOut rfl _
    (by
      have htext : RelayCall.Fits (.send textMessage) := ⟨by decide, by decide⟩
      rintro call (_ | ⟨_, _ | ⟨_, _ | ⟨_, _ | ⟨_, ⟨⟩⟩⟩⟩⟩)
      · exact htext
      · trivial
      · exact htext
      · trivial)

/-- A message of 2147483640 bytes, for a client with a websocket. -/
def bigMessage : RelayMessage := ⟨2, false, 0, relayClientMsgStandard, List.replicate 2147483640 0, none⟩

theorem bigMessage_framed : bigMessage.framed.length = 2147483650 := by
  have hdata : bigMessage.data.length = 2147483640 := List.length_replicate
  rw [RelayMessage.framed, if_pos (show bigMessage.websocket = 2 from rfl), relayWebsocketEncodeFrame, hdata,
    if_neg (by omega), if_neg (by omega), List.length_append, hdata]
  rfl

/-- The size of a frame that is not an `int` is negative, and the frame is not
added to the queue. -/
theorem sends_delivered_fails :
    (bigMessage.data ≠ [] ∧ bigMessage.data.length ≤ 2147483647) ∧
      ∃ client', [.send textMessage, .send bigMessage].foldlM (relayCall fun _ => .wouldBlock) newRelayOut =
          some client' ∧
        client'.bytes ≠ newRelayOut.bytes ++ [.send textMessage, .send bigMessage].flatMap RelayCall.framed := by
  have hdata : bigMessage.data.length = 2147483640 := List.length_replicate
  have hfirst : relayCall (fun _ => .wouldBlock) newRelayOut (.send textMessage) =
      some ⟨true, [⟨textMessage.data, textMessage.raws⟩], [], [], 1⟩ := by decide +kernel
  have hsecond : ∀ client : RelayOut, client.connected = true → client.outqueue ≠ [] →
      relayCall (fun _ => .wouldBlock) client (.send bigMessage) = some client := fun client hconnected hqueue => by
    rw [relayCall, relayClientSend, if_neg (not_not.mpr hconnected)]
    dsimp only
    rw [if_pos hqueue, bigMessage_framed, relayClientOutqueueAdd, if_pos (by decide)]
    exact rfl
  refine ⟨⟨fun hnil => ?_, by omega⟩, ⟨true, [⟨textMessage.data, textMessage.raws⟩], [], [], 1⟩, ?_, fun hbytes => ?_⟩
  · rw [hnil] at hdata
    cases hdata
  · rw [List.foldlM_cons, hfirst, Option.bind_eq_bind, Option.bind_some, List.foldlM_cons,
      hsecond _ rfl (List.cons_ne_nil _ _)]
    rfl
  · have hlength := congrArg List.length hbytes
    rw [List.length_append, List.flatMap_cons, List.flatMap_singleton, List.length_append] at hlength
    rw [show (RelayCall.send bigMessage).framed.length = 2147483650 from bigMessage_framed] at hlength
    have hsmall : RelayOut.bytes ⟨true, [⟨textMessage.data, textMessage.raws⟩], [], [], 1⟩ =
      textMessage.data := by decide
    rw [hsmall] at hlength
    have htext : textMessage.data.length = 4 := rfl
    omega

end Wirc
