import WhoreIrc.Proof.XferDccReports

/-!
# Every run of a transfer

What holds in all states of a transfer (`XferDcc.Inv`, `XferRun.inv`), and what
follows for the file, the ACKs, the bytes in flight and what both users are
told.
-/

namespace Wirc

open Framework

variable {file : List Byte} {gcryMdRead : List Byte → List Byte}

/-! ## The transfer -/

/-- What no step changes. -/
structure XferDcc.Fixed (o : XferOptions) (s : XferDcc) : Prop where
  senderSize : s.sender.size = o.size
  fastSend : s.sender.fastSend = o.fastSend
  blocksize : s.sender.blocksize ≤ o.blocksize
  receiverSize : s.receiver.size = o.size
  hashTarget : s.receiver.hashTarget = o.hashTarget
  hash : s.receiver.hashHandle.isSome = (o.hash && (o.startResume = 0 || o.resumeHash))
  hashed : ∀ hash, s.receiver.hashHandle = some hash → hash = s.receiver.file

/-- What the child that receives keeps of it. -/
structure XferRecv.Fixed (xfer xfer' : XferRecv) : Prop where
  size : xfer'.size = xfer.size
  hashTarget : xfer'.hashTarget = xfer.hashTarget
  hash : xfer'.hashHandle.isSome = xfer.hashHandle.isSome
  hashed : (∀ hash, xfer.hashHandle = some hash → hash = xfer.file) →
    ∀ hash, xfer'.hashHandle = some hash → hash = xfer'.file

theorem XferRecv.fixed_of_eq {xfer xfer' : XferRecv} (hsize : xfer'.size = xfer.size)
    (htarget : xfer'.hashTarget = xfer.hashTarget) (hhash : xfer'.hashHandle = xfer.hashHandle)
    (hfile : xfer'.file = xfer.file) : xfer.Fixed xfer' := by
  refine ⟨hsize, htarget, congrArg _ hhash, fun h => ?_⟩
  rw [hhash, hfile]
  exact h

theorem XferRecv.Moves.fixed {xfer xfer' : XferRecv} {data data' sent : List Byte}
    (h : xfer.Moves gcryMdRead data xfer' data' sent) : xfer.Fixed xfer' := by
  cases h with
  | fails _ => exact XferRecv.fixed_of_eq rfl rfl rfl rfl
  | connects h _ _ => exact XferRecv.fixed_of_eq h.size h.hashTarget h.hashHandle h.file
  | polls h _ _ => exact XferRecv.fixed_of_eq h.size h.hashTarget h.hashHandle h.file
  | waits h _ _ => exact XferRecv.fixed_of_eq h.size h.hashTarget h.hashHandle h.file
  | needsAck h _ _ _ _ => exact XferRecv.fixed_of_eq h.size h.hashTarget h.hashHandle h.file
  | needsNoAck h _ _ _ => exact XferRecv.fixed_of_eq h.size h.hashTarget h.hashHandle h.file
  | receives h _ _ _ => exact XferRecv.fixed_of_eq h.size h.hashTarget h.hashHandle h.file
  | @writes _ buffer totalWritten n h _ _ _ =>
    -- the bytes are written and hashed
    have hhash : xfer'.hashHandle = xfer.hashHandle.map fun hash => hash ++ (buffer.drop totalWritten).take n :=
      h.hashHandle
    have hfile : xfer'.file = xfer.file ++ (buffer.drop totalWritten).take n := h.file
    refine ⟨h.size, h.hashTarget, ?_, fun hsame hash hh => ?_⟩
    · rw [hhash, Option.isSome_map]
    · rw [hhash] at hh
      obtain ⟨old, hold, rfl⟩ := Option.map_eq_some_iff.mp hh
      rw [hfile, hsame old hold]
  | received h _ _ => exact XferRecv.fixed_of_eq h.size h.hashTarget h.hashHandle h.file
  | completes _ _ _ _ h _ => exact XferRecv.fixed_of_eq h.size h.hashTarget h.hashHandle h.file
  | sendsAck h _ _ _ _ => exact XferRecv.fixed_of_eq h.size h.hashTarget h.hashHandle h.file
  | acked h _ _ _ => exact XferRecv.fixed_of_eq h.size h.hashTarget h.hashHandle h.file
  | disablesAck h _ _ => exact XferRecv.fixed_of_eq h.size h.hashTarget h.hashHandle h.file
  | done _ _ => exact XferRecv.fixed_of_eq rfl rfl rfl rfl

theorem XferDcc.Moves.fixed {o : XferOptions} {s s' : XferDcc} (h : s.Moves file gcryMdRead s') (hs : s.Fixed o) :
    s'.Fixed o := by
  cases h with
  | sender _ h =>
    have hsame := h.same
    exact ⟨hsame.size.trans hs.senderSize, hsame.fastSend.trans hs.fastSend, hsame.blocksize.trans_le hs.blocksize,
      hs.receiverSize, hs.hashTarget, hs.hash, hs.hashed⟩
  | receiver _ h =>
    have hfixed := h.fixed
    exact ⟨hs.senderSize, hs.fastSend, hs.blocksize, hfixed.size.trans hs.receiverSize,
      hfixed.hashTarget.trans hs.hashTarget, hfixed.hash.trans hs.hash, hfixed.hashed hs.hashed⟩
  | reads hsender hreceiver =>
    obtain ⟨heq, -⟩ := hreceiver
    rw [heq]
    exact ⟨hsender.size.trans hs.senderSize, hsender.fastSend.trans hs.fastSend,
      hsender.blocksize.trans_le hs.blocksize, hs.receiverSize, hs.hashTarget, hs.hash, hs.hashed⟩

/-- What the user is told of the sender, in a state of the transfer. -/
structure XferDcc.SenderReported (s : XferDcc) : Prop where
  told : ∃ reports : List XferReport, s.sender.pipe = reports.flatMap XferReport.code ∧
    s.sender.Told (reports.foldl XferParent.read s.senderXfer)
  hookFd : s.senderXfer.hookFd = true → s.senderXfer.status ≠ .done

theorem XferSend.Told.killed {xfer : XferSend} {reports : List XferReport} {parent : XferParent} (pipe : List Byte)
    (ht : xfer.Told (reports.foldl XferParent.read parent)) :
    (XferSend.killed { xfer with pipe } parent).Told (reports.foldl XferParent.read parent) := by
  unfold XferSend.killed
  split
  · exact ⟨ht.sentOk, ht.running, ht.done⟩
  · exact ⟨ht.sentOk, fun hne => absurd rfl hne, ht.done⟩

theorem XferSend.killed_pipe (xfer : XferSend) (parent : XferParent) : (xfer.killed parent).pipe = xfer.pipe := by
  unfold XferSend.killed
  split <;> rfl

theorem XferSend.told_aborted {xfer : XferSend} (parent : XferParent) (reports : List XferReport)
    (hsentOk : xfer.sentOk ≠ 0 → xfer.size ≤ xfer.pos) :
    (xfer.killed (xferClose parent .aborted)).Told (reports.foldl XferParent.read (xferClose parent .aborted)) := by
  obtain ⟨hclosed, hdone⟩ := xferClose_aborted parent
  have hkilled : xfer.killed (xferClose parent .aborted) = { xfer with point := .returned } := by
    rw [XferSend.killed, if_neg (by rw [hclosed]; exact Bool.false_ne_true)]
  rw [hkilled, XferParent.read_closed hclosed]
  exact ⟨hsentOk, fun hne => absurd rfl hne, fun h => absurd h hdone⟩

theorem XferDcc.step_senderReported {s s' : XferDcc} {event : XferEvent} (h : s.step file gcryMdRead event = some s')
    (hs : s.SenderReported) : s'.SenderReported := by
  obtain ⟨reports, hpipe, ht⟩ := hs.told
  cases event with
  | sender event =>
    obtain ⟨sender, acks, sent, hstep, rfl⟩ := XferDcc.step_sender h
    obtain ⟨reports', hreports, ht'⟩ := XferSend.step_told hstep ht
    refine ⟨⟨reports ++ reports', ?_, ?_⟩, hs.hookFd⟩
    · rw [hreports, hpipe, List.flatMap_append]
    · rw [List.foldl_append]
      exact ht'
  | receiver event =>
    obtain ⟨receiver, data, sent, -, rfl⟩ := XferDcc.step_receiver h
    exact ⟨hs.told, hs.hookFd⟩
  | receiverReport =>
    obtain ⟨-, receiverXfer, -, rfl⟩ := XferDcc.step_receiverReport h
    exact ⟨hs.told, hs.hookFd⟩
  | receiverAbort =>
    obtain ⟨-, receiverXfer, -, rfl⟩ := XferDcc.step_receiverAbort h
    exact ⟨hs.told, hs.hookFd⟩
  | senderReport =>
    obtain ⟨hopen, senderXfer, rfl, rfl⟩ := XferDcc.step_senderReport h
    obtain ⟨reports', hpipe', heq⟩ := read_pipe hpipe hopen
    rw [← heq] at ht
    refine ⟨⟨reports', ?_, ht.killed _⟩, read_hookFd hpipe (hs.hookFd hopen)⟩
    rw [XferSend.killed_pipe]
    exact hpipe'
  | senderAbort =>
    obtain ⟨-, senderXfer, rfl, rfl⟩ := XferDcc.step_senderAbort h
    refine ⟨⟨reports, ?_, XferSend.told_aborted _ reports ht.sentOk⟩, fun _ => (xferClose_aborted _).2⟩
    rw [XferSend.killed_pipe]
    exact hpipe

/-! ## The start -/

theorem XferSend.start_fields (size pos ack : Nat) (fastSend : Bool) (blocksize speedLimit now : Nat) :
    (xferDccSendFileStart size pos ack fastSend blocksize speedLimit now).size = size ∧
      (xferDccSendFileStart size pos ack fastSend blocksize speedLimit now).pos = pos ∧
      (xferDccSendFileStart size pos ack fastSend blocksize speedLimit now).ack = ack ∧
      (xferDccSendFileStart size pos ack fastSend blocksize speedLimit now).fastSend = fastSend ∧
      (xferDccSendFileStart size pos ack fastSend blocksize speedLimit now).blocksize =
        xferSpeedBlocksize blocksize speedLimit := by
  unfold xferDccSendFileStart
  dsimp only
  split <;> exact ⟨rfl, rfl, rfl, rfl, rfl⟩

theorem xferSpeedBlocksize_le (blocksize speedLimit : Nat) : xferSpeedBlocksize blocksize speedLimit ≤ blocksize := by
  unfold xferSpeedBlocksize
  split
  next h => exact Nat.le_of_lt h.2
  next => exact Nat.le_refl _

theorem XferSend.start_told (o : XferOptions) : o.start.SenderReported := by
  refine ⟨?_, fun _ => nofun⟩
  have hstart : o.start.sender = xferDccSendFileStart o.size o.startResume o.startResume o.fastSend o.blocksize
    o.speedLimitSend o.now := rfl
  rw [hstart]
  unfold xferDccSendFileStart
  dsimp only
  split
  next hsize =>
    obtain ⟨reports, hreports, ht⟩ := XferSend.told_returns
      { size := o.size, pos := o.startResume, ack := o.startResume, fastSend := o.fastSend
        blocksize := xferSpeedBlocksize o.blocksize o.speedLimitSend, speedLimit := o.speedLimitSend
        lastSent := o.now, lastSecond := o.now, sentOk := 0, sentLastSecond := 0, point := .readAck, pipe := [] }
      (show o.start.senderXfer.hookFd = true from rfl) hsize (.inl hsize)
    exact ⟨reports, hreports, ht⟩
  next hsize => exact ⟨[], rfl, fun h => absurd rfl h, fun _ => ⟨rfl, nofun⟩, nofun⟩

/-- A child that resumes reports that it hashes, and hashes what it has of the file. -/
theorem xferDccResume_eq (xfer : XferRecv) (startResume : Nat) (resumeHash : Bool) :
    ∃ reports : List XferReport, (∀ report ∈ reports, report.status ≠ .done ∧ report.status ≠ .failed) ∧
      xferDccResume xfer startResume resumeHash =
        { xfer with
          hashHandle :=
            if startResume = 0 then xfer.hashHandle
            else if resumeHash then xfer.hashHandle.map fun hash => hash ++ xfer.file.take startResume
            else none
          pipe := xfer.pipe ++ reports.flatMap XferReport.code } := by
  cases hhash : xfer.hashHandle with
  | none =>
    refine ⟨[], fun _ h => absurd h List.not_mem_nil, ?_⟩
    rw [xferDccResume, hhash, if_neg (by simp), List.flatMap_nil, List.append_nil, Option.map_none, ite_self, ite_self,
      ← hhash]
  | some hash =>
    by_cases hstart : startResume = 0
    · refine ⟨[], fun _ h => absurd h List.not_mem_nil, ?_⟩
      rw [xferDccResume, hhash, if_neg (by omega), if_pos hstart, List.flatMap_nil, List.append_nil, ← hhash]
    · have hresume : 0 < startResume ∧ xfer.hashHandle.isSome = true := ⟨Nat.pos_of_ne_zero hstart, by rw [hhash]; rfl⟩
      rw [xferDccResume, if_pos hresume, if_neg hstart]
      cases resumeHash with
      | true =>
        refine ⟨[⟨xfer.pos, .hashing, .noError⟩, ⟨xfer.pos, .connecting, .noError⟩], by simp, ?_⟩
        simp [XferRecv.report, XferReport.code, hhash]
      | false =>
        refine ⟨[⟨xfer.pos, .hashing, .noError⟩, ⟨xfer.pos, .hashing, .hashResumeError⟩,
          ⟨xfer.pos, .connecting, .noError⟩], by simp, ?_⟩
        simp [XferRecv.report, XferReport.code]

/-- All that holds in every state of a transfer. -/
structure XferDcc.Inv (file : List Byte) (gcryMdRead : List Byte → List Byte) (o : XferOptions) (s : XferDcc) :
    Prop where
  fixed : s.Fixed o
  streams : s.Streams file o
  acks : s.Acks o
  senderReported : s.SenderReported
  reported : s.Reported gcryMdRead
  window : o.fastSend = false → s.sender.pos ≤ s.receiver.pos + o.blocksize
  small : o.fastSend = false → s.sender.pos ≤ max o.startResume 4294967295 + o.blocksize

theorem XferSend.mayFill_iff (xfer : XferSend) :
    xfer.mayFill = true ↔ xfer.pos < xfer.size ∧ (xfer.fastSend = true ∨ xfer.pos ≤ xfer.ack) := by
  simp [XferSend.mayFill]

/-- Without fast send, a block is sent only when all blocks before it are acknowledged. -/
theorem XferDcc.Moves.window {o : XferOptions} {s s' : XferDcc} (h : s.Moves file gcryMdRead s') (hs : s.Fixed o)
    (hacks : s.Acks o) (hfast : o.fastSend = false)
    (hw : s.sender.pos ≤ s.receiver.pos + o.blocksize ∧ s.sender.pos ≤ max o.startResume 4294967295 + o.blocksize) :
    s'.sender.pos ≤ s'.receiver.pos + o.blocksize ∧ s'.sender.pos ≤ max o.startResume 4294967295 + o.blocksize := by
  cases h with
  | sender _ h =>
    cases h with
    | waits h =>
      dsimp only
      rw [h.pos]
      exact hw
    | readsAck _ h =>
      dsimp only
      rw [h.pos]
      exact hw
    | sends hk hblock _ hfill h =>
      have hack : s.sender.pos ≤ s.sender.ack :=
        (s.sender.mayFill_iff.mp hfill).2.resolve_left (by rw [hs.fastSend, hfast]; exact Bool.false_ne_true)
      have hle := hacks.ack_le
      have hlt := hacks.ack_lt
      have hb := hs.blocksize
      dsimp only
      rw [h.pos]
      dsimp only
      omega
  | receiver _ h =>
    have hpos : s.receiver.pos ≤ _ := (h.acks (o := o) hacks.acking).pos_le
    exact ⟨Nat.le_trans hw.1 (Nat.add_le_add_right hpos _), hw.2⟩
  | reads hsender hreceiver =>
    dsimp only
    rw [hsender.pos, hreceiver.pos_eq]
    exact hw

/-- The child that receives, before it connects. -/
theorem XferOptions.start_receiver (o : XferOptions) :
    ∃ reports : List XferReport, (∀ report ∈ reports, report.status ≠ .done ∧ report.status ≠ .failed) ∧
      o.start.receiver.pipe = reports.flatMap XferReport.code ∧ o.start.receiver.size = o.size ∧
      o.start.receiver.pos = o.startResume ∧ o.start.receiver.posLastAck = 0 ∧ o.start.receiver.file = o.part ∧
      o.start.receiver.hashTarget = o.hashTarget ∧ o.start.receiver.point = .connect ∧
      o.start.receiver.hashHandle =
        if o.startResume = 0 then if o.hash then some [] else none
        else if o.resumeHash then (if o.hash then some [] else none).map fun hash => hash ++ o.part.take o.startResume
        else none := by
  obtain ⟨reports, hreports, heq⟩ := xferDccResume_eq
    { size := o.size, pos := o.startResume, sendAck := o.sendAck
      blocksize := xferSpeedBlocksize xferBlocksizeMax o.speedLimitRecv, speedLimit := o.speedLimitRecv
      lastSent := 0, lastSecond := 0, recvLastSecond := 0, posLastAck := 0
      file := if 0 < o.startResume then o.localFile else []
      hashHandle := if o.hash then some [] else none, hashTarget := o.hashTarget, point := .connect, pipe := [] }
    o.startResume o.resumeHash
  have hstart : o.start.receiver = _ := heq
  rw [hstart]
  exact ⟨reports, hreports, List.nil_append _, rfl, rfl, rfl, rfl, rfl, rfl, rfl⟩

theorem XferOptions.start_reported (o : XferOptions) : o.start.Reported gcryMdRead := by
  obtain ⟨reports, hreports, hpipe, -, -, -, -, -, hpoint, -⟩ := o.start_receiver
  have hstart : o.start.receiverXfer.hookFd = true := rfl
  obtain ⟨hopen, hdone⟩ := read_running hreports hstart nofun
  refine ⟨⟨reports, hpipe, fun _ => ⟨hopen, hdone⟩, fun totalSent h => ?_, fun h => absurd h hdone⟩, fun _ => nofun⟩
  rw [hpoint] at h
  cases h

theorem XferOptions.start_fixed {o : XferOptions} (ho : o.Agreed file) : o.start.Fixed o := by
  obtain ⟨hsize, -, -, hfast, hblock⟩ := XferSend.start_fields o.size o.startResume o.startResume o.fastSend
    o.blocksize o.speedLimitSend o.now
  obtain ⟨-, -, -, hsize', -, -, hfile, htarget, -, hhash⟩ := o.start_receiver
  refine ⟨hsize, hfast, hblock.trans_le (xferSpeedBlocksize_le _ _), hsize', htarget, ?_, fun hash h => ?_⟩
  · rw [hhash]
    cases o.hash <;> cases o.resumeHash <;> by_cases hstart : o.startResume = 0 <;> simp [hstart]
  · rw [hfile]
    have htake : o.part.take o.startResume = o.part := List.take_of_length_le (Nat.le_of_eq ho.part)
    rw [hhash, htake] at h
    have hpart : o.startResume = 0 → o.part = [] := fun hstart => by rw [XferOptions.part, hstart]; rfl
    cases hh : o.hash <;> cases hr : o.resumeHash <;> by_cases hstart : o.startResume = 0 <;>
      simp [hh, hr, hstart] at h
    · exact h ▸ (hpart hstart).symm
    · exact h ▸ (hpart hstart).symm
    · exact h.symm

theorem XferOptions.start_streams {o : XferOptions} (ho : o.Agreed file) : o.start.Streams file o := by
  obtain ⟨-, hpos, -, -, -⟩ := XferSend.start_fields o.size o.startResume o.startResume o.fastSend
    o.blocksize o.speedLimitSend o.now
  obtain ⟨-, -, -, -, hpos', -, hfile, -, hpoint, -⟩ := o.start_receiver
  have hsender : o.start.sender.pos = o.startResume := hpos
  have hstream : o.stream file o.startResume = o.part := by
    rw [XferOptions.stream, List.drop_of_length_le (List.length_take_le _ _), List.append_nil]
  obtain ⟨hunwritten, hwritten⟩ := o.start.receiver.unwritten_nil (by simp [hpoint])
  refine ⟨?_, ?_, ?_, fun _ => ?_, fun _ => ?_, ?_, ?_⟩
  · rw [hsender]
  · rw [hsender]
    exact ho.start_le
  · rw [hsender, hstream, hfile]
  · rw [hsender, hstream, hfile, hunwritten, List.append_nil]
    exact List.append_nil _
  · rw [hpos', hwritten, hfile]
    exact ho.part.symm
  · rw [hpos', hfile]
    exact Nat.le_of_eq ho.part.symm
  · rw [hpos', hsender]
    exact Nat.le_refl _

theorem XferOptions.start_acks (o : XferOptions) : o.start.Acks o := by
  obtain ⟨-, -, hack, -, -⟩ := XferSend.start_fields o.size o.startResume o.startResume o.fastSend
    o.blocksize o.speedLimitSend o.now
  obtain ⟨-, -, -, -, hpos, hlast, -, -, hpoint, -⟩ := o.start_receiver
  have hsender : o.start.sender.ack = o.startResume := hack
  have hsent : o.start.receiver.ackSent = 0 := XferRecv.ackSent_zero (by simp [hpoint])
  refine ⟨⟨?_, ?_, ?_, ?_, fun _ => .inl hlast, fun _ => hpos⟩,
    ⟨[], [], InStream.nil (by decide), ?_, fun _ => ⟨?_, ?_⟩⟩, ?_,
    .inl hsender⟩
  · rw [hpos]
  · rw [hlast]
    exact Nat.zero_le _
  · simp [hpoint]
  · simp [hpoint]
  · exact fun _ h => absurd h List.not_mem_nil
  · rw [XferRecv.ackRest_zero hsent]
  · rw [XferRecv.lastAck, hsent, hlast]
    exact hsender
  · rw [hsender, hpos]

theorem XferOptions.start_inv {o : XferOptions} (ho : o.Agreed file) : o.start.Inv file gcryMdRead o := by
  obtain ⟨-, hpos, -, -, -⟩ := XferSend.start_fields o.size o.startResume o.startResume o.fastSend
    o.blocksize o.speedLimitSend o.now
  obtain ⟨-, -, -, -, hpos', -, -, -, -, -⟩ := o.start_receiver
  have hsender : o.start.sender.pos = o.startResume := hpos
  refine ⟨XferOptions.start_fixed ho, XferOptions.start_streams ho, o.start_acks, XferSend.start_told o,
    o.start_reported,
    fun _ => ?_, fun _ => ?_⟩
  · rw [hsender, hpos']
    exact Nat.le_add_right _ _
  · rw [hsender]
    exact Nat.le_add_right_of_le (Nat.le_max_left _ _)

theorem XferRun.inv {o : XferOptions} {s : XferDcc} (h : XferRun file gcryMdRead o s) (ho : o.Agreed file) :
    s.Inv file gcryMdRead o := by
  obtain ⟨events, h⟩ := h
  refine foldlM_kept (I := XferDcc.Inv file gcryMdRead o) (fun s event s' hs hstep => ?_) (XferOptions.start_inv ho) h
  have hmoves := XferDcc.step_moves hstep
  exact ⟨hmoves.fixed hs.fixed, hmoves.streams ho hs.streams, hmoves.acks hs.acks,
    XferDcc.step_senderReported hstep hs.senderReported, XferDcc.step_reported hstep hs.reported,
    fun hfast => (hmoves.window hs.fixed hs.acks hfast ⟨hs.window hfast, hs.small hfast⟩).1,
    fun hfast => (hmoves.window hs.fixed hs.acks hfast ⟨hs.window hfast, hs.small hfast⟩).2⟩

/-! ## What the transfer does -/

/-- Nothing is left to read of the child that receives. -/
theorem XferDcc.Reported.done {s : XferDcc} (h : s.Reported gcryMdRead) (hdone : s.receiverXfer.status = .done) :
    s.receiver.size ≤ s.receiver.pos ∧ s.receiver.HashTold gcryMdRead s.receiverXfer := by
  obtain ⟨reports, -, ht⟩ := h.told
  have hclosed : s.receiverXfer.hookFd = false := Bool.eq_false_iff.mpr fun hopen => h.hookFd hopen hdone
  rw [XferParent.read_closed hclosed] at ht
  obtain ⟨-, hsize, hhash, -⟩ := ht.done hdone
  exact ⟨hsize, hhash⟩

theorem XferDcc.SenderReported.done {s : XferDcc} (h : s.SenderReported) (hdone : s.senderXfer.status = .done) :
    s.sender.size ≤ s.sender.pos ∧ (s.sender.size ≤ s.sender.ack ∨ s.sender.sentOk ≠ 0) := by
  obtain ⟨reports, -, ht⟩ := h.told
  have hclosed : s.senderXfer.hookFd = false := Bool.eq_false_iff.mpr fun hopen => h.hookFd hopen hdone
  rw [XferParent.read_closed hclosed] at ht
  obtain ⟨-, hsize, hok⟩ := ht.done hdone
  exact ⟨hsize, hok⟩

/-- What the receiver has is the start of the whole file. -/
theorem XferDcc.Streams.whole {o : XferOptions} {s : XferDcc} (hs : s.Streams file o) :
    s.receiver.file <+: o.part ++ file.drop o.startResume := by
  refine hs.disk.trans ?_
  rw [XferOptions.stream, List.prefix_append_right_inj]
  exact (List.take_prefix _ _).drop _

/-- When all bytes are counted, the receiver has the whole file. -/
theorem XferDcc.Streams.complete {o : XferOptions} {s : XferDcc} (ho : o.Agreed file) (hs : s.Streams file o)
    (hpos : file.length ≤ s.receiver.pos) : s.receiver.file = o.part ++ file.drop o.startResume := by
  refine hs.whole.eq_of_length_le ?_
  have hstart := ho.start_le
  rw [List.length_append, ho.part, List.length_drop]
  exact Nat.le_trans (by omega) (Nat.le_trans hpos hs.count_le)

/-- Two bytes, sent one by one. -/
def oneByOne : XferOptions :=
  { size := 2
    startResume := 0
    fastSend := false
    blocksize := 1
    speedLimitSend := 0
    sendAck := true
    speedLimitRecv := 0
    localFile := []
    hash := false
    hashTarget := []
    resumeHash := false
    now := 5 }

theorem oneByOne_agreed : oneByOne.Agreed [7, 8] := ⟨rfl, Nat.zero_le _⟩

/-- The first byte is sent, received and acknowledged. -/
def oneByOneFirst : List XferEvent :=
  [.sender (.sendBlock (.ok 1) (.ok 1) 5), .sender (.checkTime 5), .receiver (.connect true 5), .receiver (.poll (.ok 1)),
    .receiver (.recv (.ok 1) 5), .receiver (.write (.ok 1)), .receiver (.received 5 5), .receiver (.recv .again 5),
    .receiver (.sendAck (.ok 4)), .sender (.readAck (.ok 4))]

/-- Then the second one, and the reports are read. -/
def oneByOneLast : List XferEvent :=
  [.sender (.readAck .again), .sender (.sendBlock (.ok 1) (.ok 1) 5), .sender (.checkTime 5), .receiver (.poll (.ok 1)),
    .receiver (.recv (.ok 1) 5), .receiver (.write (.ok 1)), .receiver (.received 5 5), .receiver (.sendAck (.ok 4)),
    .sender (.readAck (.ok 4)), .receiverReport, .receiverReport, .senderReport, .senderReport]

/-- The state after some events, of which `f` is computed. -/
theorem XferRun.of_map {β : Type} (file : List Byte) (gcryMdRead : List Byte → List Byte) (o : XferOptions)
    (f : XferDcc → β) (b : β) (events : List XferEvent)
    (h : (events.foldlM (XferDcc.step file gcryMdRead) o.start).map f = some b) :
    ∃ s, XferRun file gcryMdRead o s ∧ f s = b := by
  obtain ⟨s, hs, hf⟩ := Option.map_eq_some_iff.mp h
  exact ⟨s, ⟨events, hs⟩, hf⟩

section

variable {o : XferOptions} {s : XferDcc}

/-- In every state the receiver has the start of the file, and a transfer that is shown
as done has all of it. -/
theorem xferDcc_received (ho : o.Agreed file) (hsize : o.size = file.length) (h : XferRun file gcryMdRead o s) :
    s.receiver.file <+: o.part ++ file.drop o.startResume ∧
      (s.receiverXfer.status = .done → s.receiver.file = o.part ++ file.drop o.startResume) := by
  have hinv := h.inv ho
  refine ⟨hinv.streams.whole, fun hdone => hinv.streams.complete ho ?_⟩
  rw [← hsize, ← hinv.fixed.receiverSize]
  exact (hinv.reported.done hdone).1

theorem xferDcc_received_pair :
    ∃ s, XferRun [7, 8] id oneByOne s ∧ s.receiverXfer.status = .done ∧ s.receiver.file = [7, 8] := by
  obtain ⟨s, hs, hdone⟩ := XferRun.of_map [7, 8] id oneByOne (fun s => s.receiverXfer.status) .done
    (oneByOneFirst ++ oneByOneLast) (by decide)
  exact ⟨s, hs, hdone, (xferDcc_received oneByOne_agreed rfl hs).2 hdone⟩

/-- The sender knows of no byte that is not on the disk of the receiver; if it is shown
as done, all is sent, and all is on that disk, or it has waited for the ACK. -/
theorem xferDcc_acked (ho : o.Agreed file) (hsize : o.size = file.length) (h : XferRun file gcryMdRead o s) :
    s.sender.ack ≤ s.receiver.pos ∧ s.receiver.pos ≤ s.receiver.file.length ∧ s.receiver.pos ≤ s.sender.pos ∧
      (s.senderXfer.status = .done →
        s.sender.pos = file.length ∧
          (s.receiver.file = o.part ++ file.drop o.startResume ∨ s.sender.sentOk ≠ 0)) := by
  have hinv := h.inv ho
  refine ⟨hinv.acks.ack_le, hinv.streams.count_le, Nat.le_trans (Nat.le_add_right _ _) hinv.streams.room,
    fun hdone => ?_⟩
  obtain ⟨hsent, hok⟩ := hinv.senderReported.done hdone
  rw [hinv.fixed.senderSize, hsize] at hsent hok
  refine ⟨Nat.le_antisymm hinv.streams.pos_le hsent, hok.imp_left fun hack => ?_⟩
  exact hinv.streams.complete ho (Nat.le_trans hack hinv.acks.ack_le)

theorem xferDcc_acked_pair : ∃ s, XferRun [7, 8] id oneByOne s ∧ s.senderXfer.status = .done ∧ s.sender.ack = 2 ∧
    s.sender.ack ≤ s.receiver.pos ∧ s.receiver.pos ≤ s.receiver.file.length ∧ s.sender.pos = 2 := by
  obtain ⟨s, hs, hf⟩ := XferRun.of_map [7, 8] id oneByOne (fun s => (s.senderXfer.status, s.sender.ack)) (.done, 2)
    (oneByOneFirst ++ oneByOneLast) (by decide)
  obtain ⟨hdone, hack⟩ := Prod.mk.inj hf
  obtain ⟨hle, hfile, -, hsent⟩ := xferDcc_acked oneByOne_agreed rfl hs
  exact ⟨s, hs, hdone, hack, hle, hfile, (hsent hdone).1⟩

/-- Without fast send, no more than a block is in flight. -/
theorem xferDcc_window (ho : o.Agreed file) (hfast : o.fastSend = false) (h : XferRun file gcryMdRead o s) :
    s.data.length ≤ o.blocksize := by
  have hinv := h.inv ho
  have hroom := hinv.streams.room
  have hwindow := hinv.window hfast
  omega

theorem xferDcc_window_pair : ∃ s, XferRun [7, 8] id oneByOne s ∧ s.sender.pos = 1 ∧ s.data.length ≤ 1 := by
  obtain ⟨s, hs, hpos⟩ := XferRun.of_map [7, 8] id oneByOne (fun s => s.sender.pos) 1
    [.sender (.sendBlock (.ok 1) (.ok 1) 5)] (by decide)
  exact ⟨s, hs, hpos, xferDcc_window oneByOne_agreed rfl hs⟩

/-- Without fast send, a file whose end is too far after the largest ACK never arrives. -/
theorem xferDcc_large (ho : o.Agreed file) (hfast : o.fastSend = false)
    (hlarge : max o.startResume 4294967295 + o.blocksize < o.size) (h : XferRun file gcryMdRead o s) :
    s.receiverXfer.status ≠ .done ∧ s.senderXfer.status ≠ .done := by
  have hinv := h.inv ho
  have hroom := hinv.streams.room
  have hsmall := hinv.small hfast
  refine ⟨fun hdone => ?_, fun hdone => ?_⟩
  · have hsize := (hinv.reported.done hdone).1
    rw [hinv.fixed.receiverSize] at hsize
    omega
  · have hsize := (hinv.senderReported.done hdone).1
    rw [hinv.fixed.senderSize] at hsize
    omega

theorem xferDcc_large_pair : ∃ s, XferRun [7, 8] id { oneByOne with size := 4294967297 } s ∧ s.receiver.pos = 1 ∧
    s.receiverXfer.status ≠ .done ∧ s.senderXfer.status ≠ .done := by
  obtain ⟨s, hs, hpos⟩ := XferRun.of_map [7, 8] id { oneByOne with size := 4294967297 } (fun s => s.receiver.pos) 1
    oneByOneFirst (by decide)
  exact ⟨s, hs, hpos, xferDcc_large ⟨rfl, Nat.zero_le _⟩ rfl (by decide) hs⟩

/-- When nothing is in flight and the receiver waits, the sender goes on if and only
if it needs no ACKs, or the receiver sends them and they can tell the position. -/
theorem xferDcc_quiet (ho : o.Agreed file) (h : XferRun file gcryMdRead o s) (hquiet : s.Quiet)
    (hstart : o.startResume < s.sender.pos) (hsize : s.sender.pos < o.size) :
    s.sender.mayFill = true ↔ o.fastSend = true ∨ (s.receiver.sendAck = true ∧ s.sender.pos < 4294967296) := by
  have hinv := h.inv ho
  have hrun : s.receiver.point ≠ .returned := by
    rw [hquiet.receiver]
    exact nofun
  obtain ⟨hunwritten, hwritten⟩ := s.receiver.unwritten_nil (by simp [hquiet.receiver])
  -- all that is sent is received
  have hpos : s.receiver.pos = s.sender.pos := by
    have hflow := congrArg List.length (hinv.streams.flow hrun)
    rw [XferOptions.stream_length ho hinv.streams.start_le hinv.streams.pos_le, hunwritten, hquiet.data,
      List.append_nil,
      List.append_nil, ← hinv.streams.count hrun, hwritten] at hflow
    exact hflow
  -- the last ACK is read
  obtain ⟨records, rest, hin, -, hlast⟩ := hinv.acks.stream
  have hsent : s.receiver.ackSent = 0 := XferRecv.ackSent_zero (by simp [hquiet.receiver])
  obtain ⟨hrest, hack⟩ := hlast hrun
  rw [XferRecv.ackRest_zero hsent] at hrest
  rw [hrest] at hin
  rw [hin.eq_nil length_htonl hquiet.acks] at hack
  have hack' : s.sender.ack = s.receiver.lastAck o := hack
  rw [XferRecv.lastAck, hsent, if_neg (by simp)] at hack'
  rw [s.sender.mayFill_iff, hinv.fixed.senderSize, hinv.fixed.fastSend]
  have hacking := hinv.acks.acking
  have hle := hacking.last_le
  cases hsend : s.receiver.sendAck with
  | false =>
    have hdisabled := hacking.disabled hsend
    have hmod := Nat.mod_le s.receiver.posLastAck 4294967296
    have hlt : ¬s.sender.pos ≤ s.sender.ack := by
      rw [hack']
      split <;> omega
    simp [hsize, hlt]
  | true =>
    have hpoll : s.receiver.posLastAck = s.receiver.pos := by
      rcases hacking.poll hquiet.receiver with hoff | hlast | hfirst
      · rw [hsend] at hoff
        cases hoff
      · exact hlast
      · omega
    rw [hpoll, if_neg (by omega), hpos] at hack'
    have hmod := Nat.mod_lt s.sender.pos (by decide : 0 < 4294967296)
    have hiff : s.sender.pos ≤ s.sender.ack ↔ s.sender.pos < 4294967296 := by
      rw [hack']
      refine ⟨fun hle => by omega, fun hlt => Nat.le_of_eq (Nat.mod_eq_of_lt hlt).symm⟩
    simp [hsize, hiff]

theorem xferDcc_quiet_pair : ∃ s, XferRun [7, 8] id oneByOne s ∧ s.receiver.sendAck = true ∧
    s.sender.mayFill = true := by
  obtain ⟨s, hs, hf⟩ := XferRun.of_map [7, 8] id oneByOne
    (fun s => (s.data, s.acks, s.receiver.point, s.sender.point, s.sender.pos, s.receiver.sendAck))
    ([], [], .poll, .readAck, 1, true) oneByOneFirst rfl
  simp only [Prod.mk.injEq] at hf
  obtain ⟨hdata, hacks, hpoll, hread, hpos, hsend⟩ := hf
  refine ⟨s, hs, hsend, ?_⟩
  refine (xferDcc_quiet oneByOne_agreed hs ⟨hdata, by simp [hacks], hpoll, by simp [hread]⟩ ?_ ?_).mpr (.inr ⟨hsend, ?_⟩)
  · rw [hpos]
    decide
  · rw [hpos]
    decide
  · rw [hpos]
    decide

/-- The hash that is shown for a transfer that is done is that of the whole file. -/
theorem xferDcc_hash (ho : o.Agreed file) (hsize : o.size = file.length) (h : XferRun file gcryMdRead o s)
    (hhash : o.hash = true) (hresume : o.startResume = 0 ∨ o.resumeHash = true)
    (hdone : s.receiverXfer.status = .done) :
    s.receiverXfer.hashStatus =
      if stringStrcasecmp (xferHash gcryMdRead (o.part ++ file.drop o.startResume)) o.hashTarget = 0 then .match'
      else .mismatch := by
  have hinv := h.inv ho
  obtain ⟨hpos, htold⟩ := hinv.reported.done hdone
  rw [hinv.fixed.receiverSize, hsize] at hpos
  have hfile := hinv.streams.complete ho hpos
  have hsome : s.receiver.hashHandle.isSome = true := by
    rw [hinv.fixed.hash, hhash]
    simpa using hresume
  obtain ⟨hash, hh⟩ := Option.isSome_iff_exists.mp hsome
  rw [htold hash hh, XferRecv.hashVerdict, hinv.fixed.hashed hash hh, hfile, hinv.fixed.hashTarget]

/-- An empty file, with a hash. -/
def nothingHashed : XferOptions :=
  { oneByOne with
    size := 0
    hash := true }

theorem nothing_checked {xfer : XferRecv} (h : xfer.hashHandle = some []) (ht : xfer.hashTarget = []) :
    xferDccCheckHash id xfer = xfer.report .hashed .noError := by
  rw [xferDccCheckHash, h]
  dsimp only
  rw [ht]
  exact if_pos (by rw [xferHash, stringStrcasecmp]; simp)

/-- The sender has ended, and the receiver finds that nothing is to receive. -/
def nothingReceived : XferDcc :=
  { nothingHashed.start with
    receiver :=
      { nothingHashed.start.receiver.report .active .noError with
        lastSent := 5
        lastSecond := 5
        point := .write [] 0 } }

def nothingChecked : XferDcc :=
  { nothingReceived with
    receiver :=
      { nothingReceived.receiver.report .hashed .noError with
        point := .sendAck 0 true } }

theorem nothingReceived_step :
    XferDcc.step [] id nothingReceived (.receiver (.received 5 5)) = some nothingChecked := by
  show some { nothingReceived with receiver := xferDccReceived id nothingReceived.receiver 0 5 5 } = _
  have hreceived : xferDccReceived id nothingReceived.receiver 0 5 5 = nothingChecked.receiver := by
    unfold xferDccReceived
    dsimp only
    rw [if_pos (by decide), nothing_checked rfl rfl]
    rfl
  rw [hreceived]
  rfl

def nothingFirst : List XferEvent :=
  [.receiver (.connect true 5), .receiver (.poll (.ok 1)), .receiver (.recv (.ok 0) 5)]

def nothingLast : List XferEvent := [.receiver (.sendAck (.ok 4)), .receiverReport, .receiverReport, .receiverReport]

theorem xferDcc_hash_nothing : ∃ s, XferRun [] id nothingHashed s ∧ s.receiverXfer.status = .done ∧
    s.receiverXfer.hashStatus = if stringStrcasecmp (xferHash id []) [] = 0 then .match' else .mismatch := by
  have hfirst : nothingFirst.foldlM (XferDcc.step [] id) nothingHashed.start = some nothingReceived := rfl
  obtain ⟨s, hlast, hdone⟩ : ∃ s, nothingLast.foldlM (XferDcc.step [] id) nothingChecked = some s ∧
      s.receiverXfer.status = .done := ⟨_, rfl, rfl⟩
  have hrun : XferRun [] id nothingHashed s := by
    refine ⟨nothingFirst ++ .receiver (.received 5 5) :: nothingLast, ?_⟩
    rw [List.foldlM_append, hfirst, Option.bind_eq_bind, Option.bind_some, List.foldlM_cons, nothingReceived_step]
    exact hlast
  exact ⟨s, hrun, hdone, xferDcc_hash ⟨rfl, Nat.zero_le _⟩ rfl hrun rfl (.inl rfl) hdone⟩

end

end Wirc
