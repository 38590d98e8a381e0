import WhoreIrc.Spec.XferDcc

/-!
# A file sent with DCC arrives

What one step of a child can do to the positions, the files and the bytes in
flight (`XferSend.step_cases`, `XferRecv.step_cases`), and what holds in every
state of a transfer, in any order of the steps of both children and with any
results of their system calls.
-/

namespace Wirc

open Framework

variable {file : List Byte} {gcryMdRead : List Byte → List Byte}

/-! ## Steps of the child that sends -/

/-- What no step of the child that sends changes. -/
structure XferSend.Same (xfer xfer' : XferSend) : Prop where
  size : xfer'.size = xfer.size
  fastSend : xfer'.fastSend = xfer.fastSend
  blocksize : xfer'.blocksize = xfer.blocksize

/-- The positions are kept too. -/
structure XferSend.Waits (xfer xfer' : XferSend) : Prop extends XferSend.Same xfer xfer' where
  pos : xfer'.pos = xfer.pos
  ack : xfer'.ack = xfer.ack

/-- A step of the child that sends: it waits, it reads an ACK, or it sends a block. -/
inductive XferSend.Moves (file : List Byte) (xfer : XferSend) (acks : List Byte) :
    XferSend → List Byte → List Byte → Prop
  | waits {xfer' : XferSend} (h : xfer.Waits xfer') : XferSend.Moves file xfer acks xfer' acks []
  | readsAck {xfer' : XferSend} (hlen : 4 ≤ acks.length)
      (h : ({ xfer with ack := ntohl (acks.take 4) } : XferSend).Waits xfer') :
      XferSend.Moves file xfer acks xfer' (acks.drop 4) []
  | sends {xfer' : XferSend} {k : Nat} (hk : 0 < k) (hblock : k ≤ xfer.blocksize) (hfile : xfer.pos + k ≤ file.length)
      (hfill : xfer.mayFill) (h : ({ xfer with pos := xfer.pos + k } : XferSend).Waits xfer') :
      XferSend.Moves file xfer acks xfer' acks ((file.drop xfer.pos).take k)

theorem XferSend.waits_return (xfer : XferSend) (status : XferStatus) (error : XferError) :
    xfer.Waits (xfer.return status error) := ⟨⟨rfl, rfl, rfl⟩, rfl, rfl⟩

theorem XferSend.waits_point (xfer : XferSend) (point : XferSendPoint) : xfer.Waits { xfer with point } :=
  ⟨⟨rfl, rfl, rfl⟩, rfl, rfl⟩

theorem XferSend.sent_waits (xfer : XferSend) (k newTime : Nat) :
    ({ xfer with pos := xfer.pos + k } : XferSend).Waits (({ xfer with point := .checkTime } : XferSend).sent k newTime) := by
  unfold XferSend.sent
  dsimp only
  split
  · split <;> exact ⟨⟨rfl, rfl, rfl⟩, rfl, rfl⟩
  · exact ⟨⟨rfl, rfl, rfl⟩, rfl, rfl⟩

theorem xferDccSendTime_waits (xfer : XferSend) (newTime : Nat) : xfer.Waits (xferDccSendTime xfer newTime) := by
  unfold xferDccSendTime
  dsimp only
  split <;> split <;> exact ⟨⟨rfl, rfl, rfl⟩, rfl, rfl⟩

theorem xferDccReadAck_moves {xfer : XferSend} {acks : List Byte} {numRead : Sys} {closed : Bool}
    (h : numRead.Gives fun n => n ≤ 4 ∧ n ≤ acks.length ∧ (n = 0 → closed)) :
    xfer.Moves file acks (xferDccReadAck xfer acks numRead).1 (xferDccReadAck xfer acks numRead).2 [] := by
  cases numRead with
  | again => exact .waits (xfer.waits_point _)
  | intr => exact .waits (xfer.waits_return _ _)
  | error => exact .waits (xfer.waits_return _ _)
  | ok n =>
    cases n with
    | zero => exact .waits (xfer.waits_return _ _)
    | succ n =>
      unfold xferDccReadAck
      dsimp only
      by_cases hn : n + 1 = 4
      · rw [if_pos hn]
        have hlen : 4 ≤ acks.length := by
          rw [← hn]
          exact h.2.1
        refine .readsAck hlen ?_
        split
        · exact XferSend.waits_return _ _ _
        · exact ⟨⟨rfl, rfl, rfl⟩, rfl, rfl⟩
      · rw [if_neg hn]
        exact .waits (xfer.waits_point _)

theorem xferDccSendBlock_moves {xfer : XferSend} {acks : List Byte} {numRead numSent : Sys} {newTime : Nat}
    (hread : numRead.Gives fun n => n ≤ xfer.blocksize ∧ xfer.pos + n ≤ file.length ∧ (n = 0 → file.length ≤ xfer.pos))
    (hsent : numSent.Gives fun k => numRead.Gives fun n => k ≤ n) :
    xfer.Moves file acks (xferDccSendBlock file xfer numRead numSent newTime).1 acks
      (xferDccSendBlock file xfer numRead numSent newTime).2 := by
  unfold xferDccSendBlock
  dsimp only
  split
  next hfill =>
    cases numRead with
    | again => exact .waits (xfer.waits_return _ _)
    | intr => exact .waits (xfer.waits_return _ _)
    | error => exact .waits (xfer.waits_return _ _)
    | ok n =>
      cases n with
      | zero => exact .waits (xfer.waits_return _ _)
      | succ n =>
        cases numSent with
        | again => exact .waits (xfer.waits_point _)
        | intr => exact .waits (xfer.waits_return _ _)
        | error => exact .waits (xfer.waits_return _ _)
        | ok k =>
          dsimp only
          split
          next hk =>
            have hkn : k ≤ n + 1 := hsent
            rw [List.take_take, Nat.min_eq_left hkn]
            refine .sends hk (Nat.le_trans hkn hread.1) ?_ hfill.1 (xfer.sent_waits k newTime)
            exact Nat.le_trans (Nat.add_le_add_left hkn _) hread.2.1
          next => exact .waits (xfer.waits_point _)
  next => exact .waits (xfer.waits_point _)

theorem XferSend.step_moves {xfer xfer' : XferSend} {closed : Bool} {acks acks' sent : List Byte}
    {event : XferSendEvent}
    (h : xfer.step file closed acks event = some (xfer', acks', sent)) : xfer.Moves file acks xfer' acks' sent := by
  cases event with
  | readAck numRead =>
    rw [XferSend.step] at h
    split at h
    next hg =>
      cases h
      exact xferDccReadAck_moves hg.2
    next => cases h
  | sendBlock numRead numSent newTime =>
    rw [XferSend.step] at h
    split at h
    next hg =>
      cases h
      exact xferDccSendBlock_moves hg.2.1 hg.2.2
    next => cases h
  | checkTime newTime =>
    rw [XferSend.step] at h
    split at h
    next =>
      cases h
      exact .waits (xferDccSendTime_waits xfer newTime)
    next => cases h

theorem XferSend.Moves.same {xfer xfer' : XferSend} {acks acks' sent : List Byte}
    (h : xfer.Moves file acks xfer' acks' sent) : xfer.Same xfer' := by
  cases h with
  | waits h => exact h.toSame
  | readsAck _ h => exact ⟨h.size, h.fastSend, h.blocksize⟩
  | sends _ _ _ _ h => exact ⟨h.size, h.fastSend, h.blocksize⟩

/-! ## Steps of the child that receives -/

/-- The reports added to the pipe. -/
def XferRecv.Reports (xfer xfer' : XferRecv) (reports : List XferReport) : Prop :=
  xfer'.pipe = xfer.pipe ++ reports.flatMap XferReport.code

/-- A step that changes where the child waits, and may report that it is active. -/
structure XferRecv.Keeps (xfer xfer' : XferRecv) : Prop where
  size : xfer'.size = xfer.size
  pos : xfer'.pos = xfer.pos
  file : xfer'.file = xfer.file
  sendAck : xfer'.sendAck = xfer.sendAck
  posLastAck : xfer'.posLastAck = xfer.posLastAck
  hashHandle : xfer'.hashHandle = xfer.hashHandle
  hashTarget : xfer'.hashTarget = xfer.hashTarget
  pipe : ∃ reports, xfer.Reports xfer' reports ∧ ∀ report ∈ reports, report.status = .active ∧ report.error = .noError

/-- The reports of the hash. -/
def XferRecv.hashReports (gcryMdRead : List Byte → List Byte) (xfer : XferRecv) : List XferReport :=
  match xfer.hashHandle with
  | none => []
  | some hash =>
    [⟨xfer.pos, .hashed,
      if stringStrcasecmp (xferHash gcryMdRead hash) xfer.hashTarget = 0 then .noError else .hashMismatch⟩]

/-- A step of the child that receives. -/
inductive XferRecv.Moves (gcryMdRead : List Byte → List Byte) (xfer : XferRecv) (data : List Byte) :
    XferRecv → List Byte → List Byte → Prop
  | fails {error : XferError} (herror : error ≠ .hashMismatch ∧ error ≠ .hashResumeError) :
      XferRecv.Moves gcryMdRead xfer data (xfer.return .failed error) data []
  | connects {xfer' : XferRecv} (h : xfer.Keeps xfer') (hpoint : xfer.point = .connect) (hpoint' : xfer'.point = .poll) :
      XferRecv.Moves gcryMdRead xfer data xfer' data []
  | polls {xfer' : XferRecv} (h : xfer.Keeps xfer') (hpoint : xfer.point = .poll)
      (hpoint' : xfer'.point = .poll ∨ xfer'.point = .recv) : XferRecv.Moves gcryMdRead xfer data xfer' data []
  | waits {xfer' : XferRecv} (h : xfer.Keeps xfer') (hpoint : xfer.point = .recv) (hpoint' : xfer'.point = .recv) :
      XferRecv.Moves gcryMdRead xfer data xfer' data []
  | needsAck {xfer' : XferRecv} (h : xfer.Keeps xfer') (hpoint : xfer.point = .recv)
      (hpoint' : xfer'.point = .sendAck 0 false) (hack : xfer.sendAck = true) (hpos : xfer.posLastAck < xfer.pos) :
      XferRecv.Moves gcryMdRead xfer data xfer' data []
  | needsNoAck {xfer' : XferRecv} (h : xfer.Keeps xfer') (hpoint : xfer.point = .recv) (hpoint' : xfer'.point = .poll)
      (hack : ¬(xfer.sendAck = true ∧ xfer.posLastAck < xfer.pos)) : XferRecv.Moves gcryMdRead xfer data xfer' data []
  | receives {xfer' : XferRecv} {n : Nat} (h : xfer.Keeps xfer') (hpoint : xfer.point = .recv)
      (hpoint' : xfer'.point = .write (data.take n) 0) (hn : n ≤ data.length) :
      XferRecv.Moves gcryMdRead xfer data xfer' (data.drop n) []
  | writes {xfer' : XferRecv} {buffer : List Byte} {totalWritten n : Nat}
      (h : ({ xfer with
              file := xfer.file ++ (buffer.drop totalWritten).take n
              hashHandle := xfer.hashHandle.map fun hash => hash ++ (buffer.drop totalWritten).take n } :
            XferRecv).Keeps xfer')
      (hpoint : xfer.point = .write buffer totalWritten) (hpoint' : xfer'.point = .write buffer (totalWritten + n))
      (hn : totalWritten + n ≤ buffer.length) : XferRecv.Moves gcryMdRead xfer data xfer' data []
  | received {xfer' : XferRecv} {buffer : List Byte}
      (h : ({ xfer with pos := xfer.pos + buffer.length } : XferRecv).Keeps xfer')
      (hpoint : xfer.point = .write buffer buffer.length) (hpoint' : xfer'.point = .recv) :
      XferRecv.Moves gcryMdRead xfer data xfer' data []
  | completes {xfer' : XferRecv} {buffer : List Byte} (hpoint : xfer.point = .write buffer buffer.length)
      (hpoint' : xfer'.point = .sendAck 0 true) (hsize : xfer.size ≤ xfer.pos + buffer.length)
      (hpos : xfer'.pos = xfer.pos + buffer.length)
      (h : ({ xfer with
              pos := xfer.pos + buffer.length
              pipe := xfer'.pipe } : XferRecv).Keeps xfer')
      (hreports : xfer.Reports xfer' (({ xfer with pos := xfer.pos + buffer.length } : XferRecv).hashReports gcryMdRead)) :
      XferRecv.Moves gcryMdRead xfer data xfer' data []
  | sendsAck {xfer' : XferRecv} {totalSent k : Nat} {fileOk : Bool} (h : xfer.Keeps xfer')
      (hpoint : xfer.point = .sendAck totalSent fileOk) (hpoint' : xfer'.point = .sendAck (totalSent + k) fileOk)
      (hpos : 0 < totalSent + k) (hlt : totalSent + k < 4) :
      XferRecv.Moves gcryMdRead xfer data xfer' data ((xferAckRest xfer.pos totalSent).take k)
  | acked {xfer' : XferRecv} {totalSent k : Nat} (h : ({ xfer with posLastAck := xfer.pos } : XferRecv).Keeps xfer')
      (hpoint : xfer.point = .sendAck totalSent false) (hpoint' : xfer'.point = .poll) (hk : totalSent + k = 4) :
      XferRecv.Moves gcryMdRead xfer data xfer' data ((xferAckRest xfer.pos totalSent).take k)
  | disablesAck {xfer' : XferRecv} (h : ({ xfer with sendAck := false } : XferRecv).Keeps xfer')
      (hpoint : xfer.point = .sendAck 0 false) (hpoint' : xfer'.point = .poll) :
      XferRecv.Moves gcryMdRead xfer data xfer' data []
  | done {totalSent k : Nat} (hpoint : xfer.point = .sendAck totalSent true) (hk : totalSent + k ≤ 4) :
      XferRecv.Moves gcryMdRead xfer data (xfer.return .done .noError) data ((xferAckRest xfer.pos totalSent).take k)

theorem XferRecv.keeps_point (xfer : XferRecv) (point : XferRecvPoint) : xfer.Keeps { xfer with point } :=
  ⟨rfl, rfl, rfl, rfl, rfl, rfl, rfl, [], (List.append_nil _).symm, fun _ h => absurd h List.not_mem_nil⟩

theorem XferRecv.report_pipe (xfer : XferRecv) (status : XferStatus) (error : XferError) :
    xfer.Reports (xfer.report status error) [⟨xfer.pos, status, error⟩] := by
  rw [XferRecv.Reports, List.flatMap_cons, List.flatMap_nil, List.append_nil]
  rfl

theorem XferRecv.keeps_active (xfer : XferRecv) : xfer.Keeps (xfer.report .active .noError) := by
  refine ⟨rfl, rfl, rfl, rfl, rfl, rfl, rfl, _, xfer.report_pipe .active .noError, fun report hreport => ?_⟩
  rw [List.mem_singleton.mp hreport]
  exact ⟨rfl, rfl⟩

theorem XferRecv.Keeps.point {xfer xfer' : XferRecv} (h : xfer.Keeps xfer') (point : XferRecvPoint) :
    xfer.Keeps { xfer' with point } :=
  ⟨h.size, h.pos, h.file, h.sendAck, h.posLastAck, h.hashHandle, h.hashTarget, h.pipe⟩

theorem XferRecv.keeps_checkTime {xfer xfer' : XferRecv} (h : xfer.Keeps xfer') (newTime : Nat) :
    xfer.Keeps (xfer'.checkTime newTime) := by
  unfold XferRecv.checkTime
  split
  · exact ⟨h.size, h.pos, h.file, h.sendAck, h.posLastAck, h.hashHandle, h.hashTarget, h.pipe⟩
  · exact h

theorem xferDccConnect_moves {xfer : XferRecv} {data : List Byte} (ok : Bool) (now : Nat)
    (hpoint : xfer.point = .connect) :
    xfer.Moves gcryMdRead data (xferDccConnect xfer ok now) data [] := by
  cases ok with
  | false => exact .fails (by decide)
  | true =>
    have h := xfer.keeps_active
    refine .connects ?_ hpoint rfl
    exact ⟨h.size, h.pos, h.file, h.sendAck, h.posLastAck, h.hashHandle, h.hashTarget, h.pipe⟩

theorem xferDccPoll_moves {xfer : XferRecv} {data : List Byte} (ready : Sys) (hpoint : xfer.point = .poll) :
    xfer.Moves gcryMdRead data (xferDccPoll xfer ready) data [] := by
  cases ready with
  | ok n => exact .polls (xfer.keeps_point .recv) hpoint (.inr rfl)
  | again => exact .polls (xfer.keeps_point xfer.point) hpoint (.inl hpoint)
  | intr => exact .polls (xfer.keeps_point xfer.point) hpoint (.inl hpoint)
  | error => exact .fails (by decide)

/-- No more data: an ACK is sent if it is needed. -/
theorem xferDccRecvBlock_none {xfer : XferRecv} {data : List Byte} (hpoint : xfer.point = .recv) :
    xfer.Moves gcryMdRead data
      { xfer with point := if xfer.sendAck ∧ xfer.posLastAck < xfer.pos then .sendAck 0 false else .poll } data [] := by
  split
  next h => exact .needsAck (xfer.keeps_point _) hpoint rfl h.1 h.2
  next h => exact .needsNoAck (xfer.keeps_point _) hpoint rfl h

theorem xferDccRecvBlock_moves {xfer : XferRecv} {data : List Byte} {numRead : Sys} {closed : Bool} (newTime : Nat)
    (hpoint : xfer.point = .recv)
    (h : numRead.Gives fun n => n ≤ xfer.blocksize ∧ n ≤ data.length ∧ (n = 0 → data = [] ∧ closed)) :
    xfer.Moves gcryMdRead data (xferDccRecvBlock xfer data numRead newTime).1
      (xferDccRecvBlock xfer data numRead newTime).2 [] := by
  unfold xferDccRecvBlock
  split
  · refine .waits (XferRecv.keeps_checkTime (xfer.keeps_point xfer.point) newTime) hpoint ?_
    unfold XferRecv.checkTime
    split <;> exact hpoint
  · cases numRead with
    | error => exact .fails (by decide)
    | again => exact xferDccRecvBlock_none hpoint
    | intr => exact xferDccRecvBlock_none hpoint
    | ok n =>
      dsimp only
      split
      · exact .fails (by decide)
      · exact .receives (xfer.keeps_point _) hpoint rfl h.2.1

theorem xferDccWrite_moves {xfer : XferRecv} {data buffer : List Byte} {totalWritten : Nat} {written : Sys}
    (hpoint : xfer.point = .write buffer totalWritten)
    (hlt : totalWritten < buffer.length) (h : written.Gives fun n => totalWritten + n ≤ buffer.length) :
    xfer.Moves gcryMdRead data (xferDccWrite xfer buffer totalWritten written) data [] := by
  cases written with
  | ok n => exact .writes (XferRecv.keeps_point _ _) hpoint rfl h
  | again => exact .fails (by decide)
  | error => exact .fails (by decide)
  | intr =>
    -- nothing is written
    have hkeeps := xfer.keeps_point xfer.point
    refine .writes (n := 0) ⟨rfl, rfl, ?_, rfl, rfl, ?_, rfl, hkeeps.pipe⟩ hpoint hpoint (Nat.le_of_lt hlt)
    · exact (List.append_nil _).symm
    · simp [xferDccWrite]

theorem XferRecv.hashReports_none {xfer : XferRecv} (h : xfer.hashHandle = none) :
    xfer.hashReports gcryMdRead = [] := by
  rw [XferRecv.hashReports, h]

theorem XferRecv.hashReports_some {xfer : XferRecv} {hash : List Byte} (h : xfer.hashHandle = some hash) :
    xfer.hashReports gcryMdRead =
      [⟨xfer.pos, .hashed,
        if stringStrcasecmp (xferHash gcryMdRead hash) xfer.hashTarget = 0 then .noError else .hashMismatch⟩] := by
  rw [XferRecv.hashReports, h]

theorem xferDccCheckHash_eq (xfer : XferRecv) :
    xferDccCheckHash gcryMdRead xfer =
      { xfer with pipe := xfer.pipe ++ (xfer.hashReports gcryMdRead).flatMap XferReport.code } := by
  unfold xferDccCheckHash
  split
  next h => rw [XferRecv.hashReports_none h, List.flatMap_nil, List.append_nil]
  next hash h =>
    rw [XferRecv.hashReports_some h, List.flatMap_cons, List.flatMap_nil, List.append_nil]
    split <;> rfl

theorem xferDccReceived_moves {xfer : XferRecv} {data buffer : List Byte} (newTime newTime' : Nat)
    (hpoint : xfer.point = .write buffer buffer.length) :
    xfer.Moves gcryMdRead data (xferDccReceived gcryMdRead xfer buffer.length newTime newTime') data [] := by
  unfold xferDccReceived
  dsimp only
  split
  next hsize =>
    rw [xferDccCheckHash_eq]
    refine .completes hpoint rfl hsize rfl ?_ rfl
    exact ⟨rfl, rfl, rfl, rfl, rfl, rfl, rfl, [], (List.append_nil _).symm, fun _ h => absurd h List.not_mem_nil⟩
  next =>
    refine .received ?_ hpoint rfl
    refine (XferRecv.keeps_checkTime ?_ newTime').point .recv
    split
    · have h := ({ xfer with pos := xfer.pos + buffer.length } : XferRecv).keeps_active
      exact ⟨h.size, h.pos, h.file, h.sendAck, h.posLastAck, h.hashHandle, h.hashTarget, h.pipe⟩
    · exact ⟨rfl, rfl, rfl, rfl, rfl, rfl, rfl, [], (List.append_nil _).symm, fun _ h => absurd h List.not_mem_nil⟩

/-- What a `send` of an ACK gives when it does not send the last byte. -/
theorem xferDccSendAck_next {xfer : XferRecv} {data : List Byte} {totalSent k : Nat} {fileOk : Bool}
    (hpoint : xfer.point = .sendAck totalSent fileOk) (hpos : 0 < totalSent + k) (hlt : totalSent + k < 4) :
    xfer.Moves gcryMdRead data { xfer with point := .sendAck (totalSent + k) fileOk } data
      ((xferAckRest xfer.pos totalSent).take k) :=
  .sendsAck (xfer.keeps_point _) hpoint rfl hpos hlt

/-- The function that sends an ACK returns. -/
theorem xferDccSendAck_done {xfer : XferRecv} {data : List Byte} {totalSent k rc : Nat} {fileOk : Bool}
    (hpoint : xfer.point = .sendAck totalSent fileOk) (hk : totalSent + k ≤ 4)
    (hrc : (rc = 0 ∧ k = 0) ∨ (rc = 1 ∧ totalSent = 0 ∧ k = 0) ∨ (rc = 2 ∧ totalSent + k = 4)) :
    xfer.Moves gcryMdRead data
      (if fileOk then xfer.return .done .noError
        else if rc = 0 then xfer.return .failed .sendAck
        else if rc = 1 then { xfer with sendAck := false, point := .poll }
        else { xfer with posLastAck := xfer.pos, point := .poll })
      data ((xferAckRest xfer.pos totalSent).take k) := by
  cases fileOk with
  | true => exact .done hpoint hk
  | false =>
    rw [if_neg Bool.false_ne_true]
    rcases hrc with ⟨rfl, rfl⟩ | ⟨rfl, rfl, rfl⟩ | ⟨rfl, hk⟩
    · rw [if_pos rfl, List.take_zero]
      exact .fails (by decide)
    · rw [if_neg (by decide), if_pos rfl, List.take_zero]
      exact .disablesAck (XferRecv.keeps_point _ _) hpoint rfl
    · rw [if_neg (by decide), if_neg (by decide)]
      exact .acked (XferRecv.keeps_point _ _) hpoint rfl hk

theorem xferDccSendAck_moves {xfer : XferRecv} {data : List Byte} {totalSent : Nat} {fileOk : Bool} {numSent : Sys}
    (hpoint : xfer.point = .sendAck totalSent fileOk) (hlt : totalSent < 4)
    (h : numSent.Gives fun n => totalSent + n ≤ 4) :
    xfer.Moves gcryMdRead data (xferDccSendAck xfer totalSent fileOk numSent) data
      (xferAckSent xfer.pos totalSent numSent) := by
  unfold xferDccSendAck xferDccRecvFileSendAck xferAckSent
  have hnone : ([] : List Byte) = (xferAckRest xfer.pos totalSent).take 0 := rfl
  cases numSent with
  | ok n =>
    have hn : totalSent + n ≤ 4 := h
    dsimp only
    by_cases hfour : totalSent + n < 4
    · rw [if_pos hfour, if_neg (by simp)]
      by_cases hzero : totalSent + n = 0
      · rw [if_pos hzero]
        exact xferDccSendAck_done hpoint hn (.inr (.inl ⟨rfl, by omega, by omega⟩))
      · rw [if_neg hzero]
        exact xferDccSendAck_next hpoint (Nat.pos_of_ne_zero hzero) hfour
    · rw [if_neg hfour]
      exact xferDccSendAck_done hpoint hn (.inr (.inr ⟨rfl, by omega⟩))
  | again =>
    dsimp only
    rw [if_pos hlt, if_neg (by simp), hnone]
    by_cases hzero : totalSent = 0
    · rw [if_pos hzero]
      exact xferDccSendAck_done hpoint (Nat.le_of_lt hlt) (.inr (.inl ⟨rfl, hzero, rfl⟩))
    · rw [if_neg hzero]
      exact xferDccSendAck_next (k := 0) hpoint (Nat.pos_of_ne_zero hzero) hlt
  | intr =>
    dsimp only
    rw [if_pos hlt, if_pos (.inl rfl), hnone]
    exact xferDccSendAck_done hpoint (Nat.le_of_lt hlt) (.inl ⟨rfl, rfl⟩)
  | error =>
    dsimp only
    rw [if_pos hlt, if_pos (.inr rfl), hnone]
    exact xferDccSendAck_done hpoint (Nat.le_of_lt hlt) (.inl ⟨rfl, rfl⟩)

theorem XferRecv.step_moves {xfer xfer' : XferRecv} {closed : Bool} {data data' sent : List Byte}
    {event : XferRecvEvent}
    (h : xfer.step gcryMdRead closed data event = some (xfer', data', sent)) :
    xfer.Moves gcryMdRead data xfer' data' sent := by
  unfold XferRecv.step at h
  split at h
  next hpoint =>
    cases h
    exact xferDccConnect_moves _ _ hpoint
  next hpoint =>
    split at h
    next =>
      cases h
      exact xferDccPoll_moves _ hpoint
    next => cases h
  next hpoint =>
    split at h
    next hg =>
      cases h
      exact xferDccRecvBlock_moves _ hpoint hg
    next => cases h
  next hpoint =>
    split at h
    next hg =>
      cases h
      exact xferDccWrite_moves hpoint hg.1 hg.2
    next => cases h
  next buffer totalWritten newTime newTime' hpoint =>
    split at h
    next hg =>
      cases h
      subst hg
      exact xferDccReceived_moves _ _ hpoint
    next => cases h
  next hpoint =>
    split at h
    next hg =>
      cases h
      exact xferDccSendAck_moves hpoint hg.1 hg.2
    next => cases h
  next => cases h

theorem XferSend.step_running {xfer xfer' : XferSend} {closed : Bool} {acks acks' sent : List Byte}
    {event : XferSendEvent} (h : xfer.step file closed acks event = some (xfer', acks', sent)) :
    xfer.point ≠ .returned := by
  intro hpoint
  cases event <;> simp [XferSend.step, hpoint] at h

theorem XferRecv.step_running {xfer xfer' : XferRecv} {closed : Bool} {data data' sent : List Byte}
    {event : XferRecvEvent} (h : xfer.step gcryMdRead closed data event = some (xfer', data', sent)) :
    xfer.point ≠ .returned := by
  intro hpoint
  unfold XferRecv.step at h
  rw [hpoint] at h
  cases event <;> cases h

/-! ## Steps of the transfer -/

/-- The child is as it was, or killed; its pipe may have been read. -/
structure XferRecv.Rests (xfer xfer' : XferRecv) : Prop where
  eq : xfer' = { xfer with point := xfer'.point, pipe := xfer'.pipe }
  point : xfer'.point = xfer.point ∨ xfer'.point = .returned

theorem XferRecv.Rests.file_eq {xfer xfer' : XferRecv} (h : xfer.Rests xfer') : xfer'.file = xfer.file := by rw [h.eq]

theorem XferRecv.Rests.pos_eq {xfer xfer' : XferRecv} (h : xfer.Rests xfer') : xfer'.pos = xfer.pos := by rw [h.eq]

theorem XferRecv.Rests.running {xfer xfer' : XferRecv} (h : xfer.Rests xfer') (hne : xfer'.point ≠ .returned) :
    xfer.point ≠ .returned ∧ xfer'.unwritten = xfer.unwritten ∧ xfer'.written = xfer.written := by
  rcases h.point with hpoint | hpoint
  · refine ⟨hpoint ▸ hne, ?_, ?_⟩
    · rw [XferRecv.unwritten, XferRecv.unwritten, hpoint]
    · rw [XferRecv.written, XferRecv.written, hpoint]
  · exact absurd hpoint hne

/-- A step of one of the children, or of the processes that launched them. -/
inductive XferDcc.Moves (file : List Byte) (gcryMdRead : List Byte → List Byte) (s : XferDcc) : XferDcc → Prop
  | sender {sender : XferSend} {acks sent : List Byte} (hrun : s.sender.point ≠ .returned)
      (h : s.sender.Moves file s.acks sender acks sent) :
      XferDcc.Moves file gcryMdRead s { s with sender, acks, data := s.data ++ sent }
  | receiver {receiver : XferRecv} {data sent : List Byte} (hrun : s.receiver.point ≠ .returned)
      (h : s.receiver.Moves gcryMdRead s.data receiver data sent) :
      XferDcc.Moves file gcryMdRead s { s with receiver, data, acks := s.acks ++ sent }
  | reads {sender : XferSend} {receiver : XferRecv} {senderXfer receiverXfer : XferParent}
      (hsender : s.sender.Waits sender) (hreceiver : s.receiver.Rests receiver) :
      XferDcc.Moves file gcryMdRead s { s with sender, receiver, senderXfer, receiverXfer }

theorem XferSend.killed_waits (xfer : XferSend) (parent : XferParent) (pipe : List Byte) :
    xfer.Waits (XferSend.killed { xfer with pipe } parent) := by
  unfold XferSend.killed
  split <;> exact ⟨⟨rfl, rfl, rfl⟩, rfl, rfl⟩

theorem XferRecv.killed_rests (xfer : XferRecv) (parent : XferParent) (pipe : List Byte) :
    xfer.Rests (XferRecv.killed { xfer with pipe } parent) := by
  unfold XferRecv.killed
  split
  · exact ⟨rfl, .inl rfl⟩
  · exact ⟨rfl, .inr rfl⟩

/-! Each event that is possible, and what it does. -/

section

variable {s s' : XferDcc}

theorem XferDcc.step_sender {event : XferSendEvent} (h : s.step file gcryMdRead (.sender event) = some s') :
    ∃ sender acks sent, s.sender.step file (s.receiver.point = .returned) s.acks event = some (sender, acks, sent) ∧
      s' = { s with sender, acks, data := s.data ++ sent } := by
  obtain ⟨result, hstep, heq⟩ := Option.bind_eq_some_iff.mp h
  exact ⟨result.1, result.2.1, result.2.2, hstep, (Option.some.inj heq).symm⟩

theorem XferDcc.step_receiver {event : XferRecvEvent} (h : s.step file gcryMdRead (.receiver event) = some s') :
    ∃ receiver data sent,
      s.receiver.step gcryMdRead (s.sender.point = .returned) s.data event = some (receiver, data, sent) ∧
      s' = { s with receiver, data, acks := s.acks ++ sent } := by
  obtain ⟨result, hstep, heq⟩ := Option.bind_eq_some_iff.mp h
  exact ⟨result.1, result.2.1, result.2.2, hstep, (Option.some.inj heq).symm⟩

theorem XferDcc.step_senderReport (h : s.step file gcryMdRead .senderReport = some s') :
    s.senderXfer.hookFd = true ∧
      ∃ senderXfer, senderXfer = xferNetworkChildReadCb s.senderXfer (s.sender.pipe.take xferReportSize) ∧
        s' = { s with
          senderXfer
          sender := XferSend.killed { s.sender with pipe := s.sender.pipe.drop xferReportSize } senderXfer } := by
  obtain ⟨hopen, heq⟩ := Option.ite_none_right_eq_some.mp h
  exact ⟨hopen, _, rfl, (Option.some.inj heq).symm⟩

theorem XferDcc.step_receiverReport (h : s.step file gcryMdRead .receiverReport = some s') :
    s.receiverXfer.hookFd = true ∧
      ∃ receiverXfer, receiverXfer = xferNetworkChildReadCb s.receiverXfer (s.receiver.pipe.take xferReportSize) ∧
        s' = { s with
          receiverXfer
          receiver := XferRecv.killed { s.receiver with pipe := s.receiver.pipe.drop xferReportSize } receiverXfer } := by
  obtain ⟨hopen, heq⟩ := Option.ite_none_right_eq_some.mp h
  exact ⟨hopen, _, rfl, (Option.some.inj heq).symm⟩

theorem XferDcc.step_senderAbort (h : s.step file gcryMdRead .senderAbort = some s') :
    s.senderXfer.hookFd = true ∧
      ∃ senderXfer, senderXfer = xferClose s.senderXfer .aborted ∧
        s' = { s with senderXfer, sender := s.sender.killed senderXfer } := by
  obtain ⟨hopen, heq⟩ := Option.ite_none_right_eq_some.mp h
  exact ⟨hopen, _, rfl, (Option.some.inj heq).symm⟩

theorem XferDcc.step_receiverAbort (h : s.step file gcryMdRead .receiverAbort = some s') :
    s.receiverXfer.hookFd = true ∧
      ∃ receiverXfer, receiverXfer = xferClose s.receiverXfer .aborted ∧
        s' = { s with receiverXfer, receiver := s.receiver.killed receiverXfer } := by
  obtain ⟨hopen, heq⟩ := Option.ite_none_right_eq_some.mp h
  exact ⟨hopen, _, rfl, (Option.some.inj heq).symm⟩

end

theorem XferDcc.step_moves {s s' : XferDcc} {event : XferEvent} (h : s.step file gcryMdRead event = some s') :
    s.Moves file gcryMdRead s' := by
  have hsender : s.sender.Waits s.sender := ⟨⟨rfl, rfl, rfl⟩, rfl, rfl⟩
  have hreceiver : s.receiver.Rests s.receiver := ⟨rfl, .inl rfl⟩
  cases event with
  | sender event =>
    obtain ⟨sender, acks, sent, hstep, rfl⟩ := XferDcc.step_sender h
    exact .sender (XferSend.step_running hstep) (XferSend.step_moves hstep)
  | receiver event =>
    obtain ⟨receiver, data, sent, hstep, rfl⟩ := XferDcc.step_receiver h
    exact .receiver (XferRecv.step_running hstep) (XferRecv.step_moves hstep)
  | senderReport =>
    obtain ⟨-, senderXfer, -, rfl⟩ := XferDcc.step_senderReport h
    exact .reads (s.sender.killed_waits _ _) hreceiver
  | receiverReport =>
    obtain ⟨-, receiverXfer, -, rfl⟩ := XferDcc.step_receiverReport h
    exact .reads hsender (s.receiver.killed_rests _ _)
  | senderAbort =>
    obtain ⟨-, senderXfer, -, rfl⟩ := XferDcc.step_senderAbort h
    exact .reads (s.sender.killed_waits _ s.sender.pipe) hreceiver
  | receiverAbort =>
    obtain ⟨-, receiverXfer, -, rfl⟩ := XferDcc.step_receiverAbort h
    exact .reads hsender (s.receiver.killed_rests _ s.receiver.pipe)

/-! ## The bytes of the file -/

theorem XferOptions.stream_add {o : XferOptions} {pos k : Nat} (hstart : o.startResume ≤ pos)
    (hk : pos + k ≤ file.length) :
    o.stream file (pos + k) = o.stream file pos ++ (file.drop pos).take k := by
  have hlen : o.startResume ≤ (file.take pos).length := by
    rw [List.length_take]
    omega
  rw [XferOptions.stream, XferOptions.stream, List.append_assoc, List.take_add, List.drop_append_of_le_length hlen]

theorem XferOptions.stream_length {o : XferOptions} {pos : Nat} (ho : o.Agreed file) (hstart : o.startResume ≤ pos)
    (hpos : pos ≤ file.length) : (o.stream file pos).length = pos := by
  rw [XferOptions.stream, List.length_append, ho.part, List.length_drop, List.length_take]
  omega

/-- Where the bytes of the file are. -/
structure XferDcc.Streams (file : List Byte) (o : XferOptions) (s : XferDcc) : Prop where
  start_le : o.startResume ≤ s.sender.pos
  pos_le : s.sender.pos ≤ file.length
  disk : s.receiver.file <+: o.stream file s.sender.pos
  flow : s.receiver.point ≠ .returned →
    s.receiver.file ++ s.receiver.unwritten ++ s.data = o.stream file s.sender.pos
  count : s.receiver.point ≠ .returned → s.receiver.pos + s.receiver.written = s.receiver.file.length
  count_le : s.receiver.pos ≤ s.receiver.file.length
  room : s.receiver.pos + s.data.length ≤ s.sender.pos

theorem XferRecv.unwritten_write {xfer : XferRecv} {buffer : List Byte} {totalWritten : Nat}
    (h : xfer.point = .write buffer totalWritten) : xfer.unwritten = buffer.drop totalWritten := by
  rw [XferRecv.unwritten, h]

theorem XferRecv.written_write {xfer : XferRecv} {buffer : List Byte} {totalWritten : Nat}
    (h : xfer.point = .write buffer totalWritten) : xfer.written = totalWritten := by
  rw [XferRecv.written, h]

/-- Where nothing is to write. -/
theorem XferRecv.unwritten_nil {xfer : XferRecv} (h : ∀ buffer totalWritten, xfer.point ≠ .write buffer totalWritten) :
    xfer.unwritten = [] ∧ xfer.written = 0 := by
  unfold XferRecv.unwritten XferRecv.written
  cases hpoint : xfer.point with
  | write buffer totalWritten => exact absurd hpoint (h buffer totalWritten)
  | connect => exact ⟨rfl, rfl⟩
  | poll => exact ⟨rfl, rfl⟩
  | recv => exact ⟨rfl, rfl⟩
  | sendAck totalSent fileOk => exact ⟨rfl, rfl⟩
  | returned => exact ⟨rfl, rfl⟩

/-- What a step of the child that receives does with the bytes: it loses none, as long as it runs. -/
structure XferRecv.Conserves (xfer : XferRecv) (data : List Byte) (xfer' : XferRecv) (data' : List Byte) : Prop where
  flow : xfer'.point ≠ .returned → xfer'.file ++ xfer'.unwritten ++ data' = xfer.file ++ xfer.unwritten ++ data
  disk : xfer'.file <+: xfer.file ++ xfer.unwritten
  file_le : xfer.file.length ≤ xfer'.file.length
  count : xfer.pos + xfer.written = xfer.file.length → xfer'.point ≠ .returned →
    xfer'.pos + xfer'.written = xfer'.file.length
  count_le : xfer.pos + xfer.written = xfer.file.length → xfer'.pos ≤ xfer'.file.length
  room : xfer'.pos + data'.length ≤ xfer.pos + xfer.written + xfer.unwritten.length + data.length

/-- A step between two points where nothing is to write. -/
theorem XferRecv.conserves_of_keeps {xfer xfer' : XferRecv} {data : List Byte} (hfile : xfer'.file = xfer.file)
    (hpos : xfer'.pos = xfer.pos) (hpoint : ∀ buffer totalWritten, xfer.point ≠ .write buffer totalWritten)
    (hpoint' : ∀ buffer totalWritten, xfer'.point ≠ .write buffer totalWritten) : xfer.Conserves data xfer' data := by
  obtain ⟨hunwritten, hwritten⟩ := XferRecv.unwritten_nil hpoint
  obtain ⟨hunwritten', hwritten'⟩ := XferRecv.unwritten_nil hpoint'
  refine ⟨fun _ => ?_, ?_, ?_, fun h _ => ?_, fun h => ?_, ?_⟩
  · rw [hfile, hunwritten, hunwritten']
  · rw [hfile]
    exact List.prefix_append _ _
  · rw [hfile]
  · rw [hpos, hfile, hwritten', ← hwritten]
    exact h
  · rw [hpos, hfile, ← h]
    exact Nat.le_add_right _ _
  · rw [hpos, hwritten, hunwritten]
    simp

/-- A block that is on disk is counted. -/
theorem XferRecv.conserves_of_received {xfer xfer' : XferRecv} {data buffer : List Byte}
    (hfile : xfer'.file = xfer.file)
    (hpos : xfer'.pos = xfer.pos + buffer.length) (hpoint : xfer.point = .write buffer buffer.length)
    (hpoint' : ∀ buffer totalWritten, xfer'.point ≠ .write buffer totalWritten) : xfer.Conserves data xfer' data := by
  have hunwritten := XferRecv.unwritten_write hpoint
  have hwritten := XferRecv.written_write hpoint
  obtain ⟨hunwritten', hwritten'⟩ := XferRecv.unwritten_nil hpoint'
  rw [List.drop_length] at hunwritten
  refine ⟨fun _ => ?_, ?_, ?_, fun hcount _ => ?_, fun hcount => ?_, ?_⟩
  · rw [hunwritten', hunwritten, hfile]
  · rw [hfile]
    exact List.prefix_append _ _
  · rw [hfile]
  · rw [hwritten', hpos, hfile, ← hcount, hwritten, Nat.add_zero]
  · rw [hpos, hfile, ← hcount, hwritten]
  · rw [hpos, hwritten]
    omega

theorem XferRecv.Moves.conserves {xfer xfer' : XferRecv} {data data' sent : List Byte}
    (h : xfer.Moves gcryMdRead data xfer' data' sent) : xfer.Conserves data xfer' data' := by
  cases h with
  | fails _ =>
    refine ⟨fun hne => absurd rfl hne, List.prefix_append _ _, Nat.le_refl _, fun _ hne => absurd rfl hne,
      fun hcount => ?_, ?_⟩
    · exact hcount ▸ Nat.le_add_right _ _
    · show xfer.pos + data.length ≤ _
      omega
  | connects h hpoint hpoint' =>
    refine XferRecv.conserves_of_keeps h.file h.pos ?_ ?_ <;> simp [hpoint, hpoint']
  | polls h hpoint hpoint' =>
    refine XferRecv.conserves_of_keeps h.file h.pos (by simp [hpoint]) ?_
    rcases hpoint' with hpoint' | hpoint' <;> simp [hpoint']
  | waits h hpoint hpoint' =>
    refine XferRecv.conserves_of_keeps h.file h.pos ?_ ?_ <;> simp [hpoint, hpoint']
  | needsAck h hpoint hpoint' _ _ =>
    refine XferRecv.conserves_of_keeps h.file h.pos ?_ ?_ <;> simp [hpoint, hpoint']
  | needsNoAck h hpoint hpoint' _ =>
    refine XferRecv.conserves_of_keeps h.file h.pos ?_ ?_ <;> simp [hpoint, hpoint']
  | receives h hpoint hpoint' hn =>
    obtain ⟨hunwritten, hwritten⟩ := xfer.unwritten_nil (by simp [hpoint])
    have hunwritten' := XferRecv.unwritten_write hpoint'
    have hwritten' := XferRecv.written_write hpoint'
    refine ⟨fun _ => ?_, ?_, ?_, fun hcount _ => ?_, fun hcount => ?_, ?_⟩
    · rw [hunwritten', hunwritten, h.file, List.drop_zero, List.append_nil, List.append_assoc, List.take_append_drop]
    · rw [h.file]
      exact List.prefix_append _ _
    · rw [h.file]
    · rw [hwritten', h.pos, h.file, ← hwritten]
      exact hcount
    · rw [h.pos, h.file, ← hcount]
      exact Nat.le_add_right _ _
    · rw [h.pos, List.length_drop]
      omega
  | @writes _ buffer totalWritten n h hpoint hpoint' hn =>
    have hunwritten := XferRecv.unwritten_write hpoint
    have hwritten := XferRecv.written_write hpoint
    have hunwritten' := XferRecv.unwritten_write hpoint'
    have hwritten' := XferRecv.written_write hpoint'
    have hlen : ((buffer.drop totalWritten).take n).length = n := by
      rw [List.length_take, List.length_drop]
      omega
    have hfile' : xfer'.file = xfer.file ++ (buffer.drop totalWritten).take n := h.file
    have hpos' : xfer'.pos = xfer.pos := h.pos
    refine ⟨fun _ => ?_, ?_, ?_, fun hcount _ => ?_, fun hcount => ?_, ?_⟩
    · rw [hunwritten', hunwritten, hfile', ← List.drop_drop, List.append_assoc xfer.file, List.take_append_drop]
    · rw [hunwritten, hfile', List.prefix_append_right_inj]
      exact List.take_prefix _ _
    · rw [hfile', List.length_append]
      exact Nat.le_add_right _ _
    · rw [hwritten', hpos', hfile', List.length_append, hlen, ← hcount, hwritten, Nat.add_assoc]
    · rw [hpos', hfile', List.length_append, ← hcount]
      omega
    · rw [hpos']
      omega
  | received h hpoint hpoint' => exact XferRecv.conserves_of_received h.file h.pos hpoint (by simp [hpoint'])
  | completes hpoint hpoint' _ hpos h _ => exact XferRecv.conserves_of_received h.file hpos hpoint (by simp [hpoint'])
  | sendsAck h hpoint hpoint' _ _ =>
    refine XferRecv.conserves_of_keeps h.file h.pos ?_ ?_ <;> simp [hpoint, hpoint']
  | acked h hpoint hpoint' _ =>
    refine XferRecv.conserves_of_keeps h.file h.pos ?_ ?_ <;> simp [hpoint, hpoint']
  | disablesAck h hpoint hpoint' =>
    refine XferRecv.conserves_of_keeps h.file h.pos ?_ ?_ <;> simp [hpoint, hpoint']
  | done hpoint _ => exact XferRecv.conserves_of_keeps rfl rfl (by simp [hpoint]) (by simp [XferRecv.return])

theorem XferDcc.Moves.streams {o : XferOptions} {s s' : XferDcc} (ho : o.Agreed file)
    (h : s.Moves file gcryMdRead s') (hs : s.Streams file o) : s'.Streams file o := by
  cases h with
  | sender hrun h =>
    cases h with
    | waits h =>
      refine ⟨?_, ?_, ?_, fun hne => ?_, hs.count, hs.count_le, ?_⟩
      · exact h.pos ▸ hs.start_le
      · exact h.pos ▸ hs.pos_le
      · exact h.pos ▸ hs.disk
      · rw [List.append_nil]
        exact h.pos ▸ hs.flow hne
      · rw [List.append_nil]
        exact h.pos ▸ hs.room
    | readsAck hlen h =>
      have hpos : _ = s.sender.pos := h.pos
      refine ⟨?_, ?_, ?_, fun hne => ?_, hs.count, hs.count_le, ?_⟩
      · exact hpos ▸ hs.start_le
      · exact hpos ▸ hs.pos_le
      · exact hpos ▸ hs.disk
      · rw [List.append_nil]
        exact hpos ▸ hs.flow hne
      · rw [List.append_nil]
        exact hpos ▸ hs.room
    | @sends k hk hblock hfile hfill h =>
      have hpos : _ = s.sender.pos + k := h.pos
      have hstream := XferOptions.stream_add hs.start_le hfile
      have hlen : ((file.drop s.sender.pos).take k).length = k := by
        rw [List.length_take, List.length_drop]
        omega
      refine ⟨?_, ?_, ?_, fun hne => ?_, hs.count, hs.count_le, ?_⟩
      · exact hpos ▸ Nat.le_add_right_of_le hs.start_le
      · exact hpos ▸ hfile
      · rw [hpos, hstream]
        exact hs.disk.trans (List.prefix_append _ _)
      · rw [hpos, hstream, ← hs.flow hne, List.append_assoc _ s.data]
      · rw [hpos, List.length_append, hlen, ← Nat.add_assoc]
        exact Nat.add_le_add_right hs.room k
  | receiver hrun h =>
    have hc := h.conserves
    have hflow := hs.flow hrun
    have hcount := hs.count hrun
    refine ⟨hs.start_le, hs.pos_le, ?_, fun hne => (hc.flow hne).trans hflow, hc.count hcount, hc.count_le hcount, ?_⟩
    · refine hc.disk.trans ?_
      rw [← hflow]
      exact List.prefix_append _ _
    · have hlen := congrArg List.length hflow
      rw [XferOptions.stream_length ho hs.start_le hs.pos_le, List.length_append, List.length_append, ← hcount] at hlen
      rw [← hlen]
      exact hc.room
  | @reads sender receiver _ _ hsender hreceiver =>
    have hpos : sender.pos = s.sender.pos := hsender.pos
    have hfile : receiver.file = s.receiver.file := hreceiver.file_eq
    have hrecv : receiver.pos = s.receiver.pos := hreceiver.pos_eq
    refine ⟨?_, ?_, ?_, fun hne => ?_, fun hne => ?_, ?_, ?_⟩
    · exact hpos ▸ hs.start_le
    · exact hpos ▸ hs.pos_le
    · rw [hpos, hfile]
      exact hs.disk
    · obtain ⟨hrun, hunwritten, -⟩ := hreceiver.running hne
      rw [hpos, hfile, hunwritten]
      exact hs.flow hrun
    · obtain ⟨hrun, -, hwritten⟩ := hreceiver.running hne
      rw [hrecv, hfile, hwritten]
      exact hs.count hrun
    · rw [hrecv, hfile]
      exact hs.count_le
    · rw [hrecv, hpos]
      exact hs.room

/-! ## The ACKs -/

theorem length_htonl (n : Nat) : (htonl n).length = 4 := by rw [htonl, List.length_reverse, length_leBytes]

theorem ntohl_htonl (n : Nat) : ntohl (htonl n) = n % 4294967296 := by
  rw [ntohl, htonl, List.reverse_reverse, leNat_leBytes, show (256 : Nat) ^ 4 = 4294967296 by norm_num]

/-- What holds of the positions of the child that receives. -/
structure XferRecv.Acking (o : XferOptions) (xfer : XferRecv) : Prop where
  start_le : o.startResume ≤ xfer.pos
  last_le : xfer.posLastAck ≤ xfer.pos
  poll : xfer.point = .poll → xfer.sendAck = false ∨ xfer.posLastAck = xfer.pos ∨ xfer.pos = o.startResume
  sending : ∀ totalSent, xfer.point = .sendAck totalSent false → xfer.sendAck = true ∧ xfer.posLastAck < xfer.pos
  disabled : xfer.sendAck = false → xfer.posLastAck = 0 ∨ xfer.posLastAck < xfer.pos
  /-- The child waits for the connection until its first step. -/
  connect : xfer.point = .connect → xfer.pos = o.startResume

theorem XferRecv.Acking.move {o : XferOptions} {xfer xfer' : XferRecv} (hx : xfer.Acking o)
    (hpos : xfer'.pos = xfer.pos) (hack : xfer'.sendAck = xfer.sendAck) (hlast : xfer'.posLastAck = xfer.posLastAck)
    (hpoll : xfer'.point = .poll → xfer.sendAck = false ∨ xfer.posLastAck = xfer.pos ∨ xfer.pos = o.startResume)
    (hsending : ∀ totalSent, xfer'.point = .sendAck totalSent false →
      xfer.sendAck = true ∧ xfer.posLastAck < xfer.pos)
    (hconnect : xfer'.point ≠ .connect) : xfer'.Acking o := by
  refine ⟨?_, ?_, ?_, ?_, ?_, fun h => absurd h hconnect⟩
  · exact hpos ▸ hx.start_le
  · rw [hpos, hlast]
    exact hx.last_le
  · rw [hpos, hack, hlast]
    exact hpoll
  · rw [hpos, hack, hlast]
    exact hsending
  · rw [hpos, hack, hlast]
    exact hx.disabled

theorem XferRecv.acking_of_received {o : XferOptions} {xfer xfer' : XferRecv} {n : Nat} (hx : xfer.Acking o)
    (hpos : xfer'.pos = xfer.pos + n) (hack : xfer'.sendAck = xfer.sendAck) (hlast : xfer'.posLastAck = xfer.posLastAck)
    (hpoll : xfer'.point ≠ .poll) (hsending : ∀ totalSent, xfer'.point ≠ .sendAck totalSent false)
    (hconnect : xfer'.point ≠ .connect) : xfer'.Acking o := by
  refine ⟨?_, ?_, fun h => absurd h hpoll, fun _ h => absurd h (hsending _), fun h => ?_, fun h => absurd h hconnect⟩
  · rw [hpos]
    exact Nat.le_add_right_of_le hx.start_le
  · rw [hpos, hlast]
    exact Nat.le_add_right_of_le hx.last_le
  · rw [hpos, hlast]
    exact (hx.disabled (hack ▸ h)).imp_right fun hlt => Nat.lt_add_right _ hlt

theorem XferRecv.Moves.acking {o : XferOptions} {xfer xfer' : XferRecv} {data data' sent : List Byte}
    (h : xfer.Moves gcryMdRead data xfer' data' sent) (hx : xfer.Acking o) : xfer'.Acking o := by
  cases h with
  | fails _ => exact hx.move rfl rfl rfl nofun nofun nofun
  | connects h hpoint hpoint' =>
    refine hx.move h.pos h.sendAck h.posLastAck (fun _ => .inr (.inr (hx.connect hpoint))) ?_ ?_ <;> simp [hpoint']
  | polls h hpoint hpoint' =>
    refine hx.move h.pos h.sendAck h.posLastAck (fun _ => hx.poll hpoint) ?_ ?_ <;>
      rcases hpoint' with hpoint' | hpoint' <;> simp [hpoint']
  | waits h hpoint hpoint' => refine hx.move h.pos h.sendAck h.posLastAck ?_ ?_ ?_ <;> simp [hpoint']
  | needsAck h hpoint hpoint' hack hpos =>
    refine hx.move h.pos h.sendAck h.posLastAck ?_ (fun _ _ => ⟨hack, hpos⟩) ?_ <;> simp [hpoint']
  | needsNoAck h hpoint hpoint' hack =>
    refine hx.move h.pos h.sendAck h.posLastAck (fun _ => ?_) ?_ ?_
    · cases hsend : xfer.sendAck with
      | false => exact .inl rfl
      | true => exact .inr (.inl (Nat.le_antisymm hx.last_le (Nat.le_of_not_lt fun hlt => hack ⟨hsend, hlt⟩)))
    · simp [hpoint']
    · simp [hpoint']
  | receives h hpoint hpoint' hn => refine hx.move h.pos h.sendAck h.posLastAck ?_ ?_ ?_ <;> simp [hpoint']
  | writes h hpoint hpoint' hn => refine hx.move h.pos h.sendAck h.posLastAck ?_ ?_ ?_ <;> simp [hpoint']
  | received h hpoint hpoint' =>
    exact XferRecv.acking_of_received hx h.pos h.sendAck h.posLastAck (by simp [hpoint']) (by simp [hpoint'])
      (by simp [hpoint'])
  | completes hpoint hpoint' _ hpos h _ =>
    exact XferRecv.acking_of_received hx hpos h.sendAck h.posLastAck (by simp [hpoint']) (by simp [hpoint'])
      (by simp [hpoint'])
  | sendsAck h hpoint hpoint' _ _ =>
    refine hx.move h.pos h.sendAck h.posLastAck ?_ (fun totalSent hsend => ?_) ?_
    · simp [hpoint']
    · rw [hpoint'] at hsend
      cases hsend
      exact hx.sending _ hpoint
    · simp [hpoint']
  | acked h hpoint hpoint' _ =>
    have hlast : xfer'.posLastAck = xfer.pos := h.posLastAck
    have hpos : xfer'.pos = xfer.pos := h.pos
    have hsendAck : xfer'.sendAck = xfer.sendAck := h.sendAck
    refine ⟨?_, ?_, fun _ => .inr (.inl (hlast.trans hpos.symm)), ?_, ?_, ?_⟩
    · exact hpos ▸ hx.start_le
    · rw [hpos, hlast]
    · simp [hpoint']
    · rw [hsendAck, (hx.sending _ hpoint).1]
      exact fun h => absurd h (by decide)
    · simp [hpoint']
  | disablesAck h hpoint hpoint' =>
    have hlast : xfer'.posLastAck = xfer.posLastAck := h.posLastAck
    have hpos : xfer'.pos = xfer.pos := h.pos
    refine ⟨?_, ?_, fun _ => .inl h.sendAck, ?_, fun _ => .inr ?_, ?_⟩
    · exact hpos ▸ hx.start_le
    · rw [hpos, hlast]
      exact hx.last_le
    · simp [hpoint']
    · rw [hpos, hlast]
      exact (hx.sending _ hpoint).2
    · simp [hpoint']
  | done hpoint _ => exact hx.move rfl rfl rfl nofun nofun nofun

theorem XferRecv.ackSent_sendAck {xfer : XferRecv} {totalSent : Nat} {fileOk : Bool}
    (h : xfer.point = .sendAck totalSent fileOk) : xfer.ackSent = totalSent := by
  rw [XferRecv.ackSent, h]

/-- Where no ACK is sent. -/
theorem XferRecv.ackSent_zero {xfer : XferRecv} (h : ∀ totalSent fileOk, xfer.point ≠ .sendAck totalSent fileOk) :
    xfer.ackSent = 0 := by
  unfold XferRecv.ackSent
  cases hpoint : xfer.point with
  | sendAck totalSent fileOk => exact absurd hpoint (h totalSent fileOk)
  | connect => rfl
  | poll => rfl
  | recv => rfl
  | write buffer totalWritten => rfl
  | returned => rfl

theorem XferRecv.ackRest_zero {xfer : XferRecv} (h : xfer.ackSent = 0) : xfer.ackRest = [] := if_pos h

theorem XferRecv.ackRest_pos {xfer : XferRecv} (h : xfer.ackSent ≠ 0) :
    xfer.ackRest = xferAckRest xfer.pos xfer.ackSent := if_neg h

/-- What a step of the child that receives does with the ACKs: nothing, it starts an
ACK, or it sends more of one. -/
inductive XferRecv.AckMoves (o : XferOptions) (xfer xfer' : XferRecv) : List Byte → Prop
  | same (hpos : xfer.pos ≤ xfer'.pos)
      (hrest : xfer'.point ≠ .returned → xfer'.ackRest = xfer.ackRest ∧ xfer'.lastAck o = xfer.lastAck o) :
      XferRecv.AckMoves o xfer xfer' []
  | starts {k : Nat} (hpos : xfer'.pos = xfer.pos) (hk : 0 < k) (hnone : xfer.ackRest = [])
      (hrest : xfer'.point ≠ .returned →
        xfer'.ackRest = (htonl xfer.pos).drop k ∧ xfer'.lastAck o = xfer.pos % 4294967296) :
      XferRecv.AckMoves o xfer xfer' ((htonl xfer.pos).take k)
  | continues {k : Nat} (hpos : xfer'.pos = xfer.pos)
      (hrest : xfer'.point ≠ .returned →
        xfer'.ackRest = xfer.ackRest.drop k ∧ xfer'.lastAck o = xfer.lastAck o) :
      XferRecv.AckMoves o xfer xfer' (xfer.ackRest.take k)

theorem XferRecv.AckMoves.pos_le {o : XferOptions} {xfer xfer' : XferRecv} {sent : List Byte}
    (h : xfer.AckMoves o xfer' sent) : xfer.pos ≤ xfer'.pos := by
  cases h with
  | same hpos _ => exact hpos
  | starts hpos _ _ _ => exact Nat.le_of_eq hpos.symm
  | continues hpos _ => exact Nat.le_of_eq hpos.symm

/-- Nothing of an ACK is sent before and after. -/
theorem XferRecv.ackMoves_zero {o : XferOptions} {xfer xfer' : XferRecv} (hpos : xfer.pos ≤ xfer'.pos)
    (hlast : xfer'.posLastAck = xfer.posLastAck) (h : xfer.ackSent = 0) (h' : xfer'.ackSent = 0) :
    xfer.AckMoves o xfer' [] := by
  refine .same hpos fun _ => ⟨?_, ?_⟩
  · rw [XferRecv.ackRest_zero h, XferRecv.ackRest_zero h']
  · rw [XferRecv.lastAck, XferRecv.lastAck, h, h', hlast]
    rfl

/-- More bytes of an ACK are sent: the first ones, or not. -/
theorem XferRecv.ackMoves_sends {o : XferOptions} {xfer xfer' : XferRecv} {totalSent k : Nat} {fileOk : Bool}
    (hpoint : xfer.point = .sendAck totalSent fileOk) (hpos : xfer'.pos = xfer.pos) (hk : 0 < totalSent + k)
    (hrest : xfer'.point ≠ .returned →
      xfer'.ackRest = (htonl xfer.pos).drop (totalSent + k) ∧ xfer'.lastAck o = xfer.pos % 4294967296) :
    xfer.AckMoves o xfer' ((xferAckRest xfer.pos totalSent).take k) := by
  have hsent := XferRecv.ackSent_sendAck hpoint
  cases totalSent with
  | zero =>
    rw [xferAckRest, List.drop_zero]
    rw [Nat.zero_add] at hk hrest
    exact .starts hpos hk (XferRecv.ackRest_zero hsent) hrest
  | succ totalSent =>
    have hne : xfer.ackSent ≠ 0 := by
      rw [hsent]
      exact Nat.succ_ne_zero _
    have hold := XferRecv.ackRest_pos hne
    rw [hsent] at hold
    rw [← hold]
    refine .continues hpos fun hrun => ⟨?_, ?_⟩
    · rw [(hrest hrun).1, hold, xferAckRest, List.drop_drop]
    · rw [(hrest hrun).2, XferRecv.lastAck, if_pos hne]

theorem XferRecv.Moves.acks {o : XferOptions} {xfer xfer' : XferRecv} {data data' sent : List Byte}
    (h : xfer.Moves gcryMdRead data xfer' data' sent) (hx : xfer.Acking o) : xfer.AckMoves o xfer' sent := by
  cases h with
  | fails _ => exact .same (Nat.le_refl _) fun hne => absurd rfl hne
  | connects h hpoint hpoint' =>
    exact XferRecv.ackMoves_zero (Nat.le_of_eq h.pos.symm) h.posLastAck (XferRecv.ackSent_zero (by simp [hpoint]))
      (XferRecv.ackSent_zero (by simp [hpoint']))
  | polls h hpoint hpoint' =>
    refine XferRecv.ackMoves_zero (Nat.le_of_eq h.pos.symm) h.posLastAck (XferRecv.ackSent_zero (by simp [hpoint]))
      (XferRecv.ackSent_zero ?_)
    rcases hpoint' with hpoint' | hpoint' <;> simp [hpoint']
  | waits h hpoint hpoint' =>
    exact XferRecv.ackMoves_zero (Nat.le_of_eq h.pos.symm) h.posLastAck (XferRecv.ackSent_zero (by simp [hpoint]))
      (XferRecv.ackSent_zero (by simp [hpoint']))
  | needsAck h hpoint hpoint' _ _ =>
    exact XferRecv.ackMoves_zero (Nat.le_of_eq h.pos.symm) h.posLastAck (XferRecv.ackSent_zero (by simp [hpoint]))
      (XferRecv.ackSent_sendAck hpoint')
  | needsNoAck h hpoint hpoint' _ =>
    exact XferRecv.ackMoves_zero (Nat.le_of_eq h.pos.symm) h.posLastAck (XferRecv.ackSent_zero (by simp [hpoint]))
      (XferRecv.ackSent_zero (by simp [hpoint']))
  | receives h hpoint hpoint' _ =>
    exact XferRecv.ackMoves_zero (Nat.le_of_eq h.pos.symm) h.posLastAck (XferRecv.ackSent_zero (by simp [hpoint]))
      (XferRecv.ackSent_zero (by simp [hpoint']))
  | writes h hpoint hpoint' _ =>
    exact XferRecv.ackMoves_zero (Nat.le_of_eq h.pos.symm) h.posLastAck (XferRecv.ackSent_zero (by simp [hpoint]))
      (XferRecv.ackSent_zero (by simp [hpoint']))
  | received h hpoint hpoint' =>
    exact XferRecv.ackMoves_zero (Nat.le.intro h.pos.symm) h.posLastAck (XferRecv.ackSent_zero (by simp [hpoint]))
      (XferRecv.ackSent_zero (by simp [hpoint']))
  | completes hpoint hpoint' _ hpos h _ =>
    exact XferRecv.ackMoves_zero (Nat.le.intro hpos.symm) h.posLastAck (XferRecv.ackSent_zero (by simp [hpoint]))
      (XferRecv.ackSent_sendAck hpoint')
  | @sendsAck _ totalSent k fileOk h hpoint hpoint' hpos hlt =>
    have hsent' := XferRecv.ackSent_sendAck hpoint'
    have hne : xfer'.ackSent ≠ 0 := by
      rw [hsent']
      exact Nat.ne_of_gt hpos
    refine XferRecv.ackMoves_sends hpoint h.pos hpos fun _ => ⟨?_, ?_⟩
    · rw [XferRecv.ackRest_pos hne, hsent', h.pos, xferAckRest]
    · rw [XferRecv.lastAck, if_pos hne, h.pos]
  | @acked _ totalSent k h hpoint hpoint' hk =>
    have hlast : xfer'.posLastAck = xfer.pos := h.posLastAck
    have hsent' : xfer'.ackSent = 0 := XferRecv.ackSent_zero (by simp [hpoint'])
    have hpos : xfer.pos ≠ 0 := Nat.ne_of_gt (Nat.zero_lt_of_lt (hx.sending _ hpoint).2)
    refine XferRecv.ackMoves_sends hpoint h.pos (hk ▸ Nat.zero_lt_succ 3) fun _ => ⟨?_, ?_⟩
    · rw [XferRecv.ackRest_zero hsent', hk, List.drop_of_length_le (Nat.le_of_eq (length_htonl _))]
    · rw [XferRecv.lastAck, hsent', hlast, if_neg (by simp), if_neg hpos]
  | disablesAck h hpoint hpoint' =>
    exact XferRecv.ackMoves_zero (Nat.le_of_eq h.pos.symm) h.posLastAck (XferRecv.ackSent_sendAck hpoint)
      (XferRecv.ackSent_zero (by simp [hpoint']))
  | @done totalSent k hpoint hk =>
    by_cases hpos : 0 < totalSent + k
    · exact XferRecv.ackMoves_sends hpoint rfl hpos fun hne => absurd rfl hne
    · have hzero : k = 0 := by omega
      rw [hzero, List.take_zero]
      exact .same (Nat.le_refl _) fun hne => absurd rfl hne

theorem XferRecv.Rests.acking {o : XferOptions} {xfer xfer' : XferRecv} (h : xfer.Rests xfer') (hx : xfer.Acking o) :
    xfer'.Acking o := by
  obtain ⟨heq, hpoint⟩ := h
  rw [heq]
  refine ⟨hx.start_le, hx.last_le, fun hp => ?_, fun totalSent hp => ?_, hx.disabled, fun hp => ?_⟩
  all_goals
    rcases hpoint with hpoint | hpoint
    · rw [hpoint] at hp
      first | exact hx.poll hp | exact hx.sending _ hp | exact hx.connect hp
    · rw [hpoint] at hp
      cases hp

theorem XferRecv.Rests.acks {xfer xfer' : XferRecv} (h : xfer.Rests xfer') (hne : xfer'.point ≠ .returned) :
    xfer'.ackRest = xfer.ackRest ∧ ∀ o, xfer'.lastAck o = xfer.lastAck o := by
  obtain ⟨heq, hpoint | hpoint⟩ := h
  · have hsent : xfer'.ackSent = xfer.ackSent := by rw [XferRecv.ackSent, XferRecv.ackSent, hpoint]
    refine ⟨?_, fun o => ?_⟩
    · rw [XferRecv.ackRest, XferRecv.ackRest, hsent, heq]
    · rw [XferRecv.lastAck, XferRecv.lastAck, hsent, heq]
  · exact absurd hpoint hne

/-- What is in the ACKs in flight, and what the sender knows of them. -/
structure XferDcc.Acks (o : XferOptions) (s : XferDcc) : Prop where
  acking : s.receiver.Acking o
  stream : ∃ records rest, InStream htonl 4 s.acks rest records ∧ (∀ pos ∈ records, pos ≤ s.receiver.pos) ∧
    (s.receiver.point ≠ .returned → rest = s.receiver.ackRest ∧
      (records.getLast?.map fun pos => pos % 4294967296).getD s.sender.ack = s.receiver.lastAck o)
  ack_le : s.sender.ack ≤ s.receiver.pos
  ack_lt : s.sender.ack = o.startResume ∨ s.sender.ack < 4294967296

theorem XferDcc.Moves.acks {o : XferOptions} {s s' : XferDcc} (h : s.Moves file gcryMdRead s') (hs : s.Acks o) :
    s'.Acks o := by
  obtain ⟨records, rest, hin, hle, hrun⟩ := hs.stream
  cases h with
  | @sender sender acks sent hne h =>
    cases h with
    | waits h =>
      have hack : sender.ack = s.sender.ack := h.ack
      refine ⟨hs.acking, ⟨records, rest, hin, hle, ?_⟩, ?_, ?_⟩
      · exact hack ▸ hrun
      · exact hack ▸ hs.ack_le
      · exact hack ▸ hs.ack_lt
    | readsAck hlen h =>
      obtain ⟨pos, records', rfl, htake, hin'⟩ := hin.take length_htonl hlen
      have hack : sender.ack = pos % 4294967296 := by
        rw [h.ack]
        dsimp only
        rw [htake, ntohl_htonl]
      refine ⟨hs.acking, ⟨records', rest, hin', fun p hp => hle p (List.mem_cons_of_mem _ hp), fun hne => ?_⟩, ?_, ?_⟩
      · obtain ⟨hrest, hlast⟩ := hrun hne
        refine ⟨hrest, ?_⟩
        rw [← hlast]
        cases records' with
        | nil => exact hack
        | cons p records' => rw [List.getLast?_cons_cons]; simp [List.getLast?_cons]
      · rw [hack]
        exact Nat.le_trans (Nat.mod_le _ _) (hle pos List.mem_cons_self)
      · rw [hack]
        exact .inr (Nat.mod_lt _ (by decide))
    | sends hk hblock hfile hfill h =>
      have hack : sender.ack = s.sender.ack := h.ack
      refine ⟨hs.acking, ⟨records, rest, hin, hle, ?_⟩, ?_, ?_⟩
      · exact hack ▸ hrun
      · exact hack ▸ hs.ack_le
      · exact hack ▸ hs.ack_lt
  | receiver hne h =>
    obtain ⟨hrest, hlast⟩ := hrun hne
    have hmoves := h.acks hs.acking
    have hacking := h.acking hs.acking
    cases hmoves with
    | same hpos hrest' =>
      rw [List.append_nil]
      refine ⟨hacking, ⟨records, rest, hin, fun p hp => Nat.le_trans (hle p hp) hpos, fun hne' => ?_⟩,
        Nat.le_trans hs.ack_le hpos, hs.ack_lt⟩
      exact ⟨hrest.trans (hrest' hne').1.symm, hlast.trans (hrest' hne').2.symm⟩
    | @starts k hpos hk hnone hrest' =>
      rw [hnone] at hrest
      rw [hrest] at hin
      refine ⟨hacking, ⟨records ++ [s.receiver.pos], _, hin.append length_htonl s.receiver.pos hk, fun p hp => ?_,
        fun hne' => ?_⟩, hpos ▸ hs.ack_le, hs.ack_lt⟩
      · rw [hpos]
        rcases List.mem_append.mp hp with hp | hp
        · exact hle p hp
        · exact Nat.le_of_eq (List.mem_singleton.mp hp)
      · rw [List.getLast?_concat]
        exact ⟨(hrest' hne').1.symm, (hrest' hne').2.symm⟩
    | @continues k hpos hrest' =>
      rw [hrest] at hin
      refine ⟨hacking, ⟨records, _, hin.write k, hpos ▸ hle, fun hne' => ?_⟩, hpos ▸ hs.ack_le, hs.ack_lt⟩
      exact ⟨(hrest' hne').1.symm, hlast.trans (hrest' hne').2.symm⟩
  | @reads sender receiver _ _ hsender hreceiver =>
    have hack : sender.ack = s.sender.ack := hsender.ack
    have hpos : receiver.pos = s.receiver.pos := hreceiver.pos_eq
    refine ⟨hreceiver.acking hs.acking, ⟨records, rest, hin, hpos ▸ hle, fun hne => ?_⟩, ?_, ?_⟩
    · obtain ⟨hrest, hlast⟩ := hreceiver.acks hne
      rw [hack, hrest, hlast o]
      exact hrun (hreceiver.running hne).1
    · rw [hack, hpos]
      exact hs.ack_le
    · exact hack ▸ hs.ack_lt

end Wirc
