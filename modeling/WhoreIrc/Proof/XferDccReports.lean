import WhoreIrc.Proof.CString
import WhoreIrc.Proof.XferDcc

/-!
# What the user is told of a file sent with DCC

A report is read as it is written (`childRead_code`). What is told once all
reports in the pipe are read (`XferRecv.Told`) is what the child has done, in
every state of a transfer; so a transfer that is shown as done is one of which
the file has arrived.
-/

namespace Wirc

open Framework

variable {file : List Byte} {gcryMdRead : List Byte → List Byte}

/-! ## Reports -/

theorem xferReport_text (pos : Nat) (status : XferStatus) (error : XferError) :
    (UInt8.ofNat (xferStatuses.idxOf status + 48) :: UInt8.ofNat (xferErrors.idxOf error + 48) ::
      fmtNatDigits 32 pos).length = (fmtNatDigits 32 pos).length + 2 := rfl

theorem length_reportCode (report : XferReport) : report.code.length = xferReportSize := by
  have hlen := fmtNatDigits_length_ge 32 report.pos
  rw [XferReport.code, xferNetworkWritePipe, snprintf, List.length_append, List.length_take, xferReport_text]
  simp only [xferReportSize, List.length_cons, List.length_nil]
  omega

theorem xferStatuses_get (status : XferStatus) :
    xferStatuses[(UInt8.ofNat (xferStatuses.idxOf status + 48)).toNat - 48]? = some status := by
  cases status <;> rfl

theorem xferErrors_get (error : XferError) :
    xferErrors[(UInt8.ofNat (xferErrors.idxOf error + 48)).toNat - 48]? = some error := by
  cases error <;> rfl

theorem reportCode_cons (report : XferReport) :
    report.code = UInt8.ofNat (xferStatuses.idxOf report.status + 48) ::
      UInt8.ofNat (xferErrors.idxOf report.error + 48) :: ((fmtNatDigits 32 report.pos).take 32 ++ [0]) := rfl

/-- The text of a position is read as the position. -/
theorem scanLlu_reportCode {report : XferReport} (hpos : report.pos < 18446744073709551616) :
    scanLlu (cString (report.code.drop 2)) = report.pos := by
  have hdigits := fmtNatDigits_digits 32 report.pos
  have hlen : (fmtNatDigits 32 report.pos).length ≤ 32 :=
    fmtNatDigits_length_le (by decide) (Nat.le_refl 32) (Nat.lt_trans hpos (by decide))
  have hzero : (0 : Byte) ∉ fmtNatDigits 32 report.pos := fun h => absurd (hdigits 0 h) (by decide)
  have htext : (cString (report.code.drop 2)).val = fmtNatDigits 32 report.pos := by
    rw [reportCode_cons, List.drop_succ_cons, List.drop_succ_cons, List.drop_zero, List.take_of_length_le hlen]
    exact cString_append hzero []
  have hspace : (fmtNatDigits 32 report.pos).dropWhile isspace = fmtNatDigits 32 report.pos := by
    cases hs : fmtNatDigits 32 report.pos with
    | nil => rfl
    | cons c s =>
      refine List.dropWhile_cons_of_neg ?_
      rw [isspace_of_isdigit (hdigits c (hs ▸ List.mem_cons_self))]
      exact Bool.false_ne_true
  rw [scanLlu, htext, hspace, List.takeWhile_eq_self_iff.mpr hdigits, digitsVal_fmtNatDigits]
  exact Nat.min_eq_left (Nat.le_of_lt_succ hpos)

/-- What the process knows after a report. -/
def XferParent.told (xfer : XferParent) (report : XferReport) : XferParent :=
  xferChildStatus (xferChildError { xfer with pos := scanLlu (cString (report.code.drop 2)) } (some report.error))
    (some report.error) (some report.status)

theorem childRead_code (xfer : XferParent) (report : XferReport) :
    xferNetworkChildReadCb xfer report.code = xfer.told report := by
  have hstatus := xferStatuses_get report.status
  have herror := xferErrors_get report.error
  have hne : report.code ≠ [] := by
    rw [reportCode_cons]
    exact List.cons_ne_nil _ _
  rw [xferNetworkChildReadCb, if_neg hne, XferParent.told]
  have hget0 : report.code.getD 0 0 = UInt8.ofNat (xferStatuses.idxOf report.status + 48) := rfl
  have hget1 : report.code.getD 1 0 = UInt8.ofNat (xferErrors.idxOf report.error + 48) := rfl
  rw [hget0, hget1, hstatus, herror]

theorem XferParent.read_closed {xfer : XferParent} (h : xfer.hookFd = false) (reports : List XferReport) :
    reports.foldl XferParent.read xfer = xfer := by
  induction reports with
  | nil => rfl
  | cons report reports ih =>
    rw [List.foldl_cons]
    have hread : xfer.read report = xfer := if_neg (by rw [h]; exact Bool.false_ne_true)
    rw [hread, ih]

theorem XferParent.read_open {xfer : XferParent} (h : xfer.hookFd = true) (report : XferReport) :
    xfer.read report = xfer.told report := by
  rw [XferParent.read, if_pos h, childRead_code]

/-- A report in the pipe is read whole. -/
theorem read_pipe {reports : List XferReport} {xfer : XferParent} {pipe : List Byte}
    (hpipe : pipe = reports.flatMap XferReport.code) (hopen : xfer.hookFd = true) :
    ∃ reports' : List XferReport, pipe.drop xferReportSize = reports'.flatMap XferReport.code ∧
      reports'.foldl XferParent.read (xferNetworkChildReadCb xfer (pipe.take xferReportSize)) =
        reports.foldl XferParent.read xfer := by
  cases reports with
  | nil =>
    rw [List.flatMap_nil] at hpipe
    subst hpipe
    exact ⟨[], rfl, rfl⟩
  | cons report reports =>
    rw [List.flatMap_cons] at hpipe
    have hlen := length_reportCode report
    refine ⟨reports, ?_, ?_⟩
    · rw [hpipe, List.drop_left' hlen]
    · rw [hpipe, List.take_left' hlen, List.foldl_cons, XferParent.read, if_pos hopen]

/-! ## What is told of the child that receives -/

/-- The hash that is told is that of the bytes given to it. -/
def XferRecv.HashTold (gcryMdRead : List Byte → List Byte) (xfer : XferRecv) (told : XferParent) : Prop :=
  ∀ hash, xfer.hashHandle = some hash → told.hashStatus = xfer.hashVerdict gcryMdRead hash

/-- What is known of the child once all its reports are read. -/
structure XferRecv.Told (gcryMdRead : List Byte → List Byte) (xfer : XferRecv) (told : XferParent) : Prop where
  running : xfer.point ≠ .returned → told.hookFd = true ∧ told.status ≠ .done
  complete : ∀ totalSent, xfer.point = .sendAck totalSent true → xfer.size ≤ xfer.pos ∧ xfer.HashTold gcryMdRead told
  done : told.status = .done → told.hookFd = false ∧ xfer.size ≤ xfer.pos ∧ xfer.HashTold gcryMdRead told ∧
    (xfer.pos < 18446744073709551616 → told.pos = xfer.pos)

/-- Only the end of the transfer closes the pipe. -/
theorem XferParent.told_hookFd {xfer : XferParent} {report : XferReport}
    (h : report.status ≠ .done ∧ report.status ≠ .failed) : (xfer.told report).hookFd = xfer.hookFd := by
  obtain ⟨pos, status, error⟩ := report
  have herror : ∀ xfer : XferParent, (xferChildError xfer (some error)).hookFd = xfer.hookFd := by
    intro xfer
    cases error <;> rfl
  rw [XferParent.told]
  cases status with
  | done => exact absurd rfl h.1
  | failed => exact absurd rfl h.2
  | active =>
    simp only [xferChildStatus]
    split <;> exact herror _
  | hashed =>
    simp only [xferChildStatus]
    split <;> exact herror _
  | connecting => exact herror _
  | hashing => exact herror _
  | waiting => exact herror _
  | aborted => exact herror _

theorem XferParent.told_done {xfer : XferParent} {report : XferReport} (hdone : xfer.status ≠ .done)
    (h : report.status ≠ .done) : (xfer.told report).status ≠ .done := by
  obtain ⟨pos, status, error⟩ := report
  have herror : ∀ xfer : XferParent, xfer.status ≠ .done → (xferChildError xfer (some error)).status ≠ .done := by
    intro xfer hxfer
    cases error <;> exact hxfer
  rw [XferParent.told]
  cases status with
  | done => exact absurd rfl h
  | active =>
    simp only [xferChildStatus]
    split
    · exact nofun
    · exact herror _ hdone
  | hashed =>
    simp only [xferChildStatus]
    split <;> exact herror _ hdone
  | connecting => exact nofun
  | hashing => exact nofun
  | failed => exact nofun
  | waiting => exact herror _ hdone
  | aborted => exact herror _ hdone

/-- Reports of a child that goes on. -/
theorem read_running {reports : List XferReport} {told : XferParent}
    (h : ∀ report ∈ reports, report.status ≠ .done ∧ report.status ≠ .failed) (hopen : told.hookFd = true)
    (hdone : told.status ≠ .done) :
    (reports.foldl XferParent.read told).hookFd = true ∧ (reports.foldl XferParent.read told).status ≠ .done := by
  induction reports generalizing told with
  | nil => exact ⟨hopen, hdone⟩
  | cons report reports ih =>
    have hreport := h report List.mem_cons_self
    rw [List.foldl_cons, XferParent.read_open hopen]
    exact ih (fun r hr => h r (List.mem_cons_of_mem _ hr)) ((XferParent.told_hookFd hreport).trans hopen)
      (XferParent.told_done hdone hreport.1)

/-- Reports that the child is active. -/
theorem read_active {reports : List XferReport} {told : XferParent}
    (h : ∀ report ∈ reports, report.status = .active ∧ report.error = .noError) (hopen : told.hookFd = true) :
    (reports.foldl XferParent.read told).hashStatus = told.hashStatus := by
  induction reports generalizing told with
  | nil => rfl
  | cons report reports ih =>
    obtain ⟨hstatus, herror⟩ := h report List.mem_cons_self
    have htold : (told.read report).hookFd = true ∧ (told.read report).hashStatus = told.hashStatus := by
      rw [XferParent.read_open hopen, XferParent.told, hstatus, herror]
      by_cases hconnecting : told.status = .connecting
      · simp [xferChildError, xferChildStatus, hconnecting, hopen]
      · simp [xferChildError, xferChildStatus, hconnecting, hopen]
    rw [List.foldl_cons, ih (fun r hr => h r (List.mem_cons_of_mem _ hr)) htold.1]
    exact htold.2

theorem XferRecv.HashTold.congr {xfer xfer' : XferRecv} {told : XferParent} (h : xfer.HashTold gcryMdRead told)
    (hhandle : xfer'.hashHandle = xfer.hashHandle) (htarget : xfer'.hashTarget = xfer.hashTarget) :
    xfer'.HashTold gcryMdRead told := by
  intro hash hh
  rw [hhandle] at hh
  rw [h hash hh, XferRecv.hashVerdict, XferRecv.hashVerdict, htarget]

theorem XferParent.told_match (told : XferParent) (pos : Nat) :
    ∃ pos', told.told ⟨pos, .hashed, .noError⟩ = { told with pos := pos', hashStatus := .match' } :=
  ⟨_, by simp only [XferParent.told, xferChildError, xferChildStatus, if_true]; rfl⟩

theorem XferParent.told_mismatch (told : XferParent) (pos : Nat) :
    ∃ pos', told.told ⟨pos, .hashed, .hashMismatch⟩ = { told with pos := pos', hashStatus := .mismatch } :=
  ⟨_, by simp only [XferParent.told, xferChildError, xferChildStatus, Option.some.injEq, reduceCtorEq, if_false]; rfl⟩

/-- The reports of the hash. -/
theorem XferRecv.hashReports_told (xfer : XferRecv) {told : XferParent} (hopen : told.hookFd = true) :
    ((xfer.hashReports gcryMdRead).foldl XferParent.read told).hookFd = true ∧
      ((xfer.hashReports gcryMdRead).foldl XferParent.read told).status = told.status ∧
      xfer.HashTold gcryMdRead ((xfer.hashReports gcryMdRead).foldl XferParent.read told) := by
  cases hhash : xfer.hashHandle with
  | none =>
    rw [XferRecv.hashReports_none hhash]
    refine ⟨hopen, rfl, fun hash h => ?_⟩
    rw [hhash] at h
    cases h
  | some hash =>
    rw [XferRecv.hashReports_some hhash, List.foldl_cons, List.foldl_nil, XferParent.read_open hopen]
    split
    next hmatch =>
      obtain ⟨pos', heq⟩ := told.told_match xfer.pos
      rw [heq]
      refine ⟨hopen, rfl, fun hash' h => ?_⟩
      rw [hhash] at h
      cases h
      exact (if_pos hmatch).symm
    next hmatch =>
      obtain ⟨pos', heq⟩ := told.told_mismatch xfer.pos
      rw [heq]
      refine ⟨hopen, rfl, fun hash' h => ?_⟩
      rw [hhash] at h
      cases h
      exact (if_neg hmatch).symm

/-- A step of the child that only tells that it is active. -/
theorem XferRecv.Told.keeps {xfer xfer' : XferRecv} {told : XferParent} (ht : xfer.Told gcryMdRead told)
    (hrun : xfer.point ≠ .returned) (hpipe : ∃ reports, xfer.Reports xfer' reports ∧
      ∀ report ∈ reports, report.status = .active ∧ report.error = .noError)
    (hcomplete : ∀ totalSent, xfer'.point = .sendAck totalSent true →
      xfer'.size ≤ xfer'.pos ∧ xfer'.HashTold gcryMdRead told) :
    ∃ reports, xfer.Reports xfer' reports ∧ xfer'.Told gcryMdRead (reports.foldl XferParent.read told) := by
  obtain ⟨reports, hreports, hactive⟩ := hpipe
  obtain ⟨hopen, hdone⟩ := ht.running hrun
  have hrunning : ∀ report ∈ reports, report.status ≠ .done ∧ report.status ≠ .failed := fun report h => by
    rw [(hactive report h).1]
    exact ⟨nofun, nofun⟩
  obtain ⟨hopen', hdone'⟩ := read_running hrunning hopen hdone
  have hhash' := read_active hactive hopen
  refine ⟨reports, hreports, fun _ => ⟨hopen', hdone'⟩, fun totalSent hpoint => ?_, fun h => absurd h hdone'⟩
  obtain ⟨hsize, hhash⟩ := hcomplete totalSent hpoint
  exact ⟨hsize, fun hash h => hhash'.trans (hhash hash h)⟩

theorem XferRecv.Moves.told {xfer xfer' : XferRecv} {data data' sent : List Byte} {told : XferParent}
    (h : xfer.Moves gcryMdRead data xfer' data' sent) (hrun : xfer.point ≠ .returned) (ht : xfer.Told gcryMdRead told) :
    ∃ reports, xfer.Reports xfer' reports ∧ xfer'.Told gcryMdRead (reports.foldl XferParent.read told) := by
  obtain ⟨hopen, hdone⟩ := ht.running hrun
  cases h with
  | @fails error herror =>
    refine ⟨_, xfer.report_pipe .failed error, fun hne => absurd rfl hne, nofun, fun h => ?_⟩
    rw [List.foldl_cons, List.foldl_nil, XferParent.read_open hopen, XferParent.told] at h
    cases error <;> simp [xferChildError, xferChildStatus, xferClose] at h
  | connects h _ hpoint' => exact ht.keeps hrun h.pipe (by simp [hpoint'])
  | polls h _ hpoint' => exact ht.keeps hrun h.pipe (by rcases hpoint' with hpoint' | hpoint' <;> simp [hpoint'])
  | waits h _ hpoint' => exact ht.keeps hrun h.pipe (by simp [hpoint'])
  | needsAck h _ hpoint' _ _ => exact ht.keeps hrun h.pipe (by simp [hpoint'])
  | needsNoAck h _ hpoint' _ => exact ht.keeps hrun h.pipe (by simp [hpoint'])
  | receives h _ hpoint' _ => exact ht.keeps hrun h.pipe (by simp [hpoint'])
  | writes h _ hpoint' _ => exact ht.keeps hrun h.pipe (by simp [hpoint'])
  | received h _ hpoint' => exact ht.keeps hrun h.pipe (by simp [hpoint'])
  | @completes _ buffer hpoint hpoint' hsize hpos h hreports =>
    obtain ⟨hopen', hstatus', hhash⟩ :=
      XferRecv.hashReports_told ({ xfer with pos := xfer.pos + buffer.length } : XferRecv) hopen
    rw [← hstatus'] at hdone
    refine ⟨_, hreports, fun _ => ⟨hopen', hdone⟩, fun _ _ => ⟨?_, hhash.congr h.hashHandle h.hashTarget⟩,
      fun h => absurd h hdone⟩
    rw [hpos, h.size]
    exact hsize
  | sendsAck h hpoint hpoint' _ _ =>
    refine ht.keeps hrun h.pipe fun totalSent hp => ?_
    rw [hpoint'] at hp
    cases hp
    obtain ⟨hsize, hhash⟩ := ht.complete _ hpoint
    refine ⟨?_, hhash.congr h.hashHandle h.hashTarget⟩
    rw [h.size, h.pos]
    exact hsize
  | acked h _ hpoint' _ => exact ht.keeps hrun h.pipe (by simp [hpoint'])
  | disablesAck h _ hpoint' => exact ht.keeps hrun h.pipe (by simp [hpoint'])
  | done hpoint _ =>
    obtain ⟨hsize, hhash⟩ := ht.complete _ hpoint
    refine ⟨_, xfer.report_pipe .done .noError, fun hne => absurd rfl hne, nofun, fun _ => ?_⟩
    rw [List.foldl_cons, List.foldl_nil, XferParent.read_open hopen, XferParent.told]
    refine ⟨Bool.and_false _, hsize, hhash, fun hpos => ?_⟩
    exact scanLlu_reportCode hpos

/-- What the user is told of the receiver, in a state of the transfer. -/
structure XferDcc.Reported (gcryMdRead : List Byte → List Byte) (s : XferDcc) : Prop where
  told : ∃ reports : List XferReport, s.receiver.pipe = reports.flatMap XferReport.code ∧
    s.receiver.Told gcryMdRead (reports.foldl XferParent.read s.receiverXfer)
  hookFd : s.receiverXfer.hookFd = true → s.receiverXfer.status ≠ .done

/-- A transfer of which the pipe is open is not shown as done. -/
theorem XferParent.told_open {xfer : XferParent} {report : XferReport} (hdone : xfer.status ≠ .done)
    (hopen : (xfer.told report).hookFd = true) : (xfer.told report).status ≠ .done := by
  refine XferParent.told_done hdone fun h => ?_
  rw [XferParent.told, h] at hopen
  exact absurd hopen (by simp [xferChildStatus, xferClose, xferHasEnded])

/-- The first report is read: a transfer of which the pipe is still open is not shown as done. -/
theorem read_hookFd {reports : List XferReport} {xfer : XferParent} {pipe : List Byte}
    (hpipe : pipe = reports.flatMap XferReport.code) (hdone : xfer.status ≠ .done)
    (hopen : (xferNetworkChildReadCb xfer (pipe.take xferReportSize)).hookFd = true) :
    (xferNetworkChildReadCb xfer (pipe.take xferReportSize)).status ≠ .done := by
  cases reports with
  | nil =>
    rw [hpipe, List.flatMap_nil, List.take_nil]
    exact hdone
  | cons report reports =>
    have hcode : pipe.take xferReportSize = report.code := by
      rw [hpipe, List.flatMap_cons, List.take_left' (length_reportCode report)]
    rw [hcode, childRead_code] at hopen ⊢
    exact XferParent.told_open hdone hopen

/-- A child that is killed because its transfer is closed. -/
theorem XferRecv.Told.killed {xfer : XferRecv} {reports : List XferReport} {parent : XferParent} (pipe : List Byte)
    (ht : xfer.Told gcryMdRead (reports.foldl XferParent.read parent)) :
    (XferRecv.killed { xfer with pipe } parent).Told gcryMdRead (reports.foldl XferParent.read parent) := by
  unfold XferRecv.killed
  split
  · exact ⟨ht.running, ht.complete, ht.done⟩
  · exact ⟨fun hne => absurd rfl hne, nofun, ht.done⟩

theorem XferRecv.killed_pipe (xfer : XferRecv) (parent : XferParent) : (xfer.killed parent).pipe = xfer.pipe := by
  unfold XferRecv.killed
  split <;> rfl

/-- A transfer that the user stops: no report is read any more. -/
theorem xferClose_aborted (xfer : XferParent) :
    (xferClose xfer .aborted).hookFd = false ∧ (xferClose xfer .aborted).status ≠ .done := by
  refine ⟨Bool.and_false _, fun h => ?_⟩
  cases h

theorem XferRecv.told_aborted (xfer : XferRecv) (parent : XferParent) (reports : List XferReport) :
    (xfer.killed (xferClose parent .aborted)).Told gcryMdRead
      (reports.foldl XferParent.read (xferClose parent .aborted)) := by
  obtain ⟨hclosed, hdone⟩ := xferClose_aborted parent
  have hpoint : (xfer.killed (xferClose parent .aborted)).point = .returned := by
    rw [XferRecv.killed, if_neg (by rw [hclosed]; exact Bool.false_ne_true)]
  rw [XferParent.read_closed hclosed]
  refine ⟨fun hne => absurd hpoint hne, fun _ h => ?_, fun h => absurd h hdone⟩
  rw [hpoint] at h
  cases h

theorem XferDcc.step_reported {s s' : XferDcc} {event : XferEvent} (h : s.step file gcryMdRead event = some s')
    (hs : s.Reported gcryMdRead) : s'.Reported gcryMdRead := by
  obtain ⟨reports, hpipe, ht⟩ := hs.told
  cases event with
  | sender event =>
    obtain ⟨sender, acks, sent, -, rfl⟩ := XferDcc.step_sender h
    exact ⟨hs.told, hs.hookFd⟩
  | receiver event =>
    obtain ⟨receiver, data, sent, hstep, rfl⟩ := XferDcc.step_receiver h
    obtain ⟨reports', hreports, ht'⟩ := (XferRecv.step_moves hstep).told (XferRecv.step_running hstep) ht
    refine ⟨⟨reports ++ reports', ?_, ?_⟩, hs.hookFd⟩
    · rw [hreports, hpipe, List.flatMap_append]
    · rw [List.foldl_append]
      exact ht'
  | senderReport =>
    obtain ⟨-, senderXfer, -, rfl⟩ := XferDcc.step_senderReport h
    exact ⟨hs.told, hs.hookFd⟩
  | senderAbort =>
    obtain ⟨-, senderXfer, -, rfl⟩ := XferDcc.step_senderAbort h
    exact ⟨hs.told, hs.hookFd⟩
  | receiverReport =>
    obtain ⟨hopen, receiverXfer, rfl, rfl⟩ := XferDcc.step_receiverReport h
    obtain ⟨reports', hpipe', heq⟩ := read_pipe hpipe hopen
    rw [← heq] at ht
    refine ⟨⟨reports', ?_, ht.killed _⟩, read_hookFd hpipe (hs.hookFd hopen)⟩
    rw [XferRecv.killed_pipe]
    exact hpipe'
  | receiverAbort =>
    obtain ⟨-, receiverXfer, rfl, rfl⟩ := XferDcc.step_receiverAbort h
    refine ⟨⟨reports, ?_, s.receiver.told_aborted _ reports⟩, fun _ => (xferClose_aborted _).2⟩
    rw [XferRecv.killed_pipe]
    exact hpipe

/-! ## What is told of the child that sends -/

/-- The reports added to the pipe. -/
def XferSend.Reports (xfer xfer' : XferSend) (reports : List XferReport) : Prop :=
  xfer'.pipe = xfer.pipe ++ reports.flatMap XferReport.code

/-- What is known of the child once all its reports are read. -/
structure XferSend.Told (xfer : XferSend) (told : XferParent) : Prop where
  sentOk : xfer.sentOk ≠ 0 → xfer.size ≤ xfer.pos
  running : xfer.point ≠ .returned → told.hookFd = true ∧ told.status ≠ .done
  done : told.status = .done →
    told.hookFd = false ∧ xfer.size ≤ xfer.pos ∧ (xfer.size ≤ xfer.ack ∨ xfer.sentOk ≠ 0)

theorem XferSend.report_pipe (xfer : XferSend) (status : XferStatus) (error : XferError) :
    xfer.Reports (xfer.report status error) [⟨xfer.pos, status, error⟩] := by
  rw [XferSend.Reports, List.flatMap_cons, List.flatMap_nil, List.append_nil]
  rfl

/-- The child goes on. -/
theorem XferSend.told_goes {xfer xfer' : XferSend} {told : XferParent} {reports : List XferReport}
    (hpipe : xfer.Reports xfer' reports) (hreports : ∀ report ∈ reports, report.status = .active)
    (hsentOk : xfer'.sentOk ≠ 0 → xfer'.size ≤ xfer'.pos) (hopen : told.hookFd = true) (hdone : told.status ≠ .done) :
    ∃ reports, xfer.Reports xfer' reports ∧ xfer'.Told (reports.foldl XferParent.read told) := by
  have hrunning : ∀ report ∈ reports, report.status ≠ .done ∧ report.status ≠ .failed := fun report h => by
    rw [hreports report h]
    exact ⟨nofun, nofun⟩
  obtain ⟨hopen', hdone'⟩ := read_running hrunning hopen hdone
  exact ⟨reports, hpipe, hsentOk, fun _ => ⟨hopen', hdone'⟩, fun h => absurd h hdone'⟩

/-- Without a report. -/
theorem XferSend.told_silent {xfer xfer' : XferSend} {told : XferParent} (hpipe : xfer'.pipe = xfer.pipe)
    (hsentOk : xfer'.sentOk ≠ 0 → xfer'.size ≤ xfer'.pos) (hopen : told.hookFd = true) (hdone : told.status ≠ .done) :
    ∃ reports, xfer.Reports xfer' reports ∧ xfer'.Told (reports.foldl XferParent.read told) := by
  have hnone : xfer.Reports xfer' [] := hpipe.trans (List.append_nil _).symm
  exact XferSend.told_goes hnone (fun _ h => absurd h List.not_mem_nil) hsentOk hopen hdone

/-- The child returns with an error. -/
theorem XferSend.told_fails (xfer : XferSend) {told : XferParent} (error : XferError)
    (hsentOk : xfer.sentOk ≠ 0 → xfer.size ≤ xfer.pos) (hopen : told.hookFd = true) (hdone : told.status ≠ .done) :
    ∃ reports, xfer.Reports (xfer.return .failed error) reports ∧
      (xfer.return .failed error).Told (reports.foldl XferParent.read told) := by
  refine ⟨_, xfer.report_pipe .failed error, hsentOk, fun hne => absurd rfl hne, fun h => ?_⟩
  rw [List.foldl_cons, List.foldl_nil, XferParent.read_open hopen] at h
  exact absurd h (XferParent.told_done hdone nofun)

/-- The child returns because the file is sent. -/
theorem XferSend.told_returns (xfer : XferSend) {told : XferParent} (hopen : told.hookFd = true)
    (hsize : xfer.size ≤ xfer.pos) (hok : xfer.size ≤ xfer.ack ∨ xfer.sentOk ≠ 0) :
    ∃ reports, xfer.Reports (xfer.return .done .noError) reports ∧
      (xfer.return .done .noError).Told (reports.foldl XferParent.read told) := by
  refine ⟨_, xfer.report_pipe .done .noError, fun _ => hsize, fun hne => absurd rfl hne, fun _ => ⟨?_, hsize, hok⟩⟩
  rw [List.foldl_cons, List.foldl_nil, XferParent.read_open hopen]
  exact Bool.and_false _

theorem xferDccReadAck_told {xfer : XferSend} {told : XferParent} (acks : List Byte) (numRead : Sys)
    (hsentOk : xfer.sentOk ≠ 0 → xfer.size ≤ xfer.pos) (hopen : told.hookFd = true) (hdone : told.status ≠ .done) :
    ∃ reports, xfer.Reports (xferDccReadAck xfer acks numRead).1 reports ∧
      (xferDccReadAck xfer acks numRead).1.Told (reports.foldl XferParent.read told) := by
  cases numRead with
  | again => exact XferSend.told_silent rfl hsentOk hopen hdone
  | intr => exact xfer.told_fails _ hsentOk hopen hdone
  | error => exact xfer.told_fails _ hsentOk hopen hdone
  | ok n =>
    cases n with
    | zero => exact xfer.told_fails _ hsentOk hopen hdone
    | succ n =>
      unfold xferDccReadAck
      dsimp only
      split
      · split
        next hok =>
          exact ({ xfer with ack := ntohl (acks.take 4) } : XferSend).told_returns hopen hok.1 (.inl hok.2)
        next => exact XferSend.told_silent rfl hsentOk hopen hdone
      · exact XferSend.told_silent rfl hsentOk hopen hdone

theorem XferSend.sent_told {xfer : XferSend} {told : XferParent} (k newTime : Nat)
    (hsentOk : xfer.sentOk ≠ 0 → xfer.size ≤ xfer.pos) (hopen : told.hookFd = true) (hdone : told.status ≠ .done) :
    ∃ reports, xfer.Reports (({ xfer with point := .checkTime } : XferSend).sent k newTime) reports ∧
      (({ xfer with point := .checkTime } : XferSend).sent k newTime).Told (reports.foldl XferParent.read told) := by
  have hgrows : xfer.size ≤ xfer.pos → xfer.size ≤ xfer.pos + k := fun h => Nat.le_add_right_of_le h
  have hpipe (s : XferSend) (hs : s.pipe = xfer.pipe) (s' : XferSend) (hs' : s'.pipe = (s.report .active .noError).pipe) :
      xfer.Reports s' [⟨s.pos, .active, .noError⟩] := by
    have hreport := s.report_pipe .active .noError
    rw [XferSend.Reports, hs] at hreport
    exact hs'.trans hreport
  have hactive (pos : Nat) (report : XferReport) (h : report ∈ [⟨pos, .active, .noError⟩]) :
      report.status = .active := by
    rw [List.mem_singleton.mp h]
  unfold XferSend.sent
  dsimp only
  split
  · split
    next hsize =>
      exact XferSend.told_goes (hpipe { xfer with pos := xfer.pos + k } rfl _ rfl) (hactive _) (fun _ => hsize) hopen hdone
    next =>
      exact XferSend.told_goes (hpipe { xfer with pos := xfer.pos + k } rfl _ rfl) (hactive _)
        (fun h => hgrows (hsentOk h)) hopen hdone
  · exact XferSend.told_silent rfl (fun h => hgrows (hsentOk h)) hopen hdone

theorem xferDccSendBlock_told {xfer : XferSend} {told : XferParent} (numRead numSent : Sys) (newTime : Nat)
    (hsentOk : xfer.sentOk ≠ 0 → xfer.size ≤ xfer.pos) (hopen : told.hookFd = true) (hdone : told.status ≠ .done) :
    ∃ reports, xfer.Reports (xferDccSendBlock file xfer numRead numSent newTime).1 reports ∧
      (xferDccSendBlock file xfer numRead numSent newTime).1.Told (reports.foldl XferParent.read told) := by
  have hpipe : ({ xfer with point := .checkTime } : XferSend).pipe = xfer.pipe := rfl
  have hnext := XferSend.told_silent hpipe hsentOk hopen hdone
  have hfails (error : XferError) := xfer.told_fails error hsentOk hopen hdone
  unfold xferDccSendBlock
  dsimp only
  split
  next =>
    cases numRead with
    | again => exact hfails .readLocal
    | intr => exact hfails .readLocal
    | error => exact hfails .readLocal
    | ok n =>
      cases n with
      | zero => exact hfails .readLocal
      | succ n =>
        cases numSent with
        | again => exact hnext
        | intr => exact hfails .sendBlock
        | error => exact hfails .sendBlock
        | ok k =>
          dsimp only
          split
          · exact XferSend.sent_told k newTime hsentOk hopen hdone
          · exact hnext
  next => exact hnext

theorem xferDccSendTime_told {xfer : XferSend} {told : XferParent} (newTime : Nat)
    (hsentOk : xfer.sentOk ≠ 0 → xfer.size ≤ xfer.pos) (hopen : told.hookFd = true) (hdone : told.status ≠ .done) :
    ∃ reports, xfer.Reports (xferDccSendTime xfer newTime) reports ∧
      (xferDccSendTime xfer newTime).Told (reports.foldl XferParent.read told) := by
  unfold xferDccSendTime
  dsimp only
  split
  · split
    next hok =>
      exact ({ xfer with lastSecond := newTime, sentLastSecond := 0 } : XferSend).told_returns hopen (hsentOk hok.1)
        (.inr hok.1)
    next => exact XferSend.told_silent rfl hsentOk hopen hdone
  · split
    next hok => exact xfer.told_returns hopen (hsentOk hok.1) (.inr hok.1)
    next => exact XferSend.told_silent rfl hsentOk hopen hdone

theorem XferSend.step_told {xfer xfer' : XferSend} {closed : Bool} {acks acks' sent : List Byte} {event : XferSendEvent}
    {told : XferParent} (h : xfer.step file closed acks event = some (xfer', acks', sent)) (ht : xfer.Told told) :
    ∃ reports, xfer.Reports xfer' reports ∧ xfer'.Told (reports.foldl XferParent.read told) := by
  obtain ⟨hopen, hdone⟩ := ht.running (XferSend.step_running h)
  cases event with
  | readAck numRead =>
    rw [XferSend.step] at h
    split at h
    next =>
      cases h
      exact xferDccReadAck_told acks numRead ht.sentOk hopen hdone
    next => cases h
  | sendBlock numRead numSent newTime =>
    rw [XferSend.step] at h
    split at h
    next =>
      cases h
      exact xferDccSendBlock_told numRead numSent newTime ht.sentOk hopen hdone
    next => cases h
  | checkTime newTime =>
    rw [XferSend.step] at h
    split at h
    next =>
      cases h
      exact xferDccSendTime_told newTime ht.sentOk hopen hdone
    next => cases h

end Wirc
