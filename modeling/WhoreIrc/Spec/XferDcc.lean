import WhoreIrc.Framework.Records
import WhoreIrc.Framework.Run
import WhoreIrc.Impl.XferDcc
import WhoreIrc.Spec.Util

/-!
# A transfer between two clients

The child that sends, the child that receives, the processes that read their
reports, and the bytes in flight in both directions: each event is one system
call of a child, one report that is read, or an end of the transfer that the
user asks for. A call takes any result that the system can give: parts of what
is asked, interruptions and errors at any time.
-/

namespace Wirc

open Framework

/-- A report of a child. -/
structure XferReport where
  pos : Nat
  status : XferStatus
  error : XferError
  deriving DecidableEq

def XferReport.code (report : XferReport) : List Byte := xferNetworkWritePipe report.pos report.status report.error

/-- The process that launched the child reads a report, unless it has closed the pipe. -/
def XferParent.read (xfer : XferParent) (report : XferReport) : XferParent :=
  if xfer.hookFd then xferNetworkChildReadCb xfer report.code else xfer

/-! ## Each child -/

inductive XferSendEvent
  | readAck (numRead : Sys)
  | sendBlock (numRead numSent : Sys) (newTime : Nat)
  | checkTime (newTime : Nat)

/-- A step of the child that sends `file`, with the ACKs in flight, and whether the
receiver has closed its socket: the child, the ACKs that are left and the
bytes that are sent. -/
def XferSend.step (file : List Byte) (closed : Bool) (xfer : XferSend) (acks : List Byte) :
    XferSendEvent → Option (XferSend × List Byte × List Byte)
  | .readAck numRead =>
    if xfer.point = .readAck ∧ numRead.Gives fun n => n ≤ 4 ∧ n ≤ acks.length ∧ (n = 0 → closed) then
      let (xfer, acks) := xferDccReadAck xfer acks numRead
      some (xfer, acks, [])
    else none
  | .sendBlock numRead numSent newTime =>
    if xfer.point = .sendBlock ∧
        (numRead.Gives fun n => n ≤ xfer.blocksize ∧ xfer.pos + n ≤ file.length ∧ (n = 0 → file.length ≤ xfer.pos)) ∧
        numSent.Gives (fun k => numRead.Gives fun n => k ≤ n) then
      let (xfer, sent) := xferDccSendBlock file xfer numRead numSent newTime
      some (xfer, acks, sent)
    else none
  | .checkTime newTime => if xfer.point = .checkTime then some (xferDccSendTime xfer newTime, acks, []) else none

inductive XferRecvEvent
  | connect (ok : Bool) (now : Nat)
  | poll (ready : Sys)
  | recv (numRead : Sys) (newTime : Nat)
  | write (written : Sys)
  | received (newTime newTime' : Nat)
  | sendAck (numSent : Sys)

/-- A step of the child that receives, with the bytes in flight, and whether the
sender has closed its socket: the child, the bytes that are left and the bytes
of ACKs that are sent. -/
def XferRecv.step (gcryMdRead : List Byte → List Byte) (closed : Bool) (xfer : XferRecv) (data : List Byte)
    (event : XferRecvEvent) : Option (XferRecv × List Byte × List Byte) :=
  match xfer.point, event with
  | .connect, .connect ok now => some (xferDccConnect xfer ok now, data, [])
  | .poll, .poll ready =>
    if ready.Gives fun _ => data ≠ [] ∨ closed then some (xferDccPoll xfer ready, data, []) else none
  | .recv, .recv numRead newTime =>
    if numRead.Gives fun n => n ≤ xfer.blocksize ∧ n ≤ data.length ∧ (n = 0 → data = [] ∧ closed) then
      let (xfer, data) := xferDccRecvBlock xfer data numRead newTime
      some (xfer, data, [])
    else none
  | .write buffer totalWritten, .write written =>
    if totalWritten < buffer.length ∧ written.Gives fun n => totalWritten + n ≤ buffer.length then
      some (xferDccWrite xfer buffer totalWritten written, data, [])
    else none
  | .write buffer totalWritten, .received newTime newTime' =>
    if totalWritten = buffer.length then
      some (xferDccReceived gcryMdRead xfer buffer.length newTime newTime', data, [])
    else none
  | .sendAck totalSent fileOk, .sendAck numSent =>
    if totalSent < 4 ∧ numSent.Gives fun n => totalSent + n ≤ 4 then
      some (xferDccSendAck xfer totalSent fileOk numSent, data, xferAckSent xfer.pos totalSent numSent)
    else none
  | _, _ => none

/-! ## The transfer -/

structure XferDcc where
  sender : XferSend
  receiver : XferRecv
  /-- The bytes of the file in flight. -/
  data : List Byte
  /-- The bytes of ACKs in flight. -/
  acks : List Byte
  senderXfer : XferParent
  receiverXfer : XferParent

inductive XferEvent
  | sender (event : XferSendEvent)
  | receiver (event : XferRecvEvent)
  | senderReport
  | receiverReport
  | senderAbort
  | receiverAbort

/-- The child is killed when its transfer is closed. -/
def XferSend.killed (xfer : XferSend) (parent : XferParent) : XferSend :=
  if parent.hookFd then xfer else { xfer with point := .returned }

def XferRecv.killed (xfer : XferRecv) (parent : XferParent) : XferRecv :=
  if parent.hookFd then xfer else { xfer with point := .returned }

section

variable (file : List Byte) (gcryMdRead : List Byte → List Byte)

def XferDcc.step (s : XferDcc) : XferEvent → Option XferDcc
  | .sender event => do
    let (sender, acks, sent) ← s.sender.step file (s.receiver.point = .returned) s.acks event
    return { s with sender, acks, data := s.data ++ sent }
  | .receiver event => do
    let (receiver, data, sent) ← s.receiver.step gcryMdRead (s.sender.point = .returned) s.data event
    return { s with receiver, data, acks := s.acks ++ sent }
  | .senderReport =>
    if s.senderXfer.hookFd then
      let senderXfer := xferNetworkChildReadCb s.senderXfer (s.sender.pipe.take xferReportSize)
      let sender := { s.sender with pipe := s.sender.pipe.drop xferReportSize }
      some { s with senderXfer, sender := sender.killed senderXfer }
    else none
  | .receiverReport =>
    if s.receiverXfer.hookFd then
      let receiverXfer := xferNetworkChildReadCb s.receiverXfer (s.receiver.pipe.take xferReportSize)
      let receiver := { s.receiver with pipe := s.receiver.pipe.drop xferReportSize }
      some { s with receiverXfer, receiver := receiver.killed receiverXfer }
    else none
  | .senderAbort =>
    if s.senderXfer.hookFd then
      let senderXfer := xferClose s.senderXfer .aborted
      some { s with senderXfer, sender := s.sender.killed senderXfer }
    else none
  | .receiverAbort =>
    if s.receiverXfer.hookFd then
      let receiverXfer := xferClose s.receiverXfer .aborted
      some { s with receiverXfer, receiver := s.receiver.killed receiverXfer }
    else none

end

/-- The options and files of both sides; `startResume` is the position that both
have agreed on, 0 for a whole file. -/
structure XferOptions where
  size : Nat
  startResume : Nat
  fastSend : Bool
  blocksize : Nat
  speedLimitSend : Nat
  sendAck : Bool
  speedLimitRecv : Nat
  localFile : List Byte
  hash : Bool
  hashTarget : Str
  resumeHash : Bool
  /-- The time when the sender starts. -/
  now : Nat

/-- The sender has accepted the connection, the receiver has launched its child. -/
def XferOptions.start (o : XferOptions) : XferDcc :=
  { sender := xferDccSendFileStart o.size o.startResume o.startResume o.fastSend o.blocksize o.speedLimitSend o.now
    receiver :=
      xferDccRecvFileStart o.size o.startResume o.sendAck o.speedLimitRecv o.localFile o.hash o.hashTarget o.resumeHash
    data := []
    acks := []
    senderXfer :=
      { status := .active
        hashStatus := .unknown
        pos := o.startResume
        hookFd := true }
    receiverXfer :=
      { status := .connecting
        hashStatus := if o.hash then .inProgress else .unknown
        pos := o.startResume
        hookFd := true } }

/-- What the receiver has of the file when the transfer starts. -/
def XferOptions.part (o : XferOptions) : List Byte := if 0 < o.startResume then o.localFile else []

/-- The position agreed on is the end of what the receiver has, and is in the file. -/
structure XferOptions.Agreed (o : XferOptions) (file : List Byte) : Prop where
  part : o.part.length = o.startResume
  start_le : o.startResume ≤ file.length

/-- The states of a transfer of `file`. -/
def XferRun (file : List Byte) (gcryMdRead : List Byte → List Byte) (o : XferOptions) (s : XferDcc) : Prop :=
  ∃ events : List XferEvent, events.foldlM (XferDcc.step file gcryMdRead) o.start = some s

/-- What the receiver should have of the file when the sender is at a position. -/
def XferOptions.stream (o : XferOptions) (file : List Byte) (pos : Nat) : List Byte :=
  o.part ++ (file.take pos).drop o.startResume

/-- The bytes that are received and not written. -/
def XferRecv.unwritten (xfer : XferRecv) : List Byte :=
  match xfer.point with
  | .write buffer totalWritten => buffer.drop totalWritten
  | _ => []

/-- The bytes of the block received last that are on disk, and not in the position yet. -/
def XferRecv.written (xfer : XferRecv) : Nat :=
  match xfer.point with
  | .write _ totalWritten => totalWritten
  | _ => 0

/-- The bytes of an ACK that are sent, when it is not sent to its end. -/
def XferRecv.ackSent (xfer : XferRecv) : Nat :=
  match xfer.point with
  | .sendAck totalSent _ => totalSent
  | _ => 0

/-- The rest of an ACK of which a part is sent. -/
def XferRecv.ackRest (xfer : XferRecv) : List Byte := if xfer.ackSent = 0 then [] else xferAckRest xfer.pos xfer.ackSent

/-- The number in the last ACK of which a part is sent; before the first ACK the
position where the sender starts. -/
def XferRecv.lastAck (o : XferOptions) (xfer : XferRecv) : Nat :=
  if xfer.ackSent ≠ 0 then xfer.pos % 4294967296
  else if xfer.posLastAck = 0 then o.startResume
  else xfer.posLastAck % 4294967296

/-- What the hash of the bytes tells. -/
def XferRecv.hashVerdict (gcryMdRead : List Byte → List Byte) (xfer : XferRecv) (hash : List Byte) : XferHashStatus :=
  if stringStrcasecmp (xferHash gcryMdRead hash) xfer.hashTarget = 0 then .match' else .mismatch

/-- Nothing is in flight and the receiver waits: no ACK can be read, and no block. -/
structure XferDcc.Quiet (s : XferDcc) : Prop where
  data : s.data = []
  acks : s.acks.length < 4
  receiver : s.receiver.point = .poll
  sender : s.sender.point ≠ .returned

end Wirc
