import WhoreIrc.Framework.Digits
import WhoreIrc.Framework.Loop
import WhoreIrc.Impl.Base
import WhoreIrc.Impl.Utf8
import WhoreIrc.Impl.Util

/-!
# Files sent and received with DCC (`plugins/xfer/xfer-dcc.c`)

The child processes that send and receive a file, and the processes that read
what they report. A child runs from one system call to the next: what a call
and `time` return is an argument of the step, and the point of the code where a
child waits is a field. The options, the texts that are printed and the speed
that is shown are left out. A position in a file is a number of less than 64
bits, and no sum of positions is reduced.
-/

namespace Wirc

open Framework

/-! ## Reports of the children (`plugins/xfer/xfer-network.c`) -/

/-- `enum t_xfer_status`. -/
inductive XferStatus
  | waiting | connecting | active | done | failed | aborted | hashing | hashed
  deriving DecidableEq

def xferStatuses : List XferStatus := [.waiting, .connecting, .active, .done, .failed, .aborted, .hashing, .hashed]

/-- `enum t_xfer_error`. -/
inductive XferError
  | noError | readLocal | sendBlock | readAck | connectSender | recvBlock | writeLocal | sendAck | hashMismatch
  | hashResumeError
  deriving DecidableEq

def xferErrors : List XferError :=
  [.noError, .readLocal, .sendBlock, .readAck, .connectSender, .recvBlock, .writeLocal, .sendAck, .hashMismatch,
    .hashResumeError]

/-- `enum t_xfer_hash_status`. -/
inductive XferHashStatus
  | unknown | inProgress | match' | mismatch | resumeError
  deriving DecidableEq

/-- `1 + 1 + 32 + 1`: the size of a report. -/
def xferReportSize : Nat := 35

/-- `xfer_network_write_pipe`: the bytes that are written. -/
def xferNetworkWritePipe (pos : Nat) (status : XferStatus) (error : XferError) : List Byte :=
  snprintf xferReportSize
    (UInt8.ofNat (xferStatuses.idxOf status + 48) :: UInt8.ofNat (xferErrors.idxOf error + 48) :: fmtNatDigits 32 pos)
    ++ [0]

/-- `sscanf (s, "%llu", &pos)`, for a text without sign. -/
def scanLlu (s : Str) : Nat := min (digitsVal 0 ((s.dropWhile isspace).takeWhile isdigit)) 18446744073709551615

/-- What the process that reads the reports knows about the transfer. -/
structure XferParent where
  status : XferStatus
  hashStatus : XferHashStatus
  pos : Nat
  /-- `hook_fd`: the pipe is read. -/
  hookFd : Bool
  deriving DecidableEq

/-- `XFER_HAS_ENDED`. -/
def xferHasEnded (status : XferStatus) : Bool := status = .done || status = .failed || status = .aborted

/-- `xfer_close`: the child is killed and its pipe is closed if the transfer has ended. -/
def xferClose (xfer : XferParent) (status : XferStatus) : XferParent :=
  { xfer with
    status
    hookFd := xfer.hookFd && !xferHasEnded status }

/-- `switch (bufpipe[1] - '0')`. -/
def xferChildError (xfer : XferParent) : Option XferError → XferParent
  | some .hashMismatch => { xfer with hashStatus := .mismatch }
  | some .hashResumeError => { xfer with hashStatus := .resumeError }
  | _ => xfer

/-- `switch (bufpipe[0] - '0')`. -/
def xferChildStatus (xfer : XferParent) (error : Option XferError) : Option XferStatus → XferParent
  | some .connecting => { xfer with status := .connecting }
  | some .active => if xfer.status = .connecting then { xfer with status := .active } else xfer
  | some .done => xferClose xfer .done
  | some .failed => xferClose xfer .failed
  | some .hashing => { xfer with status := .hashing }
  | some .hashed => if error = some .noError then { xfer with hashStatus := .match' } else xfer
  | _ => xfer

/-- `xfer_network_child_read_cb`, with the bytes that are read. -/
def xferNetworkChildReadCb (xfer : XferParent) (bufpipe : List Byte) : XferParent :=
  if bufpipe = [] then xfer
  else
    let error := xferErrors[(bufpipe.getD 1 0).toNat - 48]?
    let xfer := xferChildError { xfer with pos := scanLlu (cString (bufpipe.drop 2)) } error
    xferChildStatus xfer error xferStatuses[(bufpipe.getD 0 0).toNat - 48]?

/-! ## The child that sends the file -/

/-- Where the child waits: in the loop that reads the ACKs, before it sends a
block, or before it reads the time at the end of a round. -/
inductive XferSendPoint
  | readAck | sendBlock | checkTime | returned
  deriving DecidableEq

/-- The variables of `xfer_dcc_send_file_child`. -/
structure XferSend where
  size : Nat
  pos : Nat
  ack : Nat
  fastSend : Bool
  blocksize : Nat
  speedLimit : Nat
  lastSent : Nat
  lastSecond : Nat
  sentOk : Nat
  sentLastSecond : Nat
  point : XferSendPoint
  /-- The bytes in the pipe that are not read yet. -/
  pipe : List Byte
  deriving DecidableEq

def XferSend.report (xfer : XferSend) (status : XferStatus) (error : XferError) : XferSend :=
  { xfer with pipe := xfer.pipe ++ xferNetworkWritePipe xfer.pos status error }

def XferSend.return (xfer : XferSend) (status : XferStatus) (error : XferError) : XferSend :=
  { xfer.report status error with point := .returned }

/-- The top of the loop: an ACK is read only if one should be received. -/
def XferSend.round (xfer : XferSend) : XferSend :=
  { xfer with point := if xfer.ack < xfer.pos then .readAck else .sendBlock }

/-- The block size within the speed limit. -/
def xferSpeedBlocksize (blocksize speedLimit : Nat) : Nat :=
  if 0 < speedLimit ∧ speedLimit * 1024 < blocksize then speedLimit * 1024 else blocksize

/-- The start of `xfer_dcc_send_file_child`. -/
def xferDccSendFileStart (size pos ack : Nat) (fastSend : Bool) (blocksize speedLimit now : Nat) : XferSend :=
  let xfer : XferSend :=
    { size, pos, ack, fastSend
      blocksize := xferSpeedBlocksize blocksize speedLimit
      speedLimit
      lastSent := now
      lastSecond := now
      sentOk := 0
      sentLastSecond := 0
      point := .readAck
      pipe := [] }
  -- empty file? just return immediately
  if xfer.size ≤ xfer.pos then xfer.return .done .noError else xfer.round

/-- `htonl` of the low 32 bits. -/
def htonl (n : Nat) : List Byte := (leBytes 4 n).reverse

def ntohl (bytes : List Byte) : Nat := leNat bytes.reverse

/-- `recv` with `MSG_PEEK` in the loop that reads the ACKs, then `recv` of a whole
ACK: the bytes that are left are returned too. -/
def xferDccReadAck (xfer : XferSend) (acks : List Byte) (numRead : Sys) : XferSend × List Byte :=
  match numRead with
  | .again => ({ xfer with point := .sendBlock }, acks)
  | .ok 0 | .intr | .error => (xfer.return .failed .sendBlock, acks)
  | .ok (n + 1) =>
    if n + 1 = 4 then
      let xfer := { xfer with ack := ntohl (acks.take 4) }
      -- DCC send OK?
      (if xfer.size ≤ xfer.pos ∧ xfer.size ≤ xfer.ack then xfer.return .done .noError else xfer, acks.drop 4)
    else ({ xfer with point := .sendBlock }, acks)

/-- What follows a `send` of some bytes. -/
def XferSend.sent (xfer : XferSend) (numSent newTime : Nat) : XferSend :=
  let xfer :=
    { xfer with
      pos := xfer.pos + numSent
      sentLastSecond := xfer.sentLastSecond + numSent }
  if xfer.lastSent ≠ newTime ∨ (xfer.sentOk = 0 ∧ xfer.size ≤ xfer.pos) then
    let xfer := { xfer with lastSent := newTime }.report .active .noError
    if xfer.size ≤ xfer.pos then { xfer with sentOk := newTime } else xfer
  else xfer

/-- A block can be sent. -/
def XferSend.mayFill (xfer : XferSend) : Bool := xfer.pos < xfer.size && (xfer.fastSend || xfer.pos ≤ xfer.ack)

/-- We're sending too fast, according to the speed limit. -/
def XferSend.tooFast (xfer : XferSend) : Bool := 0 < xfer.speedLimit && xfer.speedLimit * 1024 ≤ xfer.sentLastSecond

/-- The part of a round that sends a block: `read` of the file, then `send` of
what was read. The bytes that are sent are returned too. -/
def xferDccSendBlock (file : List Byte) (xfer : XferSend) (numRead numSent : Sys) (newTime : Nat) :
    XferSend × List Byte :=
  let next := { xfer with point := .checkTime }
  if xfer.mayFill ∧ ¬xfer.tooFast then
    match numRead with
    | .ok 0 | .again | .intr | .error => (xfer.return .failed .readLocal, [])
    | .ok (n + 1) =>
      let buffer := (file.drop xfer.pos).take (n + 1)
      match numSent with
      | .ok k => if 0 < k then (next.sent k newTime, buffer.take k) else (next, [])
      -- socket is temporarily not available
      | .again => (next, [])
      | .intr | .error => (xfer.return .failed .sendBlock, [])
  else (next, [])

/-- The end of a round. -/
def xferDccSendTime (xfer : XferSend) (newTime : Nat) : XferSend :=
  let xfer :=
    if xfer.lastSecond < newTime then
      { xfer with
        lastSecond := newTime
        sentLastSecond := 0 }
    else xfer
  -- if send if OK since 2 seconds or more, and that no ACK was received, then consider it's OK
  if xfer.sentOk ≠ 0 ∧ xfer.sentOk + 2 < newTime then xfer.return .done .noError else xfer.round

/-! ## The child that receives the file -/

/-- Where the child waits: in `connect`, `poll` or `recv`, with bytes that are
received and to write, or in the function that sends an ACK. -/
inductive XferRecvPoint
  | connect | poll | recv
  | write (buffer : List Byte) (totalWritten : Nat)
  | sendAck (totalSent : Nat) (fileOk : Bool)
  | returned
  deriving DecidableEq

/-- The variables of `xfer_dcc_recv_file_child`, the local file and the bytes given
to the hash. -/
structure XferRecv where
  size : Nat
  pos : Nat
  sendAck : Bool
  blocksize : Nat
  speedLimit : Nat
  lastSent : Nat
  lastSecond : Nat
  recvLastSecond : Nat
  posLastAck : Nat
  file : List Byte
  hashHandle : Option (List Byte)
  hashTarget : Str
  point : XferRecvPoint
  pipe : List Byte
  deriving DecidableEq

def XferRecv.report (xfer : XferRecv) (status : XferStatus) (error : XferError) : XferRecv :=
  { xfer with pipe := xfer.pipe ++ xferNetworkWritePipe xfer.pos status error }

def XferRecv.return (xfer : XferRecv) (status : XferStatus) (error : XferError) : XferRecv :=
  { xfer.report status error with point := .returned }

/-- `XFER_BLOCKSIZE_MAX`. -/
def xferBlocksizeMax : Nat := 102400

/-- `if ((xfer->start_resume > 0) && xfer->hash_handle)`: the portion of the file we
have is hashed; `resumeHash` is what `xfer_dcc_resume_hash` returns, which
reads the file until it has these bytes. -/
def xferDccResume (xfer : XferRecv) (startResume : Nat) (resumeHash : Bool) : XferRecv :=
  if 0 < startResume ∧ xfer.hashHandle.isSome then
    let xfer := xfer.report .hashing .noError
    let xfer :=
      if resumeHash then { xfer with hashHandle := xfer.hashHandle.map fun hash => hash ++ xfer.file.take startResume }
      else { xfer with hashHandle := none }.report .hashing .hashResumeError
    xfer.report .connecting .noError
  else xfer

/-- The start of `xfer_dcc_recv_file_child`; the file is truncated if nothing is
resumed (`xfer_network_recv_file_fork`). -/
def xferDccRecvFileStart (size startResume : Nat) (sendAck : Bool) (speedLimit : Nat) (file : List Byte) (hash : Bool)
    (hashTarget : Str) (resumeHash : Bool) : XferRecv :=
  let xfer : XferRecv :=
    { size
      pos := startResume
      sendAck
      blocksize := xferSpeedBlocksize xferBlocksizeMax speedLimit
      speedLimit
      lastSent := 0
      lastSecond := 0
      recvLastSecond := 0
      posLastAck := 0
      file := if 0 < startResume then file else []
      hashHandle := if hash then some [] else none
      hashTarget
      point := .connect
      pipe := [] }
  xferDccResume xfer startResume resumeHash

/-- `weechat_network_connect_to`. -/
def xferDccConnect (xfer : XferRecv) (ok : Bool) (now : Nat) : XferRecv :=
  if ok then
    { xfer.report .active .noError with
      lastSent := now
      lastSecond := now
      point := .poll }
  else xfer.return .failed .connectSender

/-- `poll`. -/
def xferDccPoll (xfer : XferRecv) (ready : Sys) : XferRecv :=
  match ready with
  | .ok _ => { xfer with point := .recv }
  | .again | .intr => xfer
  | .error => xfer.return .failed .recvBlock

/-- `new_time > last_second`. -/
def XferRecv.checkTime (xfer : XferRecv) (newTime : Nat) : XferRecv :=
  if xfer.lastSecond < newTime then
    { xfer with
      lastSecond := newTime
      recvLastSecond := 0 }
  else xfer

/-- `recv` of a block, and what follows if there is none. The bytes that are
left are returned too. -/
def xferDccRecvBlock (xfer : XferRecv) (data : List Byte) (numRead : Sys) (newTime : Nat) : XferRecv × List Byte :=
  if 0 < xfer.speedLimit ∧ xfer.speedLimit * 1024 ≤ xfer.recvLastSecond then
    -- we're receiving too fast
    (xfer.checkTime newTime, data)
  else
    match numRead with
    | .error => (xfer.return .failed .recvBlock, data)
    | .again | .intr =>
      -- send ACK to sender (if needed)
      ({ xfer with point := if xfer.sendAck ∧ xfer.posLastAck < xfer.pos then .sendAck 0 false else .poll }, data)
    | .ok n =>
      if n = 0 ∧ xfer.pos < xfer.size then (xfer.return .failed .recvBlock, data)
      else ({ xfer with point := .write (data.take n) 0 }, data.drop n)

/-- A round of the loop that writes the bytes on disk. -/
def xferDccWrite (xfer : XferRecv) (buffer : List Byte) (totalWritten : Nat) (written : Sys) : XferRecv :=
  match written with
  | .intr => xfer
  | .again | .error => xfer.return .failed .writeLocal
  | .ok n =>
    let bytes := (buffer.drop totalWritten).take n
    { xfer with
      file := xfer.file ++ bytes
      hashHandle := xfer.hashHandle.map fun hash => hash ++ bytes
      point := .write buffer (totalWritten + n) }

section

variable (gcryMdRead : List Byte → List Byte)

/-- `snprintf (hash, sizeof (hash), "%.2X%.2X%.2X%.2X", ...)`, with the first 4 bytes of
the hash. -/
def xferHash (bytes : List Byte) : Str :=
  ((gcryMdRead bytes).take 4).flatMap fun b => [hexa.getD (b.toNat / 16) 0, hexa.getD (b.toNat % 16) 0]

/-- Check hash and report result to pipe. -/
def xferDccCheckHash (xfer : XferRecv) : XferRecv :=
  match xfer.hashHandle with
  | none => xfer
  | some hash =>
    if stringStrcasecmp (xferHash gcryMdRead hash) xfer.hashTarget = 0 then xfer.report .hashed .noError
    else xfer.report .hashed .hashMismatch

/-- What follows the loop that writes the bytes. -/
def xferDccReceived (xfer : XferRecv) (numRead : Nat) (newTime newTime' : Nat) : XferRecv :=
  let xfer :=
    { xfer with
      pos := xfer.pos + numRead
      recvLastSecond := xfer.recvLastSecond + numRead }
  -- file received OK?
  if xfer.size ≤ xfer.pos then
    { xferDccCheckHash gcryMdRead xfer with point := .sendAck 0 true }
  else
    let xfer := if xfer.lastSent ≠ newTime then { xfer with lastSent := newTime }.report .active .noError else xfer
    { xfer.checkTime newTime' with point := .recv }

end

/-- `xfer_dcc_recv_file_send_ack`, from a `send` to the next or to the result. -/
def xferDccRecvFileSendAck (totalSent : Nat) (numSent : Sys) : Round Nat Nat :=
  let totalSent := match numSent with | .ok n => totalSent + n | _ => totalSent
  if totalSent < 4 then
    if numSent = .intr ∨ numSent = .error then .done 0
    -- if we can't send ACK now, just return with partial failure code
    else if totalSent = 0 then .done 1
    -- at least one byte has been sent, we must send whole ACK
    else .next totalSent
  else .done 2

/-- What is left of an ACK. -/
def xferAckRest (pos totalSent : Nat) : List Byte := (htonl pos).drop totalSent

/-- The bytes of the ACK that a `send` sends. -/
def xferAckSent (pos totalSent : Nat) : Sys → List Byte
  | .ok n => (xferAckRest pos totalSent).take n
  | _ => []

/-- A `send` of the ACK and what follows it: at the end of the file the result is not
checked. -/
def xferDccSendAck (xfer : XferRecv) (totalSent : Nat) (fileOk : Bool) (numSent : Sys) : XferRecv :=
  match xferDccRecvFileSendAck totalSent numSent with
  | .next totalSent => { xfer with point := .sendAck totalSent fileOk }
  | .done rc =>
    if fileOk then xfer.return .done .noError
    else if rc = 0 then xfer.return .failed .sendAck
    else if rc = 1 then
      { xfer with
        sendAck := false
        point := .poll }
    else
      { xfer with
        posLastAck := xfer.pos
        point := .poll }

end Wirc
