import WhoreIrc.Proof.Exec
import WhoreIrc.Spec.HookProcess

/-!
# The output of a process is given to its callback

Each read adds bytes to a buffer, and the bytes given to the callback with those
in the buffer are the bytes read (`HookProcess.Moves`). With the bytes in the
pipe they are all that was written, in every state of a run (`ProcessRun.Inv`);
and when the child has ended, what it has left is read to the end.
-/

namespace Wirc

open Framework

/-! ## What a read does -/

/-- The buffers are not full. -/
structure HookProcess.Small (hook : HookProcess) : Prop where
  flush_pos : 0 < hook.bufferFlush
  flush_le : hook.bufferFlush ≤ hookProcessBufferSize
  lt : ∀ index, (hook.buffer index).length < hook.bufferFlush

/-- The bytes of each stream are added to the buffers, of which parts are given to the callback. -/
structure HookProcess.Moves (hook : HookProcess) (bytes : ProcessStream → List Byte) (hook' : HookProcess) : Prop where
  bufferFlush : hook'.bufferFlush = hook.bufferFlush
  hookFd : hook'.hookFd = hook.hookFd
  remainingCalls : hook'.remainingCalls = hook.remainingCalls
  point : hook'.point = hook.point
  calls : ∃ calls, hook'.calls = hook.calls ++ calls ∧ (∀ call ∈ calls, call.Runs ∧ call.Fits) ∧
    ∀ index, delivered index calls ++ hook'.buffer index = hook.buffer index ++ bytes index

theorem delivered_append (index : ProcessStream) (calls calls' : List ProcessCall) :
    delivered index (calls ++ calls') = delivered index calls ++ delivered index calls' := List.flatMap_append

theorem HookProcess.Moves.refl (hook : HookProcess) : hook.Moves (fun _ => []) hook :=
  ⟨rfl, rfl, rfl, rfl, [], (List.append_nil _).symm, fun _ h => absurd h List.not_mem_nil,
    fun _ => (List.append_nil _).symm⟩

theorem HookProcess.Moves.trans {hook₁ hook₂ hook₃ : HookProcess} {bytes bytes' : ProcessStream → List Byte}
    (h : hook₁.Moves bytes hook₂) (h' : hook₂.Moves bytes' hook₃) :
    hook₁.Moves (fun index => bytes index ++ bytes' index) hook₃ := by
  obtain ⟨calls, hcalls, hruns, heq⟩ := h.calls
  obtain ⟨calls', hcalls', hruns', heq'⟩ := h'.calls
  refine ⟨h'.bufferFlush.trans h.bufferFlush, h'.hookFd.trans h.hookFd, h'.remainingCalls.trans h.remainingCalls,
    h'.point.trans h.point, calls ++ calls', ?_, fun call hcall => ?_, fun index => ?_⟩
  · rw [hcalls', hcalls, List.append_assoc]
  · exact (List.mem_append.mp hcall).elim (hruns call) (hruns' call)
  · rw [delivered_append, List.append_assoc, heq' index, ← List.append_assoc, heq index, List.append_assoc]

/-- The call of the callback with the buffers as they are. -/
def HookProcess.call (hook : HookProcess) (callbackRc : Int) : ProcessCall :=
  ⟨callbackRc, hook.text .stdout, hook.text .stderr⟩

theorem HookProcess.call_stream (hook : HookProcess) (callbackRc : Int) (index : ProcessStream) :
    (hook.call callbackRc).stream index = hook.buffer index := by
  have htext (index : ProcessStream) : (hook.text index).getD [] = hook.buffer index := by
    rw [HookProcess.text]
    split
    next => rfl
    next h => exact (List.length_eq_zero_iff.mp (Nat.eq_zero_of_not_pos h)).symm
  cases index with
  | stdout => exact htext .stdout
  | stderr => exact htext .stderr

/-- The buffers after they were given to the callback. -/
def HookProcess.sent (hook : HookProcess) (callbackRc : Int) : HookProcess :=
  { hook with calls := hook.calls ++ [hook.call callbackRc], buffer := fun _ => [] }

theorem sendBuffers_eq {hook : HookProcess} (h : ∀ index, (hook.buffer index).length ≤ hookProcessBufferSize)
    (callbackRc : Int) : hookProcessSendBuffers hook callbackRc = some (hook.sent callbackRc) :=
  if_pos ⟨h .stdout, h .stderr⟩

theorem HookProcess.call_fits {hook : HookProcess} (h : ∀ index, (hook.buffer index).length ≤ hookProcessBufferSize)
    (callbackRc : Int) : (hook.call callbackRc).Fits := by
  intro index
  rw [HookProcess.call_stream]
  exact h index

theorem delivered_call (hook : HookProcess) (callbackRc : Int) (index : ProcessStream) :
    delivered index [hook.call callbackRc] = hook.buffer index := by
  rw [delivered, List.flatMap_cons, List.flatMap_nil, List.append_nil, HookProcess.call_stream]

/-- Buffers that are not both empty are given to the callback. -/
theorem HookProcess.moves_sent {hook : HookProcess} (h : ∀ index, (hook.buffer index).length ≤ hookProcessBufferSize)
    (hne : ∃ index, 0 < (hook.buffer index).length) : hook.Moves (fun _ => []) (hook.sent hookProcessRunning) := by
  refine ⟨rfl, rfl, rfl, rfl, [hook.call hookProcessRunning], rfl, fun call hcall => ?_, fun index => ?_⟩
  · rw [List.mem_singleton.mp hcall]
    refine ⟨⟨rfl, ?_⟩, HookProcess.call_fits h _⟩
    have htext (index : ProcessStream) (hpos : 0 < (hook.buffer index).length) : hook.text index ≠ none := by
      rw [HookProcess.text, if_pos hpos]
      exact Option.some_ne_none _
    obtain ⟨index, hpos⟩ := hne
    cases index with
    | stdout => exact .inl (htext _ hpos)
    | stderr => exact .inr (htext _ hpos)
  · rw [delivered_call]
    rfl

/-- The bytes of one stream. -/
def streamBytes (index : ProcessStream) (bytes : List Byte) : ProcessStream → List Byte :=
  Function.update (fun _ => []) index bytes

theorem HookProcess.moves_add (hook : HookProcess) (index : ProcessStream) (bytes : List Byte) :
    hook.Moves (streamBytes index bytes)
      { hook with buffer := Function.update hook.buffer index (hook.buffer index ++ bytes) } := by
  refine ⟨rfl, rfl, rfl, rfl, [], (List.append_nil _).symm, fun _ h => absurd h List.not_mem_nil, fun i => ?_⟩
  rw [streamBytes]
  dsimp only
  by_cases hi : i = index
  · subst hi
    rw [Function.update_self, Function.update_self]
    rfl
  · rw [Function.update_of_ne hi, Function.update_of_ne hi, List.append_nil]
    rfl

theorem HookProcess.Small.le {hook : HookProcess} (h : hook.Small) (index : ProcessStream) :
    (hook.buffer index).length ≤ hookProcessBufferSize := Nat.le_of_lt (Nat.lt_of_lt_of_le (h.lt index) h.flush_le)

theorem HookProcess.small_sent {hook : HookProcess} (h : hook.Small) (callbackRc : Int) :
    (hook.sent callbackRc).Small := ⟨h.flush_pos, h.flush_le, fun _ => h.flush_pos⟩

/-- A read adds to a buffer that has the place for it, after the buffers were given to the callback if it has not. -/
theorem addToBuffer_moves {hook : HookProcess} (h : hook.Small) (index : ProcessStream) {bytes : List Byte}
    (hbytes : bytes.length ≤ hookProcessReadSize) :
    ∃ hook', hookProcessAddToBuffer hook index bytes = some hook' ∧ hook.Moves (streamBytes index bytes) hook' ∧
      (∀ i, (hook'.buffer i).length ≤ hookProcessBufferSize) ∧
      ∀ i, i ≠ index → (hook'.buffer i).length < hook.bufferFlush := by
  have hsize : hookProcessReadSize ≤ hookProcessBufferSize := by decide
  have hfits (hook' : HookProcess) (hlen : (hook'.buffer index).length + bytes.length ≤ hookProcessBufferSize)
      (hlt : ∀ i, (hook'.buffer i).length < hook.bufferFlush) :
      ∀ i, ((Function.update hook'.buffer index (hook'.buffer index ++ bytes)) i).length ≤ hookProcessBufferSize ∧
        (i ≠ index →
          ((Function.update hook'.buffer index (hook'.buffer index ++ bytes)) i).length < hook.bufferFlush) := by
    intro i
    by_cases hi : i = index
    · subst hi
      rw [Function.update_self, List.length_append]
      exact ⟨hlen, fun hne => absurd rfl hne⟩
    · rw [Function.update_of_ne hi]
      exact ⟨Nat.le_of_lt (Nat.lt_of_lt_of_le (hlt i) h.flush_le), fun _ => hlt i⟩
  rw [hookProcessAddToBuffer]
  split
  next hfull =>
    have hne : ∃ i, 0 < (hook.buffer i).length := by
      refine ⟨index, ?_⟩
      have hread : hookProcessReadSize < hookProcessBufferSize := by decide
      omega
    have hlen : ((hook.sent hookProcessRunning).buffer index).length + bytes.length ≤ hookProcessBufferSize := by
      rw [HookProcess.sent, List.length_nil, Nat.zero_add]
      exact hbytes.trans hsize
    rw [sendBuffers_eq h.le]
    refine ⟨_, if_pos (Nat.le_succ_of_le hlen),
      (HookProcess.moves_sent h.le hne).trans (HookProcess.moves_add _ index bytes),
      fun i => (hfits _ hlen (fun _ => h.flush_pos) i).1, fun i => (hfits _ hlen (fun _ => h.flush_pos) i).2⟩
  next hfull =>
    have hlen := Nat.le_of_not_gt hfull
    exact ⟨_, if_pos (Nat.le_succ_of_le hlen), HookProcess.moves_add _ index bytes,
      fun i => (hfits hook hlen h.lt i).1, fun i => (hfits hook hlen h.lt i).2⟩

/-- The bytes that a read takes from the pipe, and those that it leaves. -/
def Sys.taken (numRead : Sys) (pipe : List Byte) : List Byte :=
  match numRead with
  | .ok n => pipe.take n
  | _ => []

def Sys.left (numRead : Sys) (pipe : List Byte) : List Byte :=
  match numRead with
  | .ok n => pipe.drop n
  | _ => pipe

theorem Sys.taken_left (numRead : Sys) (pipe : List Byte) : numRead.taken pipe ++ numRead.left pipe = pipe := by
  cases numRead with
  | ok n => exact List.take_append_drop n pipe
  | again => rfl
  | intr => rfl
  | error => rfl

/-- The hook after a read, when its descriptor is as it was. -/
def HookProcess.open (hook : HookProcess) (hookFd : ProcessStream → Bool) : HookProcess := { hook with hookFd }

theorem HookProcess.Small.of_le {hook : HookProcess} (h : hook.Small) {hook' : HookProcess}
    (hflush : hook'.bufferFlush = hook.bufferFlush) {index : ProcessStream}
    (hlt : ∀ i, i ≠ index → (hook'.buffer i).length < hook.bufferFlush)
    (hindex : (hook'.buffer index).length < hook.bufferFlush) : hook'.Small := by
  refine ⟨hflush ▸ h.flush_pos, hflush ▸ h.flush_le, fun i => ?_⟩
  rw [hflush]
  by_cases hi : i = index
  · exact hi ▸ hindex
  · exact hlt i hi

/-- A read of a pipe: the bytes go to the buffers, which are not full at the end; the end of the file
closes the descriptor. -/
theorem childRead_moves {hook : HookProcess} (h : hook.Small) (hpoint : hook.point ≠ .deleted) (index : ProcessStream)
    (pipe : List Byte) {numRead : Sys} (hread : numRead.Gives (· ≤ hookProcessReadSize)) :
    ∃ hook', hookProcessChildRead hook index pipe numRead = some (hook', numRead.left pipe) ∧ hook'.Small ∧
      hook.Moves (streamBytes index (numRead.taken pipe)) (hook'.open hook.hookFd) ∧
      hook'.hookFd = if numRead = .ok 0 then Function.update hook.hookFd index false else hook.hookFd := by
  have hnone : hook.Moves (streamBytes index []) hook := by
    have hempty : streamBytes index [] = fun _ => [] := Function.update_eq_self index _
    rw [hempty]
    exact HookProcess.Moves.refl hook
  unfold hookProcessChildRead
  rw [if_neg hpoint]
  cases numRead with
  | again => exact ⟨hook, rfl, h, hnone, rfl⟩
  | intr => exact ⟨hook, rfl, h, hnone, rfl⟩
  | error => exact ⟨hook, rfl, h, hnone, rfl⟩
  | ok n =>
    dsimp only
    split
    next hpos =>
      have hlen : (pipe.take n).length ≤ hookProcessReadSize := (List.length_take_le _ _).trans hread
      obtain ⟨hook₁, hadd, hmoves, hle, hlt⟩ := addToBuffer_moves h index hlen
      have hfd : hook₁.hookFd = if Sys.ok n = .ok 0 then Function.update hook.hookFd index false else hook.hookFd := by
        rw [if_neg fun heq => Nat.ne_of_gt hpos (Sys.ok.inj heq)]
        exact hmoves.hookFd
      have hopen : hook₁.open hook.hookFd = hook₁ := by rw [HookProcess.open, ← hmoves.hookFd]
      rw [hadd]
      dsimp only [Option.bind_eq_bind, Option.bind_some]
      split
      next hfull =>
        rw [hmoves.bufferFlush] at hfull
        have hne : ∃ i, 0 < (hook₁.buffer i).length := ⟨index, Nat.lt_of_lt_of_le h.flush_pos hfull⟩
        have hflush : (hook₁.sent hookProcessRunning).bufferFlush = hook.bufferFlush := hmoves.bufferFlush
        have hsent := hmoves.trans (HookProcess.moves_sent hle hne)
        have hopen' : (hook₁.sent hookProcessRunning).open hook.hookFd = hook₁.sent hookProcessRunning := by
          rw [HookProcess.open, ← hmoves.hookFd, HookProcess.sent]
        rw [sendBuffers_eq hle]
        refine ⟨hook₁.sent hookProcessRunning, rfl, ⟨hflush ▸ h.flush_pos, hflush ▸ h.flush_le, fun _ => ?_⟩, ?_, hfd⟩
        · exact hflush ▸ h.flush_pos
        rw [hopen', Sys.taken]
        simpa only [List.append_nil] using hsent
      next hfull =>
        rw [hmoves.bufferFlush] at hfull
        refine ⟨hook₁, rfl, h.of_le hmoves.bufferFlush hlt (Nat.lt_of_not_ge hfull), ?_, hfd⟩
        rw [hopen]
        exact hmoves
    next hpos =>
      obtain rfl : n = 0 := Nat.eq_zero_of_not_pos hpos
      refine ⟨{ hook with hookFd := Function.update hook.hookFd index false }, rfl,
        ⟨h.flush_pos, h.flush_le, h.lt⟩, ?_, ?_⟩
      · rw [Sys.taken, List.take_zero]
        exact hnone
      · rw [if_pos rfl]

/-! ## The last reads -/

/-- What `read` returns in a round, or nothing if it is not called. -/
def ProcessRound.result (round : ProcessRound) (hook : HookProcess) (index : ProcessStream) : Sys :=
  if hook.hookFd index && round.pollin index then round.numRead index else .again

theorem pollRead_result (round : ProcessRound) (hook₀ hook : HookProcess) (index : ProcessStream) (pipe : List Byte) :
    hookProcessPollRead hook index pipe (hook₀.hookFd index && round.pollin index) (round.numRead index) =
      hookProcessChildRead hook index pipe (round.result hook₀ index) := by
  rw [ProcessRound.result, hookProcessPollRead]
  split
  next => rfl
  next =>
    unfold hookProcessChildRead
    split <;> rfl

/-- A round that goes on: both pipes are read. -/
theorem readRound_moves {hook : HookProcess} (h : hook.Small) (hpoint : hook.point ≠ .deleted)
    (pipe : ProcessStream → List Byte) {count : Nat} (callbackRc : Int) {round : ProcessRound}
    (hread : ∀ index, (round.result hook index).Gives (· ≤ hookProcessReadSize))
    (hgo : count < 1024 ∧ (hook.hookFd .stdout ∨ hook.hookFd .stderr) ∧ round.ready.positive) :
    ∃ hook' : HookProcess, hookProcessReadRound hook pipe count callbackRc round =
        some ({ hook' with point := .untilEof (count + 1) callbackRc }, fun index =>
          (round.result hook index).left (pipe index)) ∧
      hook'.Small ∧ hook.Moves (fun index => (round.result hook index).taken (pipe index)) (hook'.open hook.hookFd) ∧
      ∀ index, hook'.hookFd index = if round.result hook index = .ok 0 then false else hook.hookFd index := by
  obtain ⟨hook₁, hout, hsmall₁, hmoves₁, hfd₁⟩ :=
    childRead_moves h hpoint .stdout (pipe .stdout) (hread .stdout)
  have hpoint₁ : hook₁.point ≠ .deleted := hmoves₁.point ▸ hpoint
  obtain ⟨hook₂, herr, hsmall₂, hmoves₂, hfd₂⟩ :=
    childRead_moves hsmall₁ hpoint₁ .stderr (pipe .stderr) (hread .stderr)
  refine ⟨hook₂, ?_, hsmall₂, ?_, fun index => ?_⟩
  · rw [hookProcessReadRound, if_pos hgo]
    dsimp only
    rw [pollRead_result, hout]
    dsimp only [Option.bind_eq_bind, Option.bind_some]
    rw [pollRead_result, herr]
    refine congrArg some (Prod.ext rfl (funext fun index => ?_))
    cases index <;> rfl
  · have hmoves : (hook₁.open hook.hookFd).Moves
        (streamBytes .stderr ((round.result hook .stderr).taken (pipe .stderr))) (hook₂.open hook.hookFd) :=
      ⟨hmoves₂.bufferFlush, rfl, hmoves₂.remainingCalls, hmoves₂.point, hmoves₂.calls⟩
    have hboth := hmoves₁.trans hmoves
    refine ⟨hboth.bufferFlush, hboth.hookFd, hboth.remainingCalls, hboth.point, ?_⟩
    obtain ⟨calls, hcalls, hruns, heq⟩ := hboth.calls
    refine ⟨calls, hcalls, hruns, fun index => ?_⟩
    rw [heq index]
    cases index with
    | stdout => rw [streamBytes, streamBytes, Function.update_self, Function.update_of_ne (by decide), List.append_nil]
    | stderr => rw [streamBytes, streamBytes, Function.update_self, Function.update_of_ne (by decide), List.nil_append]
  · rw [hfd₂, hfd₁]
    cases index with
    | stdout => split <;> split <;> simp_all
    | stderr => split <;> split <;> simp_all

/-- The last call, with all that is in the buffers. -/
theorem processEnd_eq {hook : HookProcess} (h : hook.Small) (callbackRc : Int) :
    hookProcessEnd hook callbackRc = some (hookProcessUnhook (hook.sent callbackRc)) := by
  rw [hookProcessEnd, sendBuffers_eq h.le]
  rfl

theorem readRound_end {hook : HookProcess} (h : hook.Small) (pipe : ProcessStream → List Byte) {count : Nat}
    (callbackRc : Int) {round : ProcessRound}
    (hgo : ¬ (count < 1024 ∧ (hook.hookFd .stdout ∨ hook.hookFd .stderr) ∧ round.ready.positive)) :
    hookProcessReadRound hook pipe count callbackRc round = some (hookProcessUnhook (hook.sent callbackRc), pipe) := by
  rw [hookProcessReadRound, if_neg hgo, processEnd_eq h]
  rfl

/-! ## All states of a run -/

theorem ne_deleted_of_wait {point : ProcessPoint} (h : point = .wait) : point ≠ .deleted := by
  rw [h]
  decide

theorem ne_deleted_of_untilEof {point : ProcessPoint} {count : Nat} {callbackRc : Int}
    (h : point = .untilEof count callbackRc) : point ≠ .deleted := by
  rw [h]
  exact ProcessPoint.noConfusion

theorem ne_wait_of_deleted {point : ProcessPoint} (h : point = .deleted) : point ≠ .wait := by
  rw [h]
  decide

theorem ne_wait_of_untilEof {point : ProcessPoint} {count : Nat} {callbackRc : Int}
    (h : point = .untilEof count callbackRc) : point ≠ .wait := by
  rw [h]
  exact ProcessPoint.noConfusion

theorem ne_untilEof_of_deleted {point : ProcessPoint} (h : point = .deleted) (count : Nat) (callbackRc : Int) :
    point ≠ .untilEof count callbackRc := by
  rw [h]
  exact ProcessPoint.noConfusion

/-- A code that `hook_process_timer_cb` gives to the last call. -/
def EndCode (callbackRc : Int) : Prop := callbackRc = hookProcessError ∨ 0 ≤ callbackRc

structure ProcessRun.Inv (s : ProcessRun) : Prop where
  small : s.hook.Small
  stream : ∀ index,
    delivered index s.hook.calls ++ s.hook.buffer index ++ s.dropped index ++ s.pipe index = s.written index
  fd : s.hook.point ≠ .deleted → ∀ index, s.hook.hookFd index = false → s.pipe index = [] ∧ s.closed index = true
  dropped : s.hook.point ≠ .deleted → ∀ index, s.dropped index = []
  ended : s.Ended → ∀ index, s.hook.buffer index = [] ∧ s.dropped index = []
  calls : ProcessCalls s.hook.point s.hook.calls
  fits : ∀ call ∈ s.hook.calls, call.Fits
  rc : ∀ count callbackRc, s.hook.point = .untilEof count callbackRc → EndCode callbackRc

theorem ProcessCall.Runs.not_ends {call : ProcessCall} (h : call.Runs) : ¬ call.Ends := by
  rintro (hend | hend)
  · rw [h.1] at hend
    exact absurd hend (by decide)
  · rw [h.1] at hend
    exact absurd hend (by decide)

/-- While the hook is not deleted, its callback was only called because the child runs. -/
theorem ProcessCalls.runs {point : ProcessPoint} {calls : List ProcessCall} (h : ProcessCalls point calls)
    (hpoint : point ≠ .deleted) : ∀ call ∈ calls, call.Runs := by
  cases h with
  | running h => exact h
  | ended _ _ hdeleted => exact absurd hdeleted hpoint

theorem ProcessRun.Inv.not_ended {s : ProcessRun} (h : s.Inv) (hpoint : s.hook.point ≠ .deleted) : ¬ s.Ended := by
  rintro ⟨call, hcall, hends⟩
  exact (h.calls.runs hpoint call hcall).not_ends hends

/-- Bytes are read, and the hook is as it was otherwise; it may have closed descriptors of which all was read. -/
theorem ProcessRun.Inv.reads {s : ProcessRun} (h : s.Inv) (hpoint : s.hook.point ≠ .deleted) {hook' : HookProcess}
    {bytes pipe' : ProcessStream → List Byte} (hsmall : hook'.Small)
    (hmoves : s.hook.Moves bytes (hook'.open s.hook.hookFd))
    (hpipe : ∀ index, bytes index ++ pipe' index = s.pipe index)
    (hfd : ∀ index, hook'.hookFd index = false → s.hook.hookFd index = true →
      s.pipe index = [] ∧ s.closed index = true) : ({ s with hook := hook', pipe := pipe' } : ProcessRun).Inv := by
  obtain ⟨calls, hcalls, hruns, heq⟩ := hmoves.calls
  have hpoint' : hook'.point = s.hook.point := hmoves.point
  have hcalls' : hook'.calls = s.hook.calls ++ calls := hcalls
  have hall : ∀ call ∈ hook'.calls, call.Runs := by
    intro call hcall
    rw [hcalls'] at hcall
    exact (List.mem_append.mp hcall).elim (h.calls.runs hpoint call) fun hnew => (hruns call hnew).1
  refine ⟨hsmall, fun index => ?_, fun _ index hclosed => ?_, fun _ => h.dropped hpoint, fun hended => ?_,
    .running hall,
    fun call hcall => ?_, fun count callbackRc hrc => h.rc count callbackRc (hpoint' ▸ hrc)⟩
  · have hstream := h.stream index
    have hbuffer : delivered index calls ++ hook'.buffer index = s.hook.buffer index ++ bytes index := heq index
    rw [h.dropped hpoint, List.append_nil] at hstream ⊢
    dsimp only
    rw [hcalls', delivered_append, List.append_assoc (delivered index s.hook.calls), hbuffer, ← hstream, ← hpipe index]
    simp only [List.append_assoc]
  · have hempty : s.pipe index = [] ∧ s.closed index = true := by
      cases hopen : s.hook.hookFd index with
      | false => exact h.fd hpoint index hopen
      | true => exact hfd index hclosed hopen
    exact ⟨(List.append_eq_nil_iff.mp ((hpipe index).trans hempty.1)).2, hempty.2⟩
  · obtain ⟨call, hcall, hends⟩ := hended
    exact absurd hends (hall call hcall).not_ends
  · rw [hcalls'] at hcall
    exact (List.mem_append.mp hcall).elim (h.fits call) fun hnew => (hruns call hnew).2

/-- The last call of the callback. -/
theorem ProcessRun.Inv.ends {s : ProcessRun} (h : s.Inv) (hpoint : s.hook.point ≠ .deleted) {callbackRc : Int}
    (hrc : EndCode callbackRc) : ({ s with hook := hookProcessUnhook (s.hook.sent callbackRc) } : ProcessRun).Inv := by
  have hruns := h.calls.runs hpoint
  have hdropped := h.dropped hpoint
  refine ⟨⟨h.small.flush_pos, h.small.flush_le, fun _ => h.small.flush_pos⟩, fun index => ?_,
    fun hne => absurd rfl hne, fun hne => absurd rfl hne, fun _ index => ⟨rfl, hdropped index⟩,
    .ended hruns hrc rfl, fun call hcall => ?_, fun count callbackRc heq => ?_⟩
  · have hstream := h.stream index
    rw [hdropped, List.append_nil] at hstream ⊢
    rw [← hstream]
    dsimp only [hookProcessUnhook, HookProcess.sent]
    rw [delivered_append, delivered_call, List.append_nil]
  · rcases List.mem_append.mp hcall with hcall | hcall
    · exact h.fits call hcall
    · rw [List.mem_singleton.mp hcall]
      exact HookProcess.call_fits h.small.le _
  · cases heq

/-- The hook changes where it waits, and its timer. -/
theorem ProcessRun.Inv.waits {s : ProcessRun} (h : s.Inv) (hpoint : s.hook.point ≠ .deleted) {point : ProcessPoint}
    (hrc : ∀ count callbackRc, point = .untilEof count callbackRc → EndCode callbackRc) (remainingCalls : Int) :
    ({ s with hook := { s.hook with point, remainingCalls } } : ProcessRun).Inv :=
  ⟨⟨h.small.flush_pos, h.small.flush_le, h.small.lt⟩, h.stream, fun _ => h.fd hpoint, fun _ => h.dropped hpoint,
    fun hended => absurd hended (h.not_ended hpoint), .running (h.calls.runs hpoint), h.fits, hrc⟩

/-- What a stream has when bytes of one of them are read. -/
theorem streamBytes_left (pipe : ProcessStream → List Byte) (index : ProcessStream) (numRead : Sys)
    (i : ProcessStream) :
    streamBytes index (numRead.taken (pipe index)) i ++ Function.update pipe index (numRead.left (pipe index)) i =
      pipe i := by
  rw [streamBytes]
  by_cases hi : i = index
  · subst hi
    rw [Function.update_self, Function.update_self]
    exact numRead.taken_left _
  · rw [Function.update_of_ne hi, Function.update_of_ne hi]
    rfl

/-- Where the hook waits after its timer has looked if the child has ended. -/
def ProcessWait.point : ProcessWait → ProcessPoint
  | .exited status => .untilEof 0 status
  | .signaled => .untilEof 0 hookProcessError
  | .none => .wait
  | .other => .wait

theorem ProcessWait.point_rc (wait : ProcessWait) (count : Nat) (callbackRc : Int)
    (h : wait.point = .untilEof count callbackRc) : EndCode callbackRc := by
  cases wait with
  | none => cases h
  | other => cases h
  | signaled =>
    cases h
    exact .inl rfl
  | exited status =>
    cases h
    exact .inr (Int.natCast_nonneg status)

/-- The calls of the timer that are left after one. -/
def remainingAfter (remainingCalls : Int) : Int := if remainingCalls > 0 then remainingCalls - 1 else remainingCalls

theorem timerCb_eq {hook : HookProcess} (h : hook.Small) (hpoint : hook.point = .wait) (remainingCalls : Int)
    (wait : ProcessWait) :
    hookProcessTimerCb hook remainingCalls wait =
      if remainingCalls = 0 then some (hookProcessUnhook (hook.sent hookProcessError))
      else some { hook with point := wait.point } := by
  have hne : hook.point ≠ .deleted := ne_deleted_of_wait hpoint
  unfold hookProcessTimerCb
  rw [if_neg hne, processEnd_eq h]
  split
  next => rfl
  next =>
    cases wait with
    | exited status => rfl
    | signaled => rfl
    | none => exact congrArg (fun point => some { hook with point }) hpoint
    | other => exact congrArg (fun point => some { hook with point }) hpoint

theorem ProcessWait.point_ne (wait : ProcessWait) : wait.point ≠ .deleted := by
  cases wait <;> exact ProcessPoint.noConfusion

/-- A call of the timer: the last one ends the hook. -/
theorem timerExec_eq {hook : HookProcess} (h : hook.Small) (hpoint : hook.point = .wait) (wait : ProcessWait) :
    hookProcessTimerExec hook wait =
      if hook.remainingCalls = 1 then some (hookProcessUnhook (hook.sent hookProcessError))
      else some { hook with point := wait.point, remainingCalls := remainingAfter hook.remainingCalls } := by
  have hlast : (if hook.remainingCalls > 0 then hook.remainingCalls - 1 else -1) = 0 ↔ hook.remainingCalls = 1 := by
    split <;> omega
  rw [hookProcessTimerExec, timerCb_eq h hpoint]
  simp only [hlast]
  split
  next => rfl
  next => exact if_neg wait.point_ne

theorem ProcessRun.Inv.timer {s : ProcessRun} (h : s.Inv) (hpoint : s.hook.point = .wait) (wait : ProcessWait) :
    ∃ s', s.step (.timer wait) = some s' ∧ s'.Inv := by
  have hne : s.hook.point ≠ .deleted := ne_deleted_of_wait hpoint
  rw [ProcessRun.step, timerExec_eq h.small hpoint]
  split
  next => exact ⟨_, rfl, h.ends hne (.inl rfl)⟩
  next => exact ⟨_, rfl, h.waits hne wait.point_rc _⟩

theorem ProcessRun.Reads.le {s : ProcessRun} {index : ProcessStream} {numRead : Sys} (h : s.Reads index numRead) :
    numRead.Gives (· ≤ hookProcessReadSize) := by
  cases numRead with
  | ok n => exact h.1
  | again => trivial
  | intr => trivial
  | error => trivial

theorem ProcessRun.Inv.read {s : ProcessRun} (h : s.Inv) {index : ProcessStream} {numRead : Sys}
    (hlegal : (ProcessEvent.read index numRead).Legal s) : ∃ s', s.step (.read index numRead) = some s' ∧ s'.Inv := by
  obtain ⟨hpoint, hopen, hreads⟩ := hlegal
  have hne : s.hook.point ≠ .deleted := ne_deleted_of_wait hpoint
  obtain ⟨hook', hstep, hsmall, hmoves, hfd⟩ := childRead_moves h.small hne index (s.pipe index) hreads.le
  refine ⟨{ s with hook := hook', pipe := Function.update s.pipe index (numRead.left (s.pipe index)) }, ?_,
    h.reads hne hsmall hmoves (streamBytes_left s.pipe index numRead) fun i hclosed hwas => ?_⟩
  · rw [ProcessRun.step, hstep]
    rfl
  · rw [hfd] at hclosed
    split at hclosed
    next heof =>
      have hi : i = index := by
        by_contra hi
        rw [Function.update_of_ne hi, hwas] at hclosed
        cases hclosed
      subst hi
      subst heof
      exact hreads.2.2 rfl
    next => exact absurd (hwas.symm.trans hclosed) (by decide)

/-- What a system call of a round may return. -/
theorem ProcessRun.result_gives {s : ProcessRun} {round : ProcessRound}
    (hreads : ∀ index, round.pollin index = true → s.Reads index (round.numRead index)) (index : ProcessStream) :
    s.Reads index (round.result s.hook index) := by
  rw [ProcessRound.result]
  split
  next hpoll => exact hreads index (Bool.and_eq_true_iff.mp hpoll).2
  next => trivial

theorem ProcessRun.result_le {s : ProcessRun} {round : ProcessRound}
    (hreads : ∀ index, round.pollin index = true → s.Reads index (round.numRead index)) (index : ProcessStream) :
    (round.result s.hook index).Gives (· ≤ hookProcessReadSize) := (ProcessRun.result_gives hreads index).le

/-- A round goes on, or the callback is called for the last time. -/
theorem ProcessRun.Inv.poll {s : ProcessRun} (h : s.Inv) {count : Nat} {callbackRc : Int} {round : ProcessRound}
    (hpoint : s.hook.point = .untilEof count callbackRc)
    (hreads : ∀ index, round.pollin index = true → s.Reads index (round.numRead index)) :
    ∃ s', s.step (.poll round) = some s' ∧ s'.Inv := by
  have hne : s.hook.point ≠ .deleted := ne_deleted_of_untilEof hpoint
  have hresult := ProcessRun.result_gives hreads
  rw [ProcessRun.step, hpoint]
  by_cases hgo : count < 1024 ∧ (s.hook.hookFd .stdout ∨ s.hook.hookFd .stderr) ∧ round.ready.positive
  · obtain ⟨hook', hstep, hsmall, hmoves, hfd⟩ :=
      readRound_moves h.small hne s.pipe callbackRc (ProcessRun.result_le hreads) hgo
    have hpipe (index : ProcessStream) := (round.result s.hook index).taken_left (s.pipe index)
    have hinv := h.reads hne hsmall hmoves hpipe fun index hclosed hwas => by
      rw [hfd] at hclosed
      split at hclosed
      next heof =>
        have hindex := hresult index
        rw [heof] at hindex
        exact hindex.2.2 rfl
      next => exact absurd (hwas.symm.trans hclosed) (by decide)
    have hpoint' : hook'.point = .untilEof count callbackRc := hmoves.point.trans hpoint
    have hne' : hook'.point ≠ .deleted := ne_deleted_of_untilEof hpoint'
    dsimp only
    rw [hstep]
    refine ⟨_, rfl, hinv.waits hne' (fun count' callbackRc' heq => ?_) hook'.remainingCalls⟩
    cases heq
    exact h.rc count callbackRc hpoint
  · dsimp only
    rw [readRound_end h.small s.pipe callbackRc hgo]
    exact ⟨_, rfl, h.ends hne (h.rc count callbackRc hpoint)⟩

theorem ProcessRun.Inv.write {s : ProcessRun} (h : s.Inv) {index : ProcessStream} (bytes : List Byte)
    (hopen : s.closed index = false) : ∃ s', s.step (.write index bytes) = some s' ∧ s'.Inv := by
  refine ⟨_, rfl, h.small, fun i => ?_, fun hne i hclosed => ?_, h.dropped, h.ended, h.calls, h.fits, h.rc⟩
  · dsimp only
    by_cases hi : i = index
    · subst hi
      rw [Function.update_self, Function.update_self, ← h.stream i, List.append_assoc _ (s.pipe i)]
    · rw [Function.update_of_ne hi, Function.update_of_ne hi]
      exact h.stream i
  · obtain ⟨hempty, heof⟩ := h.fd hne i hclosed
    have hi : i ≠ index := by
      rintro rfl
      exact absurd (hopen.symm.trans heof) (by decide)
    dsimp only
    rw [Function.update_of_ne hi]
    exact ⟨hempty, heof⟩

theorem ProcessRun.Inv.close {s : ProcessRun} (h : s.Inv) (index : ProcessStream) :
    ∃ s', s.step (.close index) = some s' ∧ s'.Inv := by
  refine ⟨_, rfl, h.small, h.stream, fun hne i hclosed => ?_, h.dropped, h.ended, h.calls, h.fits, h.rc⟩
  obtain ⟨hempty, heof⟩ := h.fd hne i hclosed
  refine ⟨hempty, ?_⟩
  dsimp only
  by_cases hi : i = index
  · rw [hi, Function.update_self]
  · rw [Function.update_of_ne hi]
    exact heof

theorem ProcessRun.Inv.unhook {s : ProcessRun} (h : s.Inv) (hpoint : s.hook.point = .wait) :
    ∃ s', s.step .unhook = some s' ∧ s'.Inv := by
  have hne : s.hook.point ≠ .deleted := ne_deleted_of_wait hpoint
  refine ⟨_, rfl, ⟨h.small.flush_pos, h.small.flush_le, fun _ => h.small.flush_pos⟩, fun index => ?_,
    fun hdeleted => absurd rfl hdeleted, fun hdeleted => absurd rfl hdeleted,
    fun hended => absurd hended (h.not_ended hne), .running (h.calls.runs hne), h.fits, fun count callbackRc heq => ?_⟩
  · have hstream := h.stream index
    rw [h.dropped hne, List.append_nil] at hstream
    rw [← hstream]
    dsimp only [hookProcessUnhook]
    rw [List.append_nil]
  · cases heq

/-- An event that may happen does not write outside of the buffers, and keeps the invariant. -/
theorem ProcessRun.Inv.step {s : ProcessRun} (h : s.Inv) {event : ProcessEvent} (hlegal : event.Legal s) :
    ∃ s', s.step event = some s' ∧ s'.Inv := by
  cases event with
  | write index bytes => exact h.write bytes hlegal
  | close index => exact h.close index
  | read index numRead => exact h.read hlegal
  | timer wait => exact h.timer hlegal wait
  | poll round =>
    obtain ⟨⟨count, callbackRc, hpoint⟩, hreads⟩ := hlegal
    exact h.poll hpoint hreads
  | unhook => exact h.unhook hlegal

theorem ProcessRun.Inv.next {s s' : ProcessRun} (h : s.Inv) {event : ProcessEvent} (hlegal : event.Legal s)
    (hstep : s.step event = some s') : s'.Inv := by
  obtain ⟨s₁, hs₁, hinv⟩ := h.step hlegal
  rw [hstep] at hs₁
  cases hs₁
  exact hinv

theorem bufferFlush_bounds (ptrValue : Option Str) :
    0 < hookProcessBufferFlush ptrValue ∧ hookProcessBufferFlush ptrValue ≤ hookProcessBufferSize := by
  have hsize : 0 < hookProcessBufferSize := by decide
  cases ptrValue with
  | none => exact ⟨hsize, Nat.le_refl _⟩
  | some ptrValue =>
    rw [hookProcessBufferFlush]
    split
    · omega
    · exact ⟨hsize, Nat.le_refl _⟩

theorem processStart_inv (detached : Bool) (bufferFlush : Option Str) (timeout : Int) :
    (processStart detached bufferFlush timeout).Inv := by
  obtain ⟨hpos, hle⟩ := bufferFlush_bounds bufferFlush
  refine ⟨⟨hpos, hle, fun _ => hpos⟩, fun _ => rfl, fun _ index hclosed => ⟨rfl, ?_⟩, fun _ _ => rfl,
    fun _ _ => ⟨rfl, rfl⟩, .running fun call hcall => absurd hcall List.not_mem_nil,
    fun call hcall => absurd hcall List.not_mem_nil, fun count callbackRc heq => ?_⟩
  · cases detached with
    | true => rfl
    | false => cases hclosed
  · cases heq

theorem ProcessRun.Run.inv {s s' : ProcessRun} {before after : List ProcessEvent} (hs : s.Inv)
    (h : s.Run (before ++ after)) (hrun : before.foldlM ProcessRun.step s = some s') : s'.Inv :=
  alongM_invariant (fun _ _ _ hI hP hs => ProcessRun.Inv.next hI hP hs) hs h rfl hrun

end Wirc
